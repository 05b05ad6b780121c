import Mathlib
import PimAsm.Bits.Plane
import PimAsm.Proofs.Outcome

namespace PimAsm.Plane

lemma length_rows (width : ℕ) (values : List ℤ) : (rows width values).length = width := by simp [rows, rowWidth]

lemma getD_rows {width bit : ℕ} (values : List ℤ) (h : bit < width) :
    (rows width values).getD bit 0 = ofBits 16 fun pe => bitOf (values.getD pe 0) bit := by
  simp [rows, h, rowWidth]

lemma block_eq {peCount width : ℕ} {values : List ℤ} (hv : values.length ≤ peCount) (hp : peCount ≤ 16)
    (hw : width ≤ 32) : block peCount width values = .ok (rows width values) := by
  simp [block, Outcome.require, Outcome.within, rowWidth, hv, hp, hw]

lemma map_getD_range {α : Type} {n : ℕ} {xs : List α} (h : xs.length ≤ n) (d : α) :
    (List.range n).map (fun i => xs.getD i d) = xs.rightpad n d := by
  apply List.ext_getElem
  · simp [List.rightpad, h]
  · intro i hi _
    by_cases hx : i < xs.length
    · simp [List.rightpad, hx]
    · simp [List.rightpad, not_lt.mp hx]

lemma length_chunks {α : Type} (size : ℕ) (xs : List α) :
    (chunks size xs).length = (xs.length + size - 1) / size := by simp [chunks]

lemma lt_length_chunks {α : Type} {size c : ℕ} (hs : 0 < size) (xs : List α) :
    c < (chunks size xs).length ↔ c * size < xs.length := by
  rw [length_chunks, Nat.lt_div_iff_mul_lt hs]
  omega

lemma getElem_chunks {α : Type} {size c : ℕ} (xs : List α) (h : c < (chunks size xs).length) :
    (chunks size xs)[c] = (xs.drop (c * size)).take size := by
  simp [chunks]

lemma length_of_mem_chunks {α : Type} {size : ℕ} {xs ch : List α} (h : ch ∈ chunks size xs) : ch.length ≤ size := by
  simp only [chunks, List.mem_map] at h
  obtain ⟨c, _, rfl⟩ := h
  exact List.length_take_le _ _

lemma getD_chunk {α : Type} {size pe : ℕ} (h : pe < size) (xs : List α) (c : ℕ) (d : α) :
    ((xs.drop (c * size)).take size).getD pe d = xs.getD (c * size + pe) d := by
  simp [List.getD_eq_getElem?_getD, h]

lemma rowVector_eq {peCount width : ℕ} (h0 : 0 < peCount) (hp : peCount ≤ 16) (hw : width ≤ 32) (xs : List ℤ) :
    rowVector peCount width xs = .ok ((chunks peCount xs).map (rows width)) := by
  rw [rowVector, Nat.max_eq_left h0]
  exact Outcome.mapM_of_forall fun ch hc => block_eq (length_of_mem_chunks hc) hp hw

lemma columnVector_eq {peCount width : ℕ} (hp : peCount ≤ 16) (hw : width ≤ 32) (xs : List ℤ) :
    columnVector peCount width xs = .ok (xs.map fun v => rows width (List.replicate peCount v)) := by
  refine Outcome.mapM_of_forall fun v _ => ?_
  rw [block_eq (by simp) hp hw]
  simp [Outcome.require, rowWidth, hp]

lemma matrix_eq {peCount width : ℕ} (h0 : 0 < peCount) (hp : peCount ≤ 16) (hw : width ≤ 32) (mat : List (List ℤ)) :
    matrix peCount width mat = .ok (mat.map fun xs => (chunks peCount xs).map (rows width)) :=
  Outcome.mapM_of_forall fun xs _ => rowVector_eq h0 hp hw xs

lemma bitOf_zero (bit : ℕ) : bitOf 0 bit = false := by simp [bitOf]

lemma bitOf_eq {width bit : ℕ} (hw : width ≤ 32) (h : bit < width) (v : ℤ) :
    bitOf v bit = (BitVec.ofInt width v).getLsbD bit := by
  have hv : BitVec.ofInt width v = (BitVec.ofInt 32 v).setWidth width := by
    have hd : ((2 ^ width : ℕ) : ℤ) ∣ (2 ^ 32 : ℕ) := Int.natCast_dvd_natCast.mpr (pow_dvd_pow 2 hw)
    apply BitVec.eq_of_toNat_eq
    rw [BitVec.toNat_setWidth, BitVec.toNat_ofInt, BitVec.toNat_ofInt, ← Int.emod_emod_of_dvd v hd,
      Int.toNat_emod (Int.emod_nonneg _ (by positivity)) (by positivity), Int.toNat_natCast]
  rw [bitOf, hv, BitVec.getLsbD_setWidth, decide_eq_true h, Bool.true_and]

end PimAsm.Plane
