import Mathlib
import PimAsm.Proofs.Plane

/-! Reading the rows of a block back. Transposing loses nothing below the width of a register, so that the blocks of a
vector, read back one after the other, give its elements modulo a power of two. -/

namespace PimAsm.Plane

/-- The values of the elements of a block, read back out of its rows. -/
def elements (peCount width : ℕ) (image : List Row) : List (BitVec width) :=
  (List.range peCount).map fun pe => ofBits width fun bit => (image.getD bit 0).getLsbD pe

def unsigned {width : ℕ} (values : List (BitVec width)) : List ℤ := values.map fun v => (v.toNat : ℤ)

lemma getD_unsigned {width : ℕ} (values : List (BitVec width)) (i : ℕ) :
    (unsigned values).getD i 0 = ((values.getD i 0).toNat : ℤ) :=
  List.getD_map values 0 fun v => (v.toNat : ℤ)

lemma unsigned_ofInt (width : ℕ) (xs : List ℤ) :
    unsigned (xs.map (BitVec.ofInt width)) = xs.map (· % 2 ^ width) := by
  rw [unsigned, List.map_map]
  refine List.map_congr_left fun x _ => ?_
  have hx : 0 ≤ x % 2 ^ width := Int.emod_nonneg x (by positivity)
  simp [BitVec.toNat_ofInt, hx]

lemma bitOf_toNat (v : Row) (bit : ℕ) : bitOf v.toNat bit = v.getLsbD bit := by
  rw [bitOf, BitVec.ofInt_natCast, BitVec.getLsbD_ofNat, BitVec.testBit_toNat]
  by_cases h : bit < 32
  · simp [h]
  · simp [h, BitVec.getLsbD_of_ge v bit (by omega)]

section

variable {α : Type}

lemma flatMap_range (f : ℕ → α) (m k : ℕ) :
    (List.range m).flatMap (fun c => (List.range k).map fun i => f (c * k + i)) = (List.range (m * k)).map f := by
  induction m with
  | zero => simp
  | succ m ih =>
    rw [List.range_succ, List.flatMap_append, ih, Nat.succ_mul, List.range_add, List.map_append, List.map_map]
    simp [Function.comp_def]

lemma length_le_mul_chunks {size : ℕ} (hs : 0 < size) (xs : List α) : xs.length ≤ (chunks size xs).length * size := by
  by_contra h
  exact lt_irrefl _ ((lt_length_chunks hs xs).mpr (not_le.mp h))

lemma flatMap_rightpad_chunks {size : ℕ} (hs : 0 < size) (xs : List α) (d : α) :
    (chunks size xs).flatMap (List.rightpad size d) = xs.rightpad ((chunks size xs).length * size) d := by
  -- only the last chunk can be short, and its padding is that of the whole list
  rw [← map_getD_range (length_le_mul_chunks hs xs), ← flatMap_range, length_chunks, chunks, List.flatMap_map]
  refine List.flatMap_congr fun c _ => ?_
  rw [← map_getD_range (List.length_take_le _ _)]
  exact List.map_congr_left fun pe hpe => getD_chunk (List.mem_range.mp hpe) xs c d

end

variable {peCount width : ℕ}

lemma rows_unsigned (width : ℕ) (image : List Row) : rows width (unsigned image) = elements width 16 image := by
  -- in rows that are values themselves, elements and bits change places
  refine List.map_congr_left fun bit _ => ?_
  simp only [getD_unsigned, bitOf_toNat]
  rfl

lemma elements_rows {values : List ℤ} (hv : values.length ≤ peCount) (hp : peCount ≤ 16) (hw : width ≤ 32) :
    elements peCount width (rows width values) = (values.rightpad peCount 0).map (BitVec.ofInt width) := by
  rw [← map_getD_range hv, List.map_map]
  refine List.map_congr_left fun pe hpe => BitVec.eq_of_getLsbD_eq fun bit hb => ?_
  have hpe' : pe < 16 := (List.mem_range.mp hpe).trans_le hp
  rw [getLsbD_ofBits, getD_rows values hb, getLsbD_ofBits, bitOf_eq hw hb]
  simp [hb, hpe']

lemma flatMap_elements (h0 : 0 < peCount) (hp : peCount ≤ 16) (hw : width ≤ 32) (xs : List ℤ) :
    ((chunks peCount xs).map (rows width)).flatMap (elements peCount width) =
      (xs.rightpad ((chunks peCount xs).length * peCount) 0).map (BitVec.ofInt width) := by
  rw [← flatMap_rightpad_chunks h0, List.map_flatMap, List.flatMap_map]
  exact List.flatMap_congr fun ch hc => elements_rows (length_of_mem_chunks hc) hp hw

lemma getLsbD_rows_chunk (hp : peCount ≤ 16) (xs : List ℤ) {bit : ℕ} (hb : bit < width) (c pe : ℕ) :
    ((rows width ((xs.drop (c * peCount)).take peCount)).getD bit 0).getLsbD pe =
      if h : pe < peCount ∧ c * peCount + pe < xs.length then (BitVec.ofInt 32 xs[c * peCount + pe]).getLsbD bit
      else false := by
  rw [getD_rows _ hb, getLsbD_ofBits]
  by_cases hpe : pe < peCount
  · rw [getD_chunk hpe, decide_eq_true (hpe.trans_le hp), Bool.true_and]
    by_cases hx : c * peCount + pe < xs.length
    · rw [dif_pos ⟨hpe, hx⟩, List.getD_eq_getElem _ _ hx, bitOf]
    · rw [dif_neg (by simp [hx]), List.getD_eq_default _ _ (not_lt.mp hx), bitOf_zero]
  · have hlen : ((xs.drop (c * peCount)).take peCount).length ≤ pe :=
      (List.length_take_le _ _).trans (not_lt.mp hpe)
    rw [dif_neg (by simp [hpe]), List.getD_eq_default _ _ hlen, bitOf_zero, Bool.and_false]

lemma block_block {values : List ℤ} (hv : values.length = 16) : ∃ image again, block 16 16 values = .ok image ∧
    block 16 16 (unsigned image) = .ok again ∧ unsigned again = values.map (· % 2 ^ 16) := by
  have hlen : (unsigned (rows 16 values)).length ≤ 16 := by simp [unsigned, length_rows]
  have hpad : values.rightpad 16 0 = values := by simp [List.rightpad, hv]
  refine ⟨_, _, block_eq hv.le le_rfl (by decide), block_eq hlen le_rfl (by decide), ?_⟩
  rw [rows_unsigned, elements_rows hv.le le_rfl (by decide), hpad, unsigned_ofInt]

theorem rowVector_lossless (h0 : 1 ≤ peCount) (hp : peCount ≤ 16) (hw : width ≤ 32) (xs : List ℤ) :
    (∃ images, rowVector peCount width xs = .ok images ∧ images.length = xs.length ⌈/⌉ peCount ∧
      (∀ image ∈ images, image.length = width) ∧
      (∀ c < images.length, ∀ bit < width, ∀ pe, ((images.getD c []).getD bit 0).getLsbD pe =
        if h : pe < peCount ∧ c * peCount + pe < xs.length then (BitVec.ofInt 32 xs[c * peCount + pe]).getLsbD bit
        else false) ∧
      unsigned (images.flatMap (elements peCount width)) =
        (xs.map (· % 2 ^ width)).rightpad (images.length * peCount) 0) ∧
    ∀ values : List ℤ, values.length = 16 → ∃ image again, block 16 16 values = .ok image ∧
      block 16 16 (unsigned image) = .ok again ∧ unsigned again = values.map (· % 2 ^ 16) := by
  refine ⟨⟨_, rowVector_eq h0 hp hw xs, ?_, ?_, ?_, ?_⟩, fun values hv => block_block hv⟩
  · rw [List.length_map, length_chunks, Nat.ceilDiv_eq_add_pred_div]
  · simp [length_rows]
  · intro c hc bit hb pe
    rw [List.getD_eq_getElem _ _ hc, List.getElem_map, getElem_chunks]
    exact getLsbD_rows_chunk hp xs hb c pe
  · rw [flatMap_elements h0 hp hw, unsigned_ofInt, List.length_map]
    simp [List.rightpad]

theorem rowVector_lossless_short_block :
    let values : List ℤ := List.replicate 13 5 ++ [-1, 65541, -2147483648]
    (∃ images, rowVector 3 5 [-1, 40, 71, -16] = .ok images ∧ images.length = 2 ∧
      ((images.getD 1 []).getD 4 0).getLsbD 0 = true ∧ ((images.getD 1 []).getD 4 0).getLsbD 1 = false ∧
      unsigned (images.flatMap (elements 3 5)) = [31, 8, 7, 16, 0, 0]) ∧
    values.length = 16 ∧ ∃ image again, block 16 16 values = .ok image ∧ block 16 16 (unsigned image) = .ok again ∧
      unsigned again = List.replicate 13 5 ++ [65535, 5, 0] := by
  intro values
  have hv : values.length = 16 := by decide
  obtain ⟨⟨images, hi, hl, -, hbit, hback⟩, htwice⟩ :=
    rowVector_lossless (show 1 ≤ 3 by decide) (show 3 ≤ 16 by decide) (show 5 ≤ 32 by decide) [-1, 40, 71, -16]
  obtain ⟨image, again, h1, h2, hu⟩ := htwice values hv
  have hl' : images.length = 2 := hl
  rw [hl'] at hbit hback
  exact ⟨⟨images, hi, hl', hbit 1 (by decide) 4 (by decide) 0, hbit 1 (by decide) 4 (by decide) 1, hback⟩, hv, image,
    again, h1, h2, hu⟩

end PimAsm.Plane
