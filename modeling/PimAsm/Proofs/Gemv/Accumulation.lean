import Mathlib
import PimAsm.Proofs.Gemv.Expansion
import PimAsm.Proofs.Gemv.Memory

/-! The folds of a block: after `k` of them the first elements of a register hold the sums of what was a stride of
`16 / 2 ^ k` elements apart. -/

namespace PimAsm.Gemv

namespace Block

variable {p : Limits} {b : Block} {rd rs pe : ℕ}

lemma half_le {k : ℕ} (hk : k < 4) : 16 / 2 ^ (k + 1) ≤ 8 := by
  revert k
  decide

lemma two_mul_half {k : ℕ} (hk : k < 4) : 16 / 2 ^ k = 2 * (16 / 2 ^ (k + 1)) := by
  revert k
  decide

def foldedValue (b : Block) (half rd rs pe : ℕ) : Value :=
  if pe < half then b.value rs pe + b.value rs (pe + half) else b.value rd pe

lemma folded_eq {half : ℕ} (hh : 2 * half ≤ 16) (f g : ℕ → Value) :
    folded half ((List.range 16).map f) ((List.range 16).map g) =
      (List.range 16).map fun pe => if pe < half then f pe + f (pe + half) else g pe := by
  apply List.ext_getElem
  · simp [folded]
    omega
  · intro i hi _
    have hi16 : i < 16 := by
      simp [folded] at hi
      omega
    by_cases h : i < half
    · simp [folded, h, hi16, show i + half < 16 by omega]
    · simp only [folded]
      rw [List.getElem_append_right (by simpa using h)]
      simp [h, show half + (i - half) = i by omega]

lemma execAccumBlk_eq (hp : p.Valid) (h : b.Sound p) {fold : ℕ} (h1 : 1 ≤ fold) (h4 : fold ≤ 4) (hd : rd < 64)
    (hs : rs < 64) : b.execAccumBlk fold rd rs = (b.store rd (b.foldedValue (16 / 2 ^ fold) rd rs)).done := by
  have hm : halvings 16 = 4 := by decide
  have hh : 16 / 2 ^ fold ≤ 8 := by
    obtain ⟨k, rfl⟩ := Nat.exists_eq_add_of_le' h1
    exact half_le (by omega)
  rw [execAccumBlk, reg_eq hp h hs, attempt_ok, reg_eq hp h hd, attempt_ok]
  simp only [peCount, h.limits, hp.peCount, hm, Outcome.require, h1, h4, and_self, if_true, attempt_ok,
    Nat.shiftRight_eq_div_pow]
  rw [folded_eq (by omega), setReg_map hp h hd]
  rfl

lemma sum_range_two_mul (f : ℕ → Value) (n : ℕ) :
    ∑ i ∈ Finset.range (2 * n), f i = ∑ i ∈ Finset.range n, (f (2 * i) + f (2 * i + 1)) := by
  induction n with
  | zero => rfl
  | succ n ih =>
    rw [Nat.mul_succ, Finset.sum_range_succ, Finset.sum_range_succ, ih, Finset.sum_range_succ, add_assoc]

/-- What holds after `k` folds of `rs` into `rd` from `b`. -/
structure Accumulated (p : Limits) (b : Block) (rd rs k : ℕ) (b' : Block) : Prop where
  sound : b'.Sound p
  rows : ∀ addr, addr / 16 ≠ rd → b'.bram[addr]? = b.bram[addr]?
  selected : b'.selected = b.selected
  history : b'.history = b.history
  sums : ∀ pe < 16 / 2 ^ k, b'.value rd pe = ∑ i ∈ Finset.range (2 ^ k), b.value rs (pe + i * (16 / 2 ^ k))
  rest : ∀ pe < 16, 8 ≤ pe → b'.value rd pe = b.value rd pe

lemma Accumulated.first (h : b.Sound p) (hd : rd < 64) :
    Accumulated p b rd rs 1 (b.store rd (b.foldedValue 8 rd rs)) where
  sound := h.store _ _
  rows _ ha := getElem?_store_of_ne ha _
  selected := rfl
  history := rfl
  sums pe hpe := by
    have h8 : pe < 8 := hpe
    rw [value_store h hd (by omega), foldedValue, if_pos h8]
    simp [Finset.sum_range_succ]
  rest pe hpe h8 := by rw [value_store h hd hpe, foldedValue, if_neg (by omega)]

lemma Accumulated.next {k : ℕ} {b' : Block} (hd : rd < 64) (hk : k < 4) (h : Accumulated p b rd rs k b') :
    Accumulated p b rd rs (k + 1) (b'.store rd (b'.foldedValue (16 / 2 ^ (k + 1)) rd rd)) where
  sound := h.sound.store _ _
  rows addr ha := (getElem?_store_of_ne ha _).trans (h.rows addr ha)
  selected := h.selected
  history := h.history
  sums pe hpe := by
    have hh := two_mul_half hk
    have h8 := half_le hk
    set half := 16 / 2 ^ (k + 1)
    rw [value_store h.sound hd (by omega), foldedValue, if_pos hpe, h.sums pe (by omega), h.sums (pe + half) (by omega),
      ← Finset.sum_add_distrib, pow_succ, mul_comm, sum_range_two_mul, hh]
    -- the even terms are the sum of element `pe` and the odd ones that of its partner
    refine Finset.sum_congr rfl fun i _ => ?_
    congr 2 <;> ring
  rest pe hpe h8 := by
    have hh := half_le hk
    rw [value_store h.sound hd hpe, foldedValue, if_neg (by omega), h.rest pe hpe h8]

lemma run_accumBlk (hp : p.Valid) (h : b.Sound p) (hd : rd < 64) (hs : rs < 64) {k : ℕ} (hk : k < 4) :
    ∃ b', run (.accumBlk 1 (byte rd) (byte rs) ::
        (List.range' 2 k).map fun fold => .accumBlk (byte fold) (byte rd) (byte rd)) b = b'.done ∧
      Accumulated p b rd rs (k + 1) b' := by
  have he {b : Block} {fold rs : ℕ} (hf : fold < 256) (hs : rs < 64) :
      b.exec (.accumBlk (byte fold) (byte rd) (byte rs)) = b.execAccumBlk fold rd rs := by
    rw [exec, toNat_byte hf, toNat_byte (by omega), toNat_byte (by omega)]
  induction k with
  | zero =>
    refine ⟨_, ?_, .first h hd⟩
    rw [List.range'_zero, List.map_nil, run, show (1 : BitVec 8) = byte 1 from rfl, he (by decide) hs,
      execAccumBlk_eq hp h le_rfl (by decide) hd hs]
    rfl
  | succ k ih =>
    obtain ⟨b', hr, hb⟩ := ih (by omega)
    refine ⟨_, ?_, hb.next hd hk⟩
    rw [List.range'_concat, List.map_append, ← List.cons_append, run_append, hr, andThen_done, List.map_singleton, run,
      he (by omega) hd, execAccumBlk_eq hp hb.sound (by omega) (by omega) hd hd]
    simp only [one_mul, show 2 + k = k + 1 + 1 by omega]
    rfl

lemma run_blockAccum (hp : p.Valid) (h : b.Sound p) (hd : rd < 64) (hs : rs < 64) (hf : p.maxFold ≤ 4) {ops : List Op}
    (he : (Macro.blockAccum rd rs).expand p = .ok ops) :
    ∃ b', run ops b = b'.done ∧ Accumulated p b rd rs p.maxFold b' := by
  have h0 := hp.maxFold_pos
  rw [Macro.expand_blockAccum (by omega) (by omega)] at he
  cases he
  obtain ⟨b', hr, hb⟩ := run_accumBlk hp h hd hs (show p.maxFold - 1 < 4 by omega)
  exact ⟨b', hr, Nat.sub_add_cancel h0 ▸ hb⟩

lemma toNat_sum (f : ℕ → Value) (n : ℕ) :
    (∑ i ∈ Finset.range n, f i).toNat = (∑ i ∈ Finset.range n, (f i).toNat) % 2 ^ 16 := by
  induction n with
  | zero => rfl
  | succ n ih => rw [Finset.sum_range_succ, Finset.sum_range_succ, BitVec.toNat_add, ih, Nat.mod_add_mod]

lemma strided_lt {k i : ℕ} (hk : k ≤ 4) (hi : i < 2 ^ k) (hpe : pe < 16 / 2 ^ k) : pe + i * (16 / 2 ^ k) < 16 := by
  have hdvd : 2 ^ k ∣ 2 ^ 4 := pow_dvd_pow 2 hk
  calc pe + i * (16 / 2 ^ k) < (i + 1) * (16 / 2 ^ k) := by
        rw [add_one_mul, add_comm]
        gcongr
    _ ≤ 2 ^ k * (16 / 2 ^ k) := by
        gcongr
        exact hi
    _ = 16 := Nat.mul_div_cancel' hdvd

lemma Accumulated.toNat_value {k : ℕ} {b' : Block} (h : Accumulated p b rd rs k b') (hk : k ≤ 4)
    (hpe : pe < 16 / 2 ^ k) : (b'.value rd pe).toNat = (∑ i ∈ Finset.range (2 ^ k),
      (((List.range 16).map (b.value rs)).getD (pe + i * (16 / 2 ^ k)) 0).toNat) % 2 ^ 16 := by
  rw [h.sums pe hpe, toNat_sum]
  refine congrArg (· % 2 ^ 16) (Finset.sum_congr rfl fun i hi => ?_)
  simp [strided_lt hk (Finset.mem_range.mp hi) hpe]

lemma Accumulated.drop_eq {k : ℕ} {b' : Block} (h : Accumulated p b rd rs k b') :
    ((List.range 16).map (b'.value rd)).drop 8 = ((List.range 16).map (b.value rd)).drop 8 := by
  rw [← List.map_drop, ← List.map_drop]
  refine List.map_congr_left fun pe hpe => ?_
  have hm : 8 ≤ pe ∧ pe < 16 := by simpa [List.range_eq_range'] using hpe
  exact h.rest pe hm.2 hm.1

end Block

open Block

theorem blockAccum_sums {u : Params} {c : Config} (hu : u.validate = .ok c) (hk : c.gemv.maxFold ≤ 4) (rd rs : ℕ)
    (hd : rd < c.gemv.regCnt) (hs : rs < c.gemv.regCnt) {b : Block} (hb : b.Sound c.gemv) :
    ∃ xs ys zs b', b.reg rs = .ok xs ∧ b.reg rd = .ok ys ∧ xs.length = 16 ∧ ys.length = 16 ∧ zs.length = 16 ∧
      b.runMacro (.blockAccum rd rs) = (b', .ok ()) ∧ b'.reg rd = .ok zs ∧
      (∀ pe < 16 / 2 ^ c.gemv.maxFold, (zs.getD pe 0).toNat =
        (∑ i ∈ Finset.range (2 ^ c.gemv.maxFold), (xs.getD (pe + i * (16 / 2 ^ c.gemv.maxFold)) 0).toNat) % 2 ^ 16) ∧
      (c.gemv.maxFold = 4 → (zs.getD 0 0).toNat = (xs.map BitVec.toNat).sum % 2 ^ 16) ∧
      zs.drop 8 = ys.drop 8 ∧ b'.selected = b.selected ∧ b'.history = b.history ∧
      ∀ addr, addr / 16 ≠ rd → b'.bram[addr]? = b.bram[addr]? := by
  have hp := (Params.validate_valid hu).gemv
  have hd64 := hp.reg_lt hd
  have hs64 := hp.reg_lt hs
  have he : (Macro.blockAccum rd rs).expand c.gemv = .ok _ := Macro.expand_blockAccum (by omega) (by omega)
  obtain ⟨b', hrun, hacc⟩ := run_blockAccum hp hb hd64 hs64 hk he
  refine ⟨_, _, _, b', reg_eq hp hb hs64, reg_eq hp hb hd64, by simp, by simp, by simp, ?_,
    reg_eq hp hacc.sound hd64, fun pe hpe => ?_, fun h4 => ?_, hacc.drop_eq, hacc.selected, hacc.history, hacc.rows⟩
  · rw [runMacro, hb.limits, he, attempt_ok, hrun]
    rfl
  · have h16 : pe < 16 := hpe.trans_le (Nat.div_le_self _ _)
    rw [← hacc.toNat_value hk hpe]
    simp [h16]
  · have h0 := hacc.toNat_value hk (show 0 < 16 / 2 ^ c.gemv.maxFold by rw [h4]; decide)
    -- four folds leave a stride of one element, so the terms are the elements in order
    simp only [h4] at h0
    exact h0

/-- Three folds of a register into itself: eight values of about 40000 each, so that the sums wrap around. -/
theorem blockAccum_sums_in_place :
    let b := (Block.new { maxFold := 3 } 0 0).store 1 fun pe => BitVec.ofNat 16 (40000 + pe)
    ({ maxFold := 3 } : Params).validate = .ok { gemv := { maxFold := 3 } } ∧ b.Sound { maxFold := 3 } ∧
      ∃ zs b', b.runMacro (.blockAccum 1 1) = (b', .ok ()) ∧ b'.reg 1 = .ok zs ∧ (zs.getD 0 0).toNat = 57912 ∧
        (zs.getD 1 0).toNat = 57920 ∧ zs.drop 8 = (List.range' 40008 8).map (BitVec.ofNat 16) := by
  intro b
  have hu : ({ maxFold := 3 } : Params).validate = .ok { gemv := { maxFold := 3 } } := rfl
  have hp := (Params.validate_valid hu).gemv
  have hn := new_sound hp 0 0
  have hb : b.Sound { maxFold := 3 } := hn.store _ _
  have hr : b.reg 1 = .ok _ := reg_store hp hn (by decide) _
  obtain ⟨xs, ys, zs, b', hxs, hys, -, -, -, hrun, hzs, hsums, -, hrest, -⟩ :=
    blockAccum_sums hu (by decide) 1 1 (by decide) (by decide) hb
  cases hr.symm.trans hxs
  cases hr.symm.trans hys
  exact ⟨hu, hb, zs, b', hrun, hzs, (hsums 0 (by decide)).trans (by decide), (hsums 1 (by decide)).trans (by decide),
    hrest.trans (by decide)⟩

end PimAsm.Gemv
