import Mathlib
import PimAsm.Proofs.Gemv.Expansion
import PimAsm.Proofs.Gemv.Memory

/-! The Booth steps of a product: after `k` steps the register pair holds the multiplicand times the signed value of
the `k` low bits of the multiplier. -/

namespace PimAsm.Gemv.Block

def previousBit (q : Value) (k : ℕ) : Bool := decide (0 < k) && q.getLsbD (k - 1)

lemma toInt_setWidth_eq (q : Value) (k : ℕ) :
    (q.setWidth k).toInt = (q.toNat % 2 ^ k : ℕ) - 2 ^ k * (previousBit q k).toInt := by
  rw [BitVec.toInt_eq_msb_cond, BitVec.toNat_setWidth, BitVec.msb_setWidth, ← previousBit]
  cases previousBit q k <;> simp

lemma toInt_setWidth_succ (q : Value) (k : ℕ) :
    (q.setWidth (k + 1)).toInt =
      (q.setWidth k).toInt + 2 ^ k * ((previousBit q k).toInt - (q.getLsbD k).toInt) := by
  have hm : q.toNat % 2 ^ (k + 1) = q.toNat % 2 ^ k + 2 ^ k * (q.getLsbD k).toNat := by
    rw [Nat.mod_pow_succ, ← Nat.toNat_testBit, BitVec.testBit_toNat]
  have hb : previousBit q (k + 1) = q.getLsbD k := by simp [previousBit]
  rw [toInt_setWidth_eq, toInt_setWidth_eq, hm, hb]
  cases q.getLsbD k with
  | false => simp
  | true =>
    simp
    ring

lemma signExtend_shiftLeft (m : Value) (k : ℕ) : m.signExtend 32 <<< k = BitVec.ofInt 32 (m.toInt * 2 ^ k) := by
  have ht : BitVec.twoPow 32 k = BitVec.ofInt 32 (2 ^ k) := by
    apply BitVec.eq_of_toNat_eq
    rw [BitVec.toNat_twoPow, BitVec.toNat_ofInt]
    norm_cast
  rw [BitVec.shiftLeft_eq_mul_twoPow, ht, BitVec.ofInt_mul, BitVec.signExtend]

lemma boothStep_eq (m q : Value) (k : ℕ) :
    boothStep k (BitVec.ofInt 32 (m.toInt * (q.setWidth k).toInt)) m (q.getLsbD k) (previousBit q k) =
      BitVec.ofInt 32 (m.toInt * (q.setWidth (k + 1)).toInt) := by
  rw [toInt_setWidth_succ, mul_add, BitVec.ofInt_add]
  unfold boothStep
  rw [signExtend_shiftLeft]
  -- the step adds or subtracts only where the multiplier changes from one bit to the next
  cases q.getLsbD k <;> cases previousBit q k
  · simp
  · simp
  · simp [BitVec.sub_eq_add_neg, ← BitVec.ofInt_neg]
  · simp

variable {p : Limits} {b : Block} {pp m q pe : ℕ}

def wide (b : Block) (reg pe : ℕ) : BitVec 32 := b.value (reg + 1) pe ++ b.value reg pe

def storePair (b : Block) (reg : ℕ) (f : ℕ → BitVec 32) : Block :=
  (b.store reg fun pe => shifted 0 (f pe)).store (reg + 1) fun pe => shifted 16 (f pe)

def remember (b : Block) (bits : List Bool) : Block := { b with history := bits }

lemma Sound.remember (h : b.Sound p) {bits : List Bool} (hl : bits.length = 16) : (b.remember bits).Sound p :=
  ⟨h.limits, hl, h.size⟩

lemma Sound.storePair (h : b.Sound p) (reg : ℕ) (f : ℕ → BitVec 32) : (b.storePair reg f).Sound p :=
  (h.store _ _).store _ _

lemma shifted_append (v : BitVec 32) : shifted 16 v ++ shifted 0 v = v := by
  apply BitVec.eq_of_getLsbD_eq
  intro i hi
  simp only [shifted, BitVec.getLsbD_append, BitVec.getLsbD_setWidth, BitVec.getLsbD_ushiftRight]
  by_cases h : i < 16
  · simp [h]
  · simp [h, show 16 + (i - 16) = i by omega, show i - 16 < 16 by omega]

lemma getLsbD_wide (b : Block) (reg pe bit : ℕ) : (b.wide reg pe).getLsbD bit =
    if bit < 16 then (b.value reg pe).getLsbD bit else (b.value (reg + 1) pe).getLsbD (bit - 16) :=
  BitVec.getLsbD_append

lemma shifted_zero_wide (b : Block) (reg pe : ℕ) : shifted 0 (b.wide reg pe) = b.value reg pe := by
  apply BitVec.eq_of_getLsbD_eq
  intro bit hb
  rw [shifted, BitVec.ushiftRight_zero, BitVec.getLsbD_setWidth, getLsbD_wide]
  simp [hb]

lemma shifted_ofInt {k : ℕ} (hk : k ≤ 16) (n : ℤ) :
    shifted k (BitVec.ofInt 32 n) = BitVec.ofInt 16 (n.fdiv (2 ^ k)) := by
  have hp : (0 : ℤ) < 2 ^ k := by positivity
  have hw : (2 : ℤ) ^ 32 = 2 ^ k * (2 ^ (16 - k) * 2 ^ 16) := by
    rw [← pow_add, ← pow_add]
    congr 1
    omega
  -- the bits of `n` past the pair end past bit 15, so it does not matter which ones a shift brings in
  have hd : n.fdiv (2 ^ k) = n % 2 ^ 32 / 2 ^ k + 2 ^ 16 * (2 ^ (16 - k) * (n / 2 ^ 32)) := by
    have hn : n = n % 2 ^ 32 + 2 ^ k * (2 ^ 16 * (2 ^ (16 - k) * (n / 2 ^ 32))) := by
      nth_rewrite 1 [← Int.emod_add_mul_ediv n (2 ^ 32)]
      linear_combination (n / 2 ^ 32) * hw
    rw [Int.fdiv_eq_ediv_of_nonneg _ hp.le]
    nth_rewrite 1 [hn]
    exact Int.add_mul_ediv_left _ _ hp.ne'
  have hr : 0 ≤ n % 2 ^ 32 := Int.emod_nonneg _ (by decide)
  apply BitVec.eq_of_toNat_eq
  rw [hd, shifted, BitVec.toNat_setWidth, BitVec.toNat_ushiftRight, BitVec.toNat_ofInt, BitVec.toNat_ofInt,
    Nat.shiftRight_eq_div_pow]
  zify
  rw [Int.toNat_of_nonneg hr, Int.add_mul_emod_self_left, Int.toNat_of_nonneg (Int.emod_nonneg _ (by decide))]

lemma toInt_ofInt_mul (x y : Value) : (BitVec.ofInt 32 (x.toInt * y.toInt)).toInt = x.toInt * y.toInt := by
  have hl : -2 ^ 30 ≤ x.toInt * y.toInt := BitVec.le_toInt_mul_toInt
  have hu : x.toInt * y.toInt ≤ 2 ^ 30 := BitVec.toInt_mul_toInt_le
  apply BitVec.toInt_ofInt_eq_self (by decide) <;> omega

lemma wide_storePair (h : b.Sound p) (hr : pp + 1 < 64) (hpe : pe < 16) (f : ℕ → BitVec 32) :
    (b.storePair pp f).wide pp pe = f pe := by
  rw [wide, storePair, value_store (h.store _ _) hr hpe, value_store_of_ne (by omega), value_store h (by omega) hpe,
    shifted_append]

lemma getElem?_storePair_of_ne {addr : ℕ} (h0 : addr / 16 ≠ pp) (h1 : addr / 16 ≠ pp + 1) (f : ℕ → BitVec 32) :
    (b.storePair pp f).bram[addr]? = b.bram[addr]? := by
  rw [storePair, getElem?_store_of_ne h1, getElem?_store_of_ne h0]

lemma pair_eq (hp : p.Valid) (h : b.Sound p) (hr : pp < 64) :
    b.pair pp = .ok ((List.range 16).map (b.wide pp)) := by
  have hz : List.zipWith (fun l h : Value => h ++ l) ((List.range 16).map (b.value pp))
      ((List.range 16).map (b.value (pp + 1))) = (List.range 16).map (b.wide pp) := by
    rw [List.zipWith_map, List.zipWith_self]
    rfl
  by_cases hl : pp = 63
  · subst hl
    have h0 : List.replicate 16 0 = (List.range 16).map (b.value 64) := by
      rw [show b.value 64 = fun _ => 0 from funext (value_past_end h), List.map_const', List.length_range]
    simp only [pair, reg_eq hp h hr, reg_past_end hp h, Outcome.ok_bind, Outcome.pure_eq, Outcome.fail, List.length_map,
      List.length_range]
    rw [h0, hz]
  · simp only [pair, reg_eq hp h hr, reg_eq hp h (show pp + 1 < 64 by omega), Outcome.ok_bind, Outcome.pure_eq]
    rw [hz]

lemma setPair_eq (hp : p.Valid) (h : b.Sound p) (hr : pp + 1 < 64) (f : ℕ → BitVec 32) :
    b.setPair pp ((List.range 16).map f) = (b.storePair pp f).done := by
  rw [setPair, List.map_map, List.map_map, setReg_map hp h (by omega), andThen_done, setReg_map hp (h.store _ _) hr]
  rfl

def stepped (b : Block) (k pp m q pe : ℕ) : BitVec 32 :=
  boothStep k (if k = 0 then 0 else b.wide pp pe) (b.value m pe) ((b.value q pe).getLsbD k) (b.history.getD pe false)

lemma partialProducts_eq (hp : p.Valid) (h : b.Sound p) (hr : pp < 64) (k : ℕ) :
    ∃ o, b.partialProducts k pp = .ok o ∧ ∀ ms : List Value, ms.length = 16 →
      o.getD (ms.map fun _ => 0) = (List.range 16).map fun pe => if k = 0 then 0 else b.wide pp pe := by
  by_cases hk : k = 0
  · refine ⟨none, by rw [partialProducts, if_pos hk], fun ms hms => ?_⟩
    simp [hk, hms]
  · refine ⟨some ((List.range 16).map (b.wide pp)), ?_, fun ms _ => by simp [hk]⟩
    rw [partialProducts, if_neg hk, pair_eq hp h hr, Outcome.map_ok]

lemma execUpdatePp_setPair (hp : p.Valid) (h : b.Sound p) {k : ℕ} (hk : k < 16) (hpp : pp < 64) (hm : m < 64)
    (hq : q < 64) :
    b.execUpdatePp k pp m q = (b.remember ((List.range 16).map fun pe => (b.value q pe).getLsbD k)).setPair pp
      ((List.range 16).map (b.stepped k pp m q)) := by
  obtain ⟨o, ho, hproducts⟩ := partialProducts_eq hp h hpp k
  have hc : b.limits.checkOffset k = .ok () := by
    rw [h.limits, Limits.checkOffset_eq_ok, hp.regWidth]
    exact hk
  have hsteps : List.zipWith (fun (x : BitVec 32 × Value) (y : Bool × Bool) => boothStep k x.1 x.2 y.1 y.2)
      (((List.range 16).map fun pe => if k = 0 then 0 else b.wide pp pe).zip ((List.range 16).map (b.value m)))
      (((List.range 16).map fun pe => (b.value q pe).getLsbD k).zip b.history) =
        (List.range 16).map (b.stepped k pp m q) := by
    rw [h.history_eq, List.zip_map', List.zip_map', List.zipWith_map, List.zipWith_self]
    rfl
  rw [execUpdatePp, hc, attempt_ok, ho, attempt_ok, reg_eq hp h hm, attempt_ok, reg_eq hp h hq, attempt_ok,
    hproducts _ (by simp), List.map_map]
  exact congrArg ((b.remember ((List.range 16).map fun pe => (b.value q pe).getLsbD k)).setPair pp) hsteps

lemma execUpdatePp_eq (hp : p.Valid) (h : b.Sound p) {k : ℕ} (hk : k < 16) (hpp : pp + 1 < 64) (hm : m < 64)
    (hq : q < 64) :
    b.execUpdatePp k pp m q = ((b.remember ((List.range 16).map fun pe => (b.value q pe).getLsbD k)).storePair pp
      (b.stepped k pp m q)).done := by
  rw [execUpdatePp_setPair hp h hk (Nat.lt_of_succ_lt hpp) hm hq, setPair_eq hp (h.remember (by simp)) hpp]

-- the low half of the product is stored before the high half is found to have no rows
lemma execUpdatePp_last (hp : p.Valid) (h : b.Sound p) {k : ℕ} (hk : k < 16) (hm : m < 64) (hq : q < 64) :
    ∃ f, b.execUpdatePp k 63 m q = ((b.remember ((List.range 16).map fun pe => (b.value q pe).getLsbD k)).store 63
      fun pe => shifted 0 (b.stepped k 63 m q pe), Outcome.fail f) := by
  have hb : (b.remember ((List.range 16).map fun pe => (b.value q pe).getLsbD k)).Sound p := h.remember (by simp)
  rw [execUpdatePp_setPair hp h hk (by decide) hm hq, setPair, List.map_map, List.map_map,
    setReg_map hp hb (by decide), andThen_done, setReg_past_end hp (hb.store _ _) (by simp)]
  exact ⟨_, rfl⟩

/-- What holds after `k` Booth steps from `b`. -/
structure Multiplied (p : Limits) (b : Block) (pp m q k : ℕ) (b' : Block) : Prop where
  sound : b'.Sound p
  rows : ∀ addr, addr / 16 ≠ pp → addr / 16 ≠ pp + 1 → b'.bram[addr]? = b.bram[addr]?
  selected : b'.selected = b.selected
  history : ∀ pe < 16, b'.history.getD pe false = previousBit (b.value q pe) k
  product : 0 < k → ∀ pe < 16,
    b'.wide pp pe = BitVec.ofInt 32 ((b.value m pe).toInt * ((b.value q pe).setWidth k).toInt)

lemma Multiplied.start (h : b.Sound p) : Multiplied p b pp m q 0 (b.remember (b.history.map fun _ => false)) where
  sound := h.remember (by simp [h.history])
  rows _ _ _ := rfl
  selected := rfl
  history pe hpe := by
    simp only [remember, List.getD_eq_getElem?_getD, List.getElem?_map]
    cases b.history[pe]? <;> rfl
  product hk := absurd hk (lt_irrefl 0)

lemma Multiplied.value_eq {k r : ℕ} {b' : Block} (h : Multiplied p b pp m q k b') (hr : r ≠ pp ∧ r ≠ pp + 1) :
    b'.value r pe = b.value r pe :=
  value_congr fun addr ha => h.rows addr (by omega) (by omega)

lemma Multiplied.stepped_eq {k : ℕ} {b' : Block} (hm : m ≠ pp ∧ m ≠ pp + 1) (hq : q ≠ pp ∧ q ≠ pp + 1)
    (h : Multiplied p b pp m q k b') (hpe : pe < 16) :
    b'.stepped k pp m q pe = BitVec.ofInt 32 ((b.value m pe).toInt * ((b.value q pe).setWidth (k + 1)).toInt) := by
  have hw : (if k = 0 then 0 else b'.wide pp pe) =
      BitVec.ofInt 32 ((b.value m pe).toInt * ((b.value q pe).setWidth k).toInt) := by
    split_ifs with hk
    · -- the first step ignores what the pair held before
      subst hk
      simp [BitVec.toInt_zero_length]
    · exact h.product (Nat.pos_of_ne_zero hk) pe hpe
  rw [stepped, hw, h.value_eq hm, h.value_eq hq, h.history pe hpe, boothStep_eq]

lemma Multiplied.step {k : ℕ} {b' : Block} (hm : m ≠ pp ∧ m ≠ pp + 1) (hq : q ≠ pp ∧ q ≠ pp + 1) (hpp : pp + 1 < 64)
    (h : Multiplied p b pp m q k b') :
    Multiplied p b pp m q (k + 1) ((b'.remember ((List.range 16).map fun pe => (b'.value q pe).getLsbD k)).storePair pp
      (b'.stepped k pp m q)) where
  sound := (h.sound.remember (by simp)).storePair _ _
  rows addr h0 h1 := (getElem?_storePair_of_ne h0 h1 _).trans (h.rows addr h0 h1)
  selected := h.selected
  history pe hpe := by
    rw [storePair, store, store, update, update, remember]
    simp [hpe, previousBit, h.value_eq hq]
  product _ pe hpe := by
    rw [wide_storePair (h.sound.remember (by simp)) hpp hpe, h.stepped_eq hm hq hpe]

lemma run_updatePp (hp : p.Valid) (h : b.Sound p) (hm : m < 64 ∧ m ≠ pp ∧ m ≠ pp + 1)
    (hq : q < 64 ∧ q ≠ pp ∧ q ≠ pp + 1) (hpp : pp + 1 < 64) {k : ℕ} (hk : k ≤ 16) :
    ∃ b', run (.clrMbit :: (List.range k).map fun bit => .updatePp (byte bit) (byte pp) (byte m) (byte q)) b = b'.done ∧
      Multiplied p b pp m q k b' := by
  induction k with
  | zero => exact ⟨_, rfl, .start h⟩
  | succ k ih =>
    obtain ⟨b', hr, hb⟩ := ih (by omega)
    have he : b'.exec (.updatePp (byte k) (byte pp) (byte m) (byte q)) = b'.execUpdatePp k pp m q := by
      rw [exec, toNat_byte (by omega), toNat_byte (by omega), toNat_byte (by omega), toNat_byte (by omega)]
    refine ⟨_, ?_, hb.step hm.2 hq.2 hpp⟩
    rw [List.range_succ, List.map_append, ← List.cons_append, run_append, hr, andThen_done, List.map_singleton, run, he,
      execUpdatePp_eq hp hb.sound hk hpp hm.1 hq.1]
    rfl

lemma run_mult (hp : p.Valid) (h : b.Sound p) {u : Unit} (hk : p.checkProduct pp m q = .ok u) {ops : List Op}
    (he : (Macro.mult pp m q).expand p = .ok ops) : ∃ b', run ops b = b'.done ∧ Multiplied p b pp m q 16 b' := by
  obtain ⟨h1, h2, h3, hm0, hm1, hq0, hq1⟩ := Limits.checkProduct_eq_ok.mp hk
  have hc := hp.regCnt_le
  rw [Macro.expand_mult hp (by omega) (by omega) (by omega)] at he
  cases he
  exact run_updatePp hp h ⟨by omega, hm0, hm1⟩ ⟨by omega, hq0, hq1⟩ (by omega) le_rfl

lemma Multiplied.value_product {b' : Block} (h : Multiplied p b pp m q 16 b') (hpe : pe < 16) :
    b'.value pp pe = BitVec.ofInt 16 ((b.value m pe).toInt * (b.value q pe).toInt) := by
  rw [← shifted_zero_wide, h.product (by decide) pe hpe, BitVec.setWidth_eq, shifted_ofInt (by decide), pow_zero,
    Int.fdiv_one]

lemma Multiplied.wide_toInt {b' : Block} (h : Multiplied p b pp m q 16 b') (hpe : pe < 16) :
    (b'.wide pp pe).toInt = (b.value m pe).toInt * (b.value q pe).toInt := by
  rw [h.product (by decide) pe hpe, BitVec.setWidth_eq, toInt_ofInt_mul]

-- the last bit of a register is the sign of its value
lemma Multiplied.history_eq {b' : Block} (h : Multiplied p b pp m q 16 b') :
    b'.history = (List.range 16).map fun pe => decide ((b.value q pe).toInt < 0) := by
  rw [h.sound.history_eq]
  refine List.map_congr_left fun pe hpe => ?_
  rw [h.history pe (List.mem_range.mp hpe), ← BitVec.msb_eq_toInt, BitVec.msb_eq_getLsbD_last]
  rfl

end PimAsm.Gemv.Block
