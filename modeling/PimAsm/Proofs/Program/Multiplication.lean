import Mathlib
import PimAsm.Proofs.Gemv.Effect
import PimAsm.Proofs.Program.Execution

/-! The two products of a program: the full one, in a pair of registers, and the fixed-point one, which goes through the
first reserved pair and is cut down to a register. -/

namespace PimAsm

namespace Gemv.Block

variable {p : Limits} {b : Block} {base f rd m q reg : ℕ}

lemma regSigned_const (hp : p.Valid) (h : b.Sound p) (hr : reg < 64) {v : Value} (hv : ∀ pe < 16, b.value reg pe = v) :
    b.regSigned reg = .ok (List.replicate 16 v.toInt) := by
  rw [regSigned, reg_const hp h hr hv, Outcome.ok_bind, Outcome.pure_eq, List.map_replicate]

/-- What holds after a product in the pair from `base` on and a move of its bits from `f` on to `rd`. -/
structure Scaled (p : Limits) (b : Block) (base f rd m q : ℕ) (b' : Block) : Prop where
  sound : b'.Sound p
  value : ∀ pe < 16, b'.value rd pe = BitVec.ofInt 16 (((b.value m pe).toInt * (b.value q pe).toInt).fdiv (2 ^ f))
  rows : ∀ addr, addr / 16 < base → addr / 16 ≠ rd → b'.bram[addr]? = b.bram[addr]?

lemma run_multFxp (hp : p.Valid) (h : b.Sound p) (hb : base + 1 < 64) (hd : rd < base) (hm : m < base) (hq : q < base)
    (hf : f < 16) {mult : List Op} (he : (Macro.mult base m q).expand p = .ok mult) :
    ∃ b', run (mult ++ [.movOffset (byte f) (byte rd) (byte base)]) b = b'.done ∧ Scaled p b base f rd m q b' := by
  rw [Macro.expand_mult hp (by omega) (by omega) (by omega)] at he
  cases he
  obtain ⟨b1, h1, hprod⟩ := run_updatePp hp h (m := m) (q := q) (by omega) (by omega) hb le_rfl
  have hmove : b1.exec (.movOffset (byte f) (byte rd) (byte base)) =
      (b1.store rd fun pe => shifted f (b1.wide base pe)).done := by
    have hfit : (Op.movOffset (byte f) (byte rd) (byte base)).Fits := by
      refine ⟨?_, ?_, ?_⟩ <;> rw [toNat_byte (by omega)] <;> omega
    rw [exec_of_fits hp hprod.sound hfit (not_le.mpr hfit.1), effect, toNat_byte (by omega), toNat_byte (by omega),
      toNat_byte (by omega)]
  refine ⟨b1.store rd fun pe => shifted f (b1.wide base pe), ?_, hprod.sound.store _ _, fun pe hpe => ?_,
    fun addr ha hr => ?_⟩
  · rw [run_append, h1, andThen_done, run, hmove]
    rfl
  · rw [value_store hprod.sound (by omega) hpe, hprod.product (by decide) pe hpe, BitVec.setWidth_eq,
      shifted_ofInt (by omega)]
  · rw [getElem?_store_of_ne hr, hprod.rows addr (by omega) (by omega)]

end Gemv.Block

open Gemv

lemma Call.exists_multFxpRecords {c : Config} (hc : c.Valid) (note : Option String) {rd m q : ℕ} :
    (∃ rs, multFxpRecords c note rd m q = .ok rs) ↔
      (∃ r, c.reserved = some r ∧ 2 ≤ r.count) ∧ (rd < c.gemv.regCnt ∧ m < c.gemv.regCnt ∧ q < c.gemv.regCnt) ∧
        rd ≠ m ∧ rd ≠ q ∧ c.fracWidth ≤ 15 := by
  have hn := hc.gemv.regCnt_le
  obtain ⟨comment, -, he⟩ := multFxpRecords_eq_ok hc note rd m q
  simp only [he]
  constructor
  · rintro ⟨rs, hin, -⟩
    exact hin
  · -- once the checks have passed, the macro expands
    intro hin
    have ⟨_, ⟨_, hm, hq⟩, _⟩ := hin
    have hx : (Macro.mult c.gemv.regCnt m q).expand c.gemv = .ok _ :=
      Macro.expand_mult hc.gemv (by omega) (by omega) (by omega)
    exact ⟨_, hin, _, hx, rfl⟩

theorem mult_exact {u : Params} {c : Config} (hu : u.validate = .ok c) {pp m q n : ℕ} {s : Session}
    (hs : (Session.new c).issue (.mvMult pp m q) = (s, .ok n)) {b : Block} (hb : b.Sound c.gemv) :
    ∃ xs ys b' lo hi, b.regSigned m = .ok xs ∧ b.regSigned q = .ok ys ∧ xs.length = 16 ∧ ys.length = 16 ∧
      b.runMacro (.mult pp m q) = (b', .ok ()) ∧ b'.reg pp = .ok lo ∧ b'.reg (pp + 1) = .ok hi ∧
      List.zipWith (fun l h : Value => (h ++ l).toInt) lo hi = List.zipWith (· * ·) xs ys ∧
      b'.history = ys.map (fun y => decide (y < 0)) ∧ b'.selected = b.selected ∧
      ∀ addr, addr / 16 ≠ pp → addr / 16 ≠ pp + 1 → b'.bram[addr]? = b.bram[addr]? := by
  have hp := (Params.validate_valid hu).gemv
  obtain ⟨rs, hr, -⟩ := Session.issue_eq_ok hs
  have hk : c.gemv.checkProduct pp m q = .ok () := (Call.checked_eq_ok.mp hr).1
  obtain ⟨hpp, hm, hq, -⟩ := Limits.checkProduct_eq_ok.mp hk
  have hc := hp.regCnt_le
  have he : (Macro.mult pp m q).expand c.gemv = .ok _ := Macro.expand_mult hp (by omega) (by omega) (by omega)
  obtain ⟨b', hrun, hprod⟩ := Block.run_mult hp hb hk he
  refine ⟨_, _, b', _, _, Block.regSigned_eq hp hb (hp.reg_lt hm), Block.regSigned_eq hp hb (hp.reg_lt hq), by simp,
    by simp, ?_, Block.reg_eq hp hprod.sound (by omega), Block.reg_eq hp hprod.sound (hp.reg_lt hpp), ?_, ?_,
    hprod.selected, hprod.rows⟩
  · rw [Block.runMacro, hb.limits, he, Block.attempt_ok, hrun]
    rfl
  · rw [List.zipWith_map, List.zipWith_self, List.zipWith_map, List.zipWith_self]
    exact List.map_congr_left fun pe hpe => hprod.wide_toInt (List.mem_range.mp hpe)
  · rw [hprod.history_eq, List.map_map]
    rfl

/-- The square of the least value, which is the one product that needs bit 30. -/
theorem mult_exact_least :
    let b := (Block.new {} 0 0).store 1 fun _ => -32768
    ({} : Params).validate = .ok {} ∧ (∃ s, (Session.new {}).issue (.mvMult 4 1 1) = (s, .ok 1)) ∧ b.Sound {} ∧
      ∃ b' lo hi, b.runMacro (.mult 4 1 1) = (b', .ok ()) ∧ b'.reg 4 = .ok lo ∧ b'.reg 5 = .ok hi ∧
        List.zipWith (fun l h : Value => (h ++ l).toInt) lo hi = List.replicate 16 1073741824 ∧
        b'.history = List.replicate 16 true := by
  intro b
  have hp := Config.default_valid.gemv
  have hn := Block.new_sound hp 0 0
  have hb : b.Sound {} := hn.store _ _
  have h1 : b.regSigned 1 = .ok (List.replicate 16 (-32768)) :=
    Block.regSigned_const hp hb (by decide) fun pe hpe => Block.value_store hn (by decide) hpe _
  have hu : ({} : Params).validate = .ok {} := rfl
  have hs : (Session.new {}).issue (.mvMult 4 1 1) = (_, .ok 1) := rfl
  obtain ⟨xs, ys, b', lo, hi, hx, hy, -, -, hrun, hlo, hhi, hprod, hhist, -⟩ := mult_exact hu hs hb
  cases h1.symm.trans hx
  cases h1.symm.trans hy
  exact ⟨hu, ⟨_, hs⟩, hb, b', lo, hi, hrun, hlo, hhi, hprod, hhist⟩

theorem multFxp_floor {s : Session} (h : s.Reachable) (rd m q : ℕ) :
    ((∃ s' n, s.issue (.mvMultFxp rd m q) = (s', .ok n)) ↔
      (∃ r, s.config.reserved = some r ∧ 2 ≤ r.count) ∧
      (rd < s.config.gemv.regCnt ∧ m < s.config.gemv.regCnt ∧ q < s.config.gemv.regCnt) ∧ rd ≠ m ∧ rd ≠ q ∧
      s.config.fracWidth ≤ 15) ∧
    ∀ s' n, s.issue (.mvMultFxp rd m q) = (s', .ok n) → n = 2 ∧
      ∃ before ws, s.words.2 = .ok before ∧ s'.words.2 = .ok (before ++ ws) ∧
        ∀ b : Block, b.Sound s.config.gemv → ∃ xs ys b', b.regSigned m = .ok xs ∧ b.regSigned q = .ok ys ∧
          xs.length = 16 ∧ ys.length = 16 ∧ Block.runWords ws b = (b', .ok ()) ∧
          b'.reg rd = .ok (List.zipWith (fun x y => BitVec.ofInt 16 ((x * y).fdiv (2 ^ s.config.fracWidth))) xs ys) ∧
          ∀ addr < 16 * s.config.gemv.regCnt, addr / 16 ≠ rd → b'.bram[addr]? = b.bram[addr]? := by
  have hs := h.sound
  have hc := hs.config
  have hp := hc.gemv
  constructor
  · rw [← Call.exists_multFxpRecords hc s.note]
    constructor
    · rintro ⟨s', n, hi⟩
      obtain ⟨rs, hr, -⟩ := Session.issue_eq_ok hi
      exact ⟨rs, hr⟩
    · rintro ⟨rs, hr⟩
      exact ⟨_, _, Session.issue_of_ok hr⟩
  · intro s' n hi
    obtain ⟨rs, before, hr, hn, hbefore, hafter, hfits⟩ := hs.words_issue hi
    obtain ⟨comment, -, hrs⟩ := Call.multFxpRecords_eq_ok hc s.note rd m q
    obtain ⟨⟨⟨res, hres, hcount⟩, ⟨hd, hm, hq⟩, -, -, hf⟩, mult, he, rfl⟩ := (hrs rs).mp hr
    obtain ⟨hbase, hend⟩ := hc.reserved res hres
    refine ⟨hn.symm, before, _, hbefore, hafter, fun b hb => ?_⟩
    obtain ⟨b', hrun, hsc⟩ := Block.run_multFxp hp hb (by omega) hd hm hq (Nat.lt_succ_of_le hf) he
    refine ⟨_, _, b', Block.regSigned_eq hp hb (hp.reg_lt hm), Block.regSigned_eq hp hb (hp.reg_lt hq), by simp,
      by simp, ?_, ?_, fun addr ha hr => hsc.rows addr (by omega) hr⟩
    · rw [Block.runWords_word hfits, Call.instrs_scaledRecords, Instr.gemvOps_map]
      exact hrun
    · rw [Block.reg_eq hp hsc.sound (hp.reg_lt hd), List.zipWith_map, List.zipWith_self]
      exact congrArg Except.ok (List.map_congr_left fun pe hpe => hsc.value pe (List.mem_range.mp hpe))

/-- Eight fraction bits: 385 times -576 is -221760, and -866.25 is rounded down. -/
theorem multFxp_floor_negative :
    let s := Session.new { fracWidth := 8, reserved := some ⟨16, 2⟩ }
    let b := ((Block.new {} 0 0).store 1 fun _ => 385).store 2 fun _ => -576
    s.Reachable ∧ b.Sound {} ∧ ∃ s' before ws b', s.issue (.mvMultFxp 3 1 2) = (s', .ok 2) ∧
      s'.words.2 = .ok (before ++ ws) ∧ Block.runWords ws b = (b', .ok ()) ∧
      b'.reg 3 = .ok (List.replicate 16 (-867)) := by
  intro s b
  have hp := Config.default_valid.gemv
  have hn := Block.new_sound hp 0 0
  have hn1 := hn.store 1 fun _ => 385
  have hb : b.Sound {} := hn1.store _ _
  have h1 : b.regSigned 1 = .ok (List.replicate 16 385) := Block.regSigned_const hp hb (by decide) fun pe hpe =>
    (Block.value_store_of_ne (by decide) _).trans (Block.value_store hn (by decide) hpe _)
  have h2 : b.regSigned 2 = .ok (List.replicate 16 (-576)) :=
    Block.regSigned_const hp hb (by decide) fun pe hpe => Block.value_store hn1 (by decide) hpe _
  have hs : s.Reachable := .params (p := { fracWidth := 8, reservedRegs := 2 }) rfl
  obtain ⟨-, before, ws, -, hws, hrun⟩ := (multFxp_floor hs 3 1 2).2 _ 2 rfl
  obtain ⟨xs, ys, b', hx, hy, -, -, hb', hreg, -⟩ := hrun b hb
  cases h1.symm.trans hx
  cases h2.symm.trans hy
  exact ⟨hs, hb, _, before, ws, b', rfl, hws, hb', hreg.trans (by decide)⟩

end PimAsm
