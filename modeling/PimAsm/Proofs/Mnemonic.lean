import Mathlib
import PimAsm.Proofs.Gemv.Operands
import PimAsm.Proofs.Vv.Operands

/-! The checked constructors as a whole. A mnemonic builds an instruction exactly when its operands, which may be any
numbers, are inside their limits. The fields of the instruction are then those numbers, and they can be encoded. -/

namespace PimAsm

namespace Gemv

inductive Mnemonic
  | add (rd rs1 rs2 : ℕ)
  | sub (rd rs1 rs2 : ℕ)
  | updatePp (pp multiplicand multiplier bit : ℕ)
  | accumBlk (fold rd rs : ℕ)
  | accumRow (level reg : ℕ)
  | selectBlock (row col : ℕ)
  | selectRow (row : ℕ)
  | selectCol (col : ℕ)
  | movOffset (offset rd rs : ℕ)
  | mov (rd rs : ℕ)
  | write (addr data : ℕ)

namespace Mnemonic

open Outcome

def build (p : Limits) : Mnemonic → Outcome Op
  | .add rd rs1 rs2 => p.add rd rs1 rs2
  | .sub rd rs1 rs2 => p.sub rd rs1 rs2
  | .updatePp pp multiplicand multiplier bit => p.updatePp pp multiplicand multiplier bit
  | .accumBlk fold rd rs => p.accumBlk fold rd rs
  | .accumRow level reg => p.accumRow level reg
  | .selectBlock row col => p.selectBlock row col
  | .selectRow row => p.selectRow row
  | .selectCol col => p.selectCol col
  | .movOffset offset rd rs => p.movOffset offset rd rs
  | .mov rd rs => p.mov rd rs
  | .write addr data => p.write addr data

def InLimits (p : Limits) : Mnemonic → Prop
  | .add rd rs1 rs2 | .sub rd rs1 rs2 => rd < p.regCnt ∧ rs1 < p.regCnt ∧ rs2 < p.regCnt
  | .updatePp pp m q bit =>
    (pp + 1 < p.regCnt ∧ m < p.regCnt ∧ q < p.regCnt) ∧ (m ≠ pp ∧ m ≠ pp + 1 ∧ q ≠ pp ∧ q ≠ pp + 1) ∧ bit < 16
  | .accumBlk fold rd rs => (1 ≤ fold ∧ fold ≤ p.maxFold) ∧ rd < p.regCnt ∧ rs < p.regCnt
  | .accumRow level reg => level ≤ p.maxLevel ∧ reg < p.regCnt
  | .selectBlock row col => row < 2 ^ p.idWidth ∧ col < 2 ^ p.idWidth
  | .selectRow id | .selectCol id => id < 2 ^ p.idWidth
  | .movOffset offset rd rs => offset < 16 ∧ rd < p.regCnt ∧ rs < p.regCnt
  | .mov rd rs => rd < p.regCnt ∧ rs < p.regCnt
  | .write addr data => addr < 1024 ∧ data < 2 ^ 16

inductive Denotes : Mnemonic → Op → Prop
  | add (d x y : BitVec 8) : Denotes (.add d.toNat x.toNat y.toNat) (.alu .add d x y)
  | sub (d x y : BitVec 8) : Denotes (.sub d.toNat x.toNat y.toNat) (.alu .sub d x y)
  | updatePp (pp m q bit : BitVec 8) :
    Denotes (.updatePp pp.toNat m.toNat q.toNat bit.toNat) (.updatePp bit pp m q)
  | accumBlk (fold d s : BitVec 8) : Denotes (.accumBlk fold.toNat d.toNat s.toNat) (.accumBlk fold d s)
  | accumRow (level reg : BitVec 8) : Denotes (.accumRow level.toNat reg.toNat) (.accumRow level reg)
  | selectBlock (row col : BitVec 8) : Denotes (.selectBlock row.toNat col.toNat) (.select .block row col)
  | selectRow (row : BitVec 8) : Denotes (.selectRow row.toNat) (.select .row row 0)
  | selectCol (col : BitVec 8) : Denotes (.selectCol col.toNat) (.select .col 0 col)
  | movOffset (k d s : BitVec 8) : Denotes (.movOffset k.toNat d.toNat s.toNat) (.movOffset k d s)
  | mov (d s : BitVec 8) : Denotes (.mov d.toNat s.toNat) (.movOffset 0 d s)
  | write (addr data : BitVec 16) : Denotes (.write addr.toNat data.toNat) (.write addr data)

variable {p : Limits} {m : Mnemonic} {op : Op}

lemma exists_build_iff (hp : p.Valid) (m : Mnemonic) : (∃ op, m.build p = .ok op) ↔ m.InLimits p := by
  have hw := hp.regWidth
  have hi : p.idWidth < 32 := hp.idWidth_le.trans_lt (by decide)
  cases m with
  | add | sub => simp [build, InLimits, Limits.add, Limits.sub, Limits.alu_eq_ok]
  | updatePp => simp [build, InLimits, Limits.updatePp_eq_ok, Limits.checkProduct_eq_ok, hw, and_assoc]
  | accumBlk => simp [build, InLimits, Limits.accumBlk_eq_ok]
  | accumRow => simp [build, InLimits, Limits.accumRow_eq_ok]
  | selectBlock => simp [build, InLimits, Limits.selectBlock_eq_ok, Limits.checkId_eq_ok, hi]
  | selectRow => simp [build, InLimits, Limits.selectRow_eq_ok, Limits.checkId_eq_ok, hi]
  | selectCol => simp [build, InLimits, Limits.selectCol_eq_ok, Limits.checkId_eq_ok, hi]
  | movOffset => simp [build, InLimits, Limits.movOffset_eq_ok, hw]
  | mov => simp [build, InLimits, Limits.mov, Limits.movOffset_eq_ok, hw]
  | write => simp [build, InLimits, Limits.write_eq_ok]

lemma denotes_of_build (hp : p.Valid) (h : m.build p = .ok op) : m.Denotes op := by
  have hr := hp.regCnt_le
  have hf := hp.maxFold_le
  have hl := hp.maxLevel_le
  have hw := hp.regWidth
  have hi := hp.ids_le
  cases m with
  | add rd rs1 rs2 =>
    obtain ⟨hin, rfl⟩ := Limits.alu_eq_ok.mp h
    simpa (disch := omega) only [toNat_byte] using Denotes.add (byte rd) (byte rs1) (byte rs2)
  | sub rd rs1 rs2 =>
    obtain ⟨hin, rfl⟩ := Limits.alu_eq_ok.mp h
    simpa (disch := omega) only [toNat_byte] using Denotes.sub (byte rd) (byte rs1) (byte rs2)
  | updatePp pp m q bit =>
    obtain ⟨⟨hc, hb⟩, rfl⟩ := Limits.updatePp_eq_ok.mp h
    have hin := Limits.checkProduct_eq_ok.mp hc
    simpa (disch := omega) only [toNat_byte] using Denotes.updatePp (byte pp) (byte m) (byte q) (byte bit)
  | accumBlk fold rd rs =>
    obtain ⟨hin, rfl⟩ := Limits.accumBlk_eq_ok.mp h
    simpa (disch := omega) only [toNat_byte] using Denotes.accumBlk (byte fold) (byte rd) (byte rs)
  | accumRow level reg =>
    obtain ⟨hin, rfl⟩ := Limits.accumRow_eq_ok.mp h
    simpa (disch := omega) only [toNat_byte] using Denotes.accumRow (byte level) (byte reg)
  | selectBlock row col =>
    obtain ⟨⟨hrow, hcol⟩, rfl⟩ := Limits.selectBlock_eq_ok.mp h
    have := Limits.checkId_eq_ok.mp hrow
    have := Limits.checkId_eq_ok.mp hcol
    simpa (disch := omega) only [toNat_byte] using Denotes.selectBlock (byte row) (byte col)
  | selectRow row =>
    obtain ⟨hrow, rfl⟩ := Limits.selectRow_eq_ok.mp h
    have := Limits.checkId_eq_ok.mp hrow
    simpa (disch := omega) only [toNat_byte] using Denotes.selectRow (byte row)
  | selectCol col =>
    obtain ⟨hcol, rfl⟩ := Limits.selectCol_eq_ok.mp h
    have := Limits.checkId_eq_ok.mp hcol
    simpa (disch := omega) only [toNat_byte] using Denotes.selectCol (byte col)
  | movOffset offset rd rs =>
    obtain ⟨hin, rfl⟩ := Limits.movOffset_eq_ok.mp h
    simpa (disch := omega) only [toNat_byte] using Denotes.movOffset (byte offset) (byte rd) (byte rs)
  | mov rd rs =>
    obtain ⟨hin, rfl⟩ := Limits.movOffset_eq_ok.mp h
    change Denotes _ (.movOffset 0 (byte rd) (byte rs))
    simpa (disch := omega) only [toNat_byte] using Denotes.mov (byte rd) (byte rs)
  | write addr data =>
    obtain ⟨⟨ha, hd⟩, rfl⟩ := Limits.write_eq_ok.mp h
    have hword {n : ℕ} (hn : n < 65536) : (BitVec.ofNat 16 n).toNat = n := Nat.mod_eq_of_lt hn
    simpa (disch := omega) only [hword] using Denotes.write (BitVec.ofNat 16 addr) (BitVec.ofNat 16 data)

def reach (p : Limits) : Mnemonic → ℕ
  | .movOffset offset _ rs => p.moveReach offset rs
  | _ => p.regCnt

lemma Denotes.within (hd : m.Denotes op) (hin : m.InLimits p) : op.Within p (m.reach p) := by
  cases hd with
  | add | sub | updatePp | accumBlk | accumRow =>
    simp only [InLimits, Op.Within, reach] at hin ⊢
    omega
  | mov => exact ⟨by decide, hin.1, hin.2, .inl rfl⟩
  | movOffset =>
    simp only [InLimits, Op.Within, reach, Limits.moveReach] at hin ⊢
    split_ifs <;> omega
  | write => exact hin.1
  | selectBlock | selectRow | selectCol => trivial

lemma build_within (hp : p.Valid) (h : m.build p = .ok op) : op.Within p (m.reach p) :=
  (denotes_of_build hp h).within ((exists_build_iff hp m).mp ⟨op, h⟩)

lemma reach_le (p : Limits) (m : Mnemonic) : m.reach p ≤ p.regCnt + 1 := by
  cases m with
  | movOffset offset rd rs => exact p.moveReach_le offset rs
  | _ => exact Nat.le_succ _

lemma build_fits (hp : p.Valid) (h : m.build p = .ok op) : op.Fits := by
  have hr := hp.regCnt_le
  have hm := m.reach_le p
  exact (build_within hp h).fits hp (by omega)

lemma build_ne_trap (hp : p.Valid) (m : Mnemonic) : m.build p ≠ Outcome.trap := by
  have hregs := p.checkRegs_ne_trap
  have hoffset := hp.checkOffset_ne_trap
  have hid := hp.checkId_ne_trap
  cases m with
  | add | sub => exact bind_ne_trap (hregs _) fun _ => ok_ne_trap
  | updatePp =>
    exact bind_ne_trap (p.checkProduct_ne_trap _ _ _) fun _ => bind_ne_trap (hoffset _) fun _ => ok_ne_trap
  | accumBlk => exact bind_ne_trap require_ne_trap fun _ => bind_ne_trap (hregs _) fun _ => ok_ne_trap
  | accumRow => exact bind_ne_trap require_ne_trap fun _ => bind_ne_trap require_ne_trap fun _ => ok_ne_trap
  | selectBlock => exact bind_ne_trap (hid _ _) fun _ => bind_ne_trap (hid _ _) fun _ => ok_ne_trap
  | selectRow | selectCol => exact bind_ne_trap (hid _ _) fun _ => ok_ne_trap
  | movOffset | mov => exact bind_ne_trap (hoffset _) fun _ => bind_ne_trap (hregs _) fun _ => ok_ne_trap
  | write => exact bind_ne_trap require_ne_trap fun _ => bind_ne_trap require_ne_trap fun _ => ok_ne_trap

end Mnemonic

end Gemv

namespace Vv

namespace Register

/-- The register is special or one of the first `n`. -/
def Below (n : ℕ) : Register → Prop
  | .ordinary r => r.toNat < n
  | .shift | .output | .activation => True

/-- There is a move from the second register to the first. -/
def Receives (rd : Register) : Register → Prop
  | .ordinary _ => ∀ r, rd ≠ .ordinary r
  | .shift => ∃ r, rd = .ordinary r
  | .output => rd ≠ .output
  | .activation => False

end Register

/-- A constructor with its operands, or an entry point that picks one from the kinds of its operands. -/
inductive Mnemonic
  | xy (fn : ArithFn) (rx ry : ℕ)
  | xsreg (fn : ArithFn) (rx : ℕ)
  | actLookup (code : ℕ)
  | selectBlk (id : ℕ)
  | movY2Sreg (ry : ℕ)
  | movSreg2R (rd : ℕ)
  | movOreg2R (rd : ℕ)
  | movY2Oreg (ry : ℕ)
  | movX2Act (rx : ℕ)
  | write (addr : ℕ) (data : ℤ)
  | mov (rd rs : Register)
  | arith (fn : ArithFn) (opl opr : Register)
  | activation (code : ℕ)

namespace Mnemonic

open Outcome

def build (p : Limits) : Mnemonic → Outcome Op
  | .xy fn rx ry => p.xy fn rx ry
  | .xsreg fn rx => p.xsreg fn rx
  | .actLookup code => p.actLookup code
  | .selectBlk id => p.selectBlk id
  | .movY2Sreg ry => p.movY2Sreg ry
  | .movSreg2R rd => p.movSreg2R rd
  | .movOreg2R rd => p.movOreg2R rd
  | .movY2Oreg ry => p.movY2Oreg ry
  | .movX2Act rx => p.movX2Act rx
  | .write addr data => p.write addr data
  | .mov rd rs => p.mov rd rs
  | .arith fn opl opr => p.arith fn opl opr
  | .activation code => p.activation code

def InLimits (p : Limits) : Mnemonic → Prop
  | .xy _ rx ry => rx < p.regCnt ∧ ry < p.regCnt
  | .xsreg _ r | .movY2Sreg r | .movSreg2R r | .movOreg2R r | .movY2Oreg r | .movX2Act r => r < p.regCnt
  | .actLookup code => 1 ≤ code ∧ code ≤ min p.actCount 3
  | .selectBlk id => id < 2 ^ p.idWidth
  | .write addr data => addr < 1024 ∧ -2 ^ 15 ≤ data ∧ data ≤ 2 ^ 15 - 1
  | .mov rd rs => rd.Receives rs ∧ rd.Below p.regCnt ∧ rs.Below p.regCnt
  | .arith _ opl opr =>
    ((∃ x, opl = .ordinary x) ∧ (opr = .shift ∨ ∃ y, opr = .ordinary y)) ∧ opl.Below p.regCnt ∧ opr.Below p.regCnt
  -- code zero is the rectifier, which has no table
  | .activation code => code ≤ min p.actCount 3

inductive Denotes : Mnemonic → Op → Prop
  | xy (fn : ArithFn) (x y : BitVec 8) : Denotes (.xy fn x.toNat y.toNat) (.xy fn x y)
  | xsreg (fn : ArithFn) (x : BitVec 8) : Denotes (.xsreg fn x.toNat) (.xsreg fn x)
  | actLookup (table : BitVec 8) : Denotes (.actLookup table.toNat) (.actLookup table)
  | selectBlk (id : BitVec 8) : Denotes (.selectBlk id.toNat) (.selectBlk id)
  | movY2Sreg (y : BitVec 8) : Denotes (.movY2Sreg y.toNat) (.movY2Sreg y)
  | movSreg2R (d : BitVec 8) : Denotes (.movSreg2R d.toNat) (.movSreg2R d)
  | movOreg2R (d : BitVec 8) : Denotes (.movOreg2R d.toNat) (.movOreg2R d)
  | movY2Oreg (y : BitVec 8) : Denotes (.movY2Oreg y.toNat) (.movY2Oreg y)
  | movX2Act (x : BitVec 8) : Denotes (.movX2Act x.toNat) (.movX2Act x)
  | write (addr data : BitVec 16) : Denotes (.write addr.toNat data.toInt) (.write addr data)
  | outputToShift : Denotes (.mov .shift .output) .movO2Sreg
  | toShift (r : BitVec 8) : Denotes (.mov .shift (.ordinary r)) (.movY2Sreg r)
  | ofShift (r : BitVec 8) : Denotes (.mov (.ordinary r) .shift) (.movSreg2R r)
  | ofOutput (r : BitVec 8) : Denotes (.mov (.ordinary r) .output) (.movOreg2R r)
  | toOutput (r : BitVec 8) : Denotes (.mov .output (.ordinary r)) (.movY2Oreg r)
  | outputToActivation : Denotes (.mov .activation .output) .movOreg2Act
  | toActivation (r : BitVec 8) : Denotes (.mov .activation (.ordinary r)) (.movX2Act r)
  | arithXy (fn : ArithFn) (x y : BitVec 8) : Denotes (.arith fn (.ordinary x) (.ordinary y)) (.xy fn x y)
  | arithXsreg (fn : ArithFn) (x : BitVec 8) : Denotes (.arith fn (.ordinary x) .shift) (.xsreg fn x)
  | rectifier : Denotes (.activation 0) .relu
  | table (table : BitVec 8) (h : 0 < table.toNat) : Denotes (.activation table.toNat) (.actLookup table)

variable {p : Limits} {m : Mnemonic} {op : Op}

lemma exists_build_iff (hp : p.Valid) (m : Mnemonic) : (∃ op, m.build p = .ok op) ↔ m.InLimits p := by
  cases m with
  | xy => simp [build, InLimits, Limits.xy, hp.reg_eq_ok]
  | xsreg => simp [build, InLimits, Limits.xsreg, hp.reg_eq_ok]
  | actLookup => simp [build, InLimits, Limits.actLookup_eq_ok]
  | selectBlk => simp [build, InLimits, hp.selectBlk_eq_ok]
  | movY2Sreg => simp [build, InLimits, Limits.movY2Sreg, hp.reg_eq_ok]
  | movSreg2R => simp [build, InLimits, Limits.movSreg2R, hp.reg_eq_ok]
  | movOreg2R => simp [build, InLimits, Limits.movOreg2R, hp.reg_eq_ok]
  | movY2Oreg => simp [build, InLimits, Limits.movY2Oreg, hp.reg_eq_ok]
  | movX2Act => simp [build, InLimits, Limits.movX2Act, hp.reg_eq_ok]
  | write => simp [build, InLimits, Limits.write_eq_ok]
  | mov rd rs =>
    cases rd <;> cases rs <;>
      simp [build, InLimits, Limits.mov, Register.Receives, Register.Below, Limits.movY2Sreg, Limits.movSreg2R,
        Limits.movOreg2R, Limits.movY2Oreg, Limits.movX2Act, hp.reg_eq_ok]
  | arith fn opl opr =>
    cases opl <;> cases opr <;>
      simp [build, InLimits, Limits.arith, Register.Below, Limits.xy, Limits.xsreg, hp.reg_eq_ok]
  | activation code =>
    by_cases h : code = 0
    · simp [build, InLimits, Limits.activation, h]
    · simp only [build, InLimits, Limits.activation, if_neg h, Limits.actLookup_eq_ok, exists_and_left, exists_eq,
        and_true]
      omega

lemma denotes_mov (hp : p.Valid) {rd rs : Register} (h : p.mov rd rs = .ok op) : Denotes (.mov rd rs) op := by
  cases rd with
  | shift =>
    cases rs with
    | output =>
      cases h
      exact .outputToShift
    | ordinary r =>
      obtain ⟨b, hb, rfl⟩ := hp.toNat_ofReg .movY2Sreg h
      exact BitVec.eq_of_toNat_eq hb ▸ .toShift b
    | shift | activation => simp [Limits.mov] at h
  | output =>
    cases rs with
    | ordinary r =>
      obtain ⟨b, hb, rfl⟩ := hp.toNat_ofReg .movY2Oreg h
      exact BitVec.eq_of_toNat_eq hb ▸ .toOutput b
    | shift | output | activation => simp [Limits.mov] at h
  | activation =>
    cases rs with
    | output =>
      cases h
      exact .outputToActivation
    | ordinary r =>
      obtain ⟨b, hb, rfl⟩ := hp.toNat_ofReg .movX2Act h
      exact BitVec.eq_of_toNat_eq hb ▸ .toActivation b
    | shift | activation => simp [Limits.mov] at h
  | ordinary r =>
    cases rs with
    | shift =>
      obtain ⟨b, hb, rfl⟩ := hp.toNat_ofReg .movSreg2R h
      exact BitVec.eq_of_toNat_eq hb ▸ .ofShift b
    | output =>
      obtain ⟨b, hb, rfl⟩ := hp.toNat_ofReg .movOreg2R h
      exact BitVec.eq_of_toNat_eq hb ▸ .ofOutput b
    | ordinary | activation => simp [Limits.mov] at h

lemma denotes_arith (hp : p.Valid) {fn : ArithFn} {opl opr : Register} (h : p.arith fn opl opr = .ok op) :
    Denotes (.arith fn opl opr) op := by
  cases opl with
  | ordinary x =>
    cases opr with
    | ordinary y =>
      obtain ⟨a, b, ha, hb, rfl⟩ := hp.toNat_xy h
      exact BitVec.eq_of_toNat_eq ha ▸ BitVec.eq_of_toNat_eq hb ▸ .arithXy fn a b
    | shift =>
      obtain ⟨a, ha, rfl⟩ := hp.toNat_ofReg (.xsreg fn) h
      exact BitVec.eq_of_toNat_eq ha ▸ .arithXsreg fn a
    | output | activation => simp [Limits.arith] at h
  | shift | output | activation => simp [Limits.arith] at h

lemma denotes_of_build (hp : p.Valid) (h : m.build p = .ok op) : m.Denotes op := by
  have hb {n : ℕ} (hn : n < 256) : (BitVec.ofNat 8 n).toNat = n := Nat.mod_eq_of_lt hn
  cases m with
  | xy fn rx ry =>
    obtain ⟨x, y, rfl, rfl, rfl⟩ := hp.toNat_xy h
    exact .xy fn x y
  | xsreg fn rx =>
    obtain ⟨x, rfl, rfl⟩ := hp.toNat_ofReg (.xsreg fn) h
    exact .xsreg fn x
  | actLookup code =>
    obtain ⟨hin, rfl⟩ := Limits.actLookup_eq_ok.mp h
    simpa (disch := omega) only [hb] using Denotes.actLookup (BitVec.ofNat 8 code)
  | selectBlk id =>
    obtain ⟨hin, rfl⟩ := hp.selectBlk_eq_ok.mp h
    have hi : 2 ^ p.idWidth ≤ 256 := Nat.pow_le_pow_right two_pos hp.idWidth_le
    simpa (disch := omega) only [hb] using Denotes.selectBlk (BitVec.ofNat 8 id)
  | movY2Sreg ry =>
    obtain ⟨b, rfl, rfl⟩ := hp.toNat_ofReg .movY2Sreg h
    exact .movY2Sreg b
  | movSreg2R rd =>
    obtain ⟨b, rfl, rfl⟩ := hp.toNat_ofReg .movSreg2R h
    exact .movSreg2R b
  | movOreg2R rd =>
    obtain ⟨b, rfl, rfl⟩ := hp.toNat_ofReg .movOreg2R h
    exact .movOreg2R b
  | movY2Oreg ry =>
    obtain ⟨b, rfl, rfl⟩ := hp.toNat_ofReg .movY2Oreg h
    exact .movY2Oreg b
  | movX2Act rx =>
    obtain ⟨b, rfl, rfl⟩ := hp.toNat_ofReg .movX2Act h
    exact .movX2Act b
  | write addr data =>
    obtain ⟨⟨ha, hd, hd'⟩, rfl⟩ := Limits.write_eq_ok.mp h
    have hn : (BitVec.ofNat 16 addr).toNat = addr := Nat.mod_eq_of_lt (by omega)
    have hz : (BitVec.ofInt 16 data).toInt = data := BitVec.toInt_ofInt_eq_self (by decide) hd (by omega)
    simpa only [hn, hz] using Denotes.write (BitVec.ofNat 16 addr) (BitVec.ofInt 16 data)
  | mov rd rs => exact denotes_mov hp h
  | arith fn opl opr => exact denotes_arith hp h
  | activation code =>
    by_cases h0 : code = 0
    · subst h0
      cases h
      exact .rectifier
    · simp only [build, Limits.activation, h0, if_false] at h
      obtain ⟨hin, rfl⟩ := Limits.actLookup_eq_ok.mp h
      have ht : (BitVec.ofNat 8 code).toNat = code := hb (by omega)
      simpa only [ht] using Denotes.table (BitVec.ofNat 8 code) (by omega)

lemma Denotes.fits (hd : m.Denotes op) (hin : m.InLimits p) : op.Fits := by
  cases hd with
  | actLookup => exact Nat.lt_succ_of_le (le_min_iff.mp hin.2).2
  | table => exact Nat.lt_succ_of_le (le_min_iff.mp hin).2
  | write => exact hin.1
  | _ => trivial

lemma build_fits (hp : p.Valid) (h : m.build p = .ok op) : op.Fits :=
  (denotes_of_build hp h).fits ((exists_build_iff hp m).mp ⟨op, h⟩)

lemma build_ne_trap (hp : p.Valid) (m : Mnemonic) : m.build p ≠ Outcome.trap := by
  cases m with
  | xy => exact p.xy_ne_trap _ _ _
  | xsreg | movY2Sreg | movSreg2R | movOreg2R | movY2Oreg | movX2Act => exact p.ofReg_ne_trap _ _
  | actLookup => exact bind_ne_trap require_ne_trap fun _ => ok_ne_trap
  | selectBlk => exact bind_ne_trap (hp.checkId_ne_trap _) fun _ => ok_ne_trap
  | write => exact bind_ne_trap require_ne_trap fun _ => bind_ne_trap require_ne_trap fun _ => ok_ne_trap
  | mov => exact p.mov_ne_trap _ _
  | arith => exact p.arith_ne_trap _ _ _
  | activation code =>
    rw [build, Limits.activation]
    split_ifs
    · exact ok_ne_trap
    · exact bind_ne_trap require_ne_trap fun _ => ok_ne_trap

end Mnemonic

end Vv

theorem build_exact {u : Params} {c : Config} (hu : u.validate = .ok c) :
    (∀ m : Gemv.Mnemonic, m.build c.gemv ≠ Outcome.trap ∧ ((∃ op, m.build c.gemv = .ok op) ↔ m.InLimits c.gemv) ∧
      ∀ op, m.build c.gemv = .ok op → m.Denotes op ∧ ∃ w, op.encode = .ok w) ∧
    ∀ m : Vv.Mnemonic, m.build c.vv ≠ Outcome.trap ∧ ((∃ op, m.build c.vv = .ok op) ↔ m.InLimits c.vv) ∧
      ∀ op, m.build c.vv = .ok op → m.Denotes op ∧ ∃ w, op.encode = .ok w := by
  have hc := Params.validate_valid hu
  constructor
  · intro m
    refine ⟨m.build_ne_trap hc.gemv, m.exists_build_iff hc.gemv, fun op h => ?_⟩
    exact ⟨Gemv.Mnemonic.denotes_of_build hc.gemv h, _, Gemv.Op.encode_eq_ok.mpr ⟨Gemv.Mnemonic.build_fits hc.gemv h, rfl⟩⟩
  · intro m
    refine ⟨m.build_ne_trap hc.vv, m.exists_build_iff hc.vv, fun op h => ?_⟩
    exact ⟨Vv.Mnemonic.denotes_of_build hc.vv h, _, Vv.Op.encode_eq_ok.mpr ⟨Vv.Mnemonic.build_fits hc.vv h, rfl⟩⟩

/-- The largest operands are taken as they are, and a register that a byte would cut to the first one is refused. -/
theorem build_exact_extremes :
    let u : Params := { userRegs := 60 }
    let c : Config := { gemv := { regCnt := 60 } }
    let product : Gemv.Mnemonic := .updatePp 58 57 0 15
    let store : Vv.Mnemonic := .write 1023 (-32768)
    u.validate = .ok c ∧ (∃ op w, product.build c.gemv = .ok op ∧ product.Denotes op ∧ op.encode = .ok w) ∧
      (∃ op w, store.build c.vv = .ok op ∧ store.Denotes op ∧ op.encode = .ok w) ∧
      ∀ op, (Gemv.Mnemonic.add 256 1 2).build c.gemv ≠ .ok op := by
  intro u c product store
  have hu : u.validate = .ok c := by decide +kernel
  obtain ⟨hgemv, hvv⟩ := build_exact hu
  obtain ⟨-, hin, hop⟩ := hgemv product
  obtain ⟨op, hb⟩ := hin.mpr ⟨by decide, by decide, by decide⟩
  obtain ⟨hd, w, hw⟩ := hop op hb
  obtain ⟨-, hin', hop'⟩ := hvv store
  obtain ⟨op', hb'⟩ := hin'.mpr ⟨by decide, by decide, by decide⟩
  obtain ⟨hd', w', hw'⟩ := hop' op' hb'
  refine ⟨hu, ⟨op, w, hb, hd, hw⟩, ⟨op', w', hb', hd', hw'⟩, fun op h => ?_⟩
  have hlim : 256 < c.gemv.regCnt := ((hgemv (.add 256 1 2)).2.1.mp ⟨op, h⟩).1
  exact absurd hlim (by decide)

end PimAsm
