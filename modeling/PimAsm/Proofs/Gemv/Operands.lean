import Mathlib
import PimAsm.Gemv.Mnemonic
import PimAsm.Proofs.Config
import PimAsm.Proofs.Gemv.Encoding

namespace PimAsm.Gemv

lemma toNat_byte {n : ℕ} (h : n < 256) : (byte n).toNat = n := by simp [byte, Nat.mod_eq_of_lt h]

lemma toNat_of_byte_eq {n : ℕ} {x : BitVec 8} (hn : n < 256) (h : byte n = x) : x.toNat = n := by
  rw [← h, toNat_byte hn]

lemma byte_toNat (x : BitVec 8) : byte x.toNat = x := by rw [byte, BitVec.ofNat_toNat, BitVec.setWidth_eq]

lemma byte_lt {r n : ℕ} (hn : n ≤ 64) (h : r < n) : (byte r).toNat < n := by rwa [toNat_byte (by omega)]

namespace Op

/-- Every register that an instruction reads or writes is below `n`, and the other operands keep their limits. A
move without a shift has no use for the register after its source. -/
def Within (p : Limits) (n : ℕ) : Op → Prop
  | .nop | .select .. | .clrMbit => True
  | .write addr _ => addr.toNat < 1024
  | .alu _ rd rs1 rs2 => rd.toNat < n ∧ rs1.toNat < n ∧ rs2.toNat < n
  | .updatePp offset pp multiplicand multiplier =>
    offset.toNat < 16 ∧ pp.toNat + 1 < n ∧ multiplicand.toNat < n ∧ multiplier.toNat < n
  | .accumBlk fold rd rs => (1 ≤ fold.toNat ∧ fold.toNat ≤ p.maxFold) ∧ rd.toNat < n ∧ rs.toNat < n
  | .accumRow level reg => level.toNat ≤ p.maxLevel ∧ reg.toNat < n
  | .movOffset offset rd rs =>
    offset.toNat < 16 ∧ rd.toNat < n ∧ rs.toNat < n ∧ (offset.toNat = 0 ∨ rs.toNat + 1 < n)

variable {p : Limits} {op : Op} {n : ℕ}

lemma Within.mono {m : ℕ} (h : op.Within p n) (hm : n ≤ m) : op.Within p m := by
  cases op with
  | nop | select | clrMbit | write => exact h
  | alu | updatePp | accumBlk | accumRow | movOffset =>
    simp only [Within] at *
    omega

lemma Within.fits (hp : p.Valid) (h : op.Within p n) (hn : n ≤ 64) : op.Fits := by
  have hf := hp.maxFold_le
  have hl := hp.maxLevel_le
  cases op with
  | nop | select | clrMbit | write => exact h
  | alu | updatePp | accumBlk | accumRow | movOffset =>
    simp only [Within, Fits] at *
    omega

end Op

namespace Limits

variable {p : Limits} {op : Op}

lemma checkReg_eq_ok {reg : ℕ} {u : Unit} : p.checkReg reg = .ok u ↔ reg < p.regCnt := by simp [checkReg]

lemma checkRegs_pair_eq_ok {rd rs : ℕ} {u : Unit} :
    p.checkRegs [rd, rs] = .ok u ↔ rd < p.regCnt ∧ rs < p.regCnt := by
  simp [checkRegs, checkReg]

lemma checkRegs_triple_eq_ok {rd rs1 rs2 : ℕ} {u : Unit} :
    p.checkRegs [rd, rs1, rs2] = .ok u ↔ rd < p.regCnt ∧ rs1 < p.regCnt ∧ rs2 < p.regCnt := by
  simp [checkRegs, checkReg]

lemma checkOffset_eq_ok {offset : ℕ} {u : Unit} : p.checkOffset offset = .ok u ↔ offset < p.regWidth := by
  by_cases h : offset < p.regWidth
  · simp [checkOffset, h]
  · by_cases h0 : p.regWidth = 0 <;> simp [checkOffset, h, h0, Outcome.trap]

lemma checkId_eq_ok {what : Quantity} {id : ℕ} {u : Unit} :
    p.checkId what id = .ok u ↔ p.idWidth < 32 ∧ id < 2 ^ p.idWidth := by
  simp [checkId, Nat.shiftLeft_eq]

lemma checkProduct_eq_ok {pp m q : ℕ} {u : Unit} :
    p.checkProduct pp m q = .ok u ↔ pp + 1 < p.regCnt ∧ m < p.regCnt ∧ q < p.regCnt ∧
      m ≠ pp ∧ m ≠ pp + 1 ∧ q ≠ pp ∧ q ≠ pp + 1 := by
  simp [checkProduct, checkRegs, checkReg]
  omega

section

open Outcome

lemma checkRegs_ne_trap (p : Limits) (regs : List ℕ) : p.checkRegs regs ≠ Outcome.trap := by
  induction regs with
  | nil => exact ok_ne_trap
  | cons r regs ih => exact bind_ne_trap require_ne_trap fun _ => ih

lemma checkProduct_ne_trap (p : Limits) (pp m q : ℕ) : p.checkProduct pp m q ≠ Outcome.trap :=
  bind_ne_trap require_ne_trap fun _ => bind_ne_trap (p.checkRegs_ne_trap _) fun _ =>
    bind_ne_trap require_ne_trap fun _ => require_ne_trap

lemma Valid.checkOffset_ne_trap (hp : p.Valid) (offset : ℕ) : p.checkOffset offset ≠ Outcome.trap := by
  by_cases h : offset < 16
  · simpa [checkOffset, hp.regWidth, h] using ok_ne_trap
  · simpa [checkOffset, hp.regWidth, h] using fail_ne_trap

lemma Valid.checkId_ne_trap (hp : p.Valid) (what : Quantity) (id : ℕ) : p.checkId what id ≠ Outcome.trap := by
  rw [checkId, within, if_pos (hp.idWidth_le.trans_lt (by decide))]
  exact require_ne_trap

end

lemma alu_eq_ok {fn : AluFn} {rd rs1 rs2 : ℕ} : p.alu fn rd rs1 rs2 = .ok op ↔
    (rd < p.regCnt ∧ rs1 < p.regCnt ∧ rs2 < p.regCnt) ∧ op = .alu fn (byte rd) (byte rs1) (byte rs2) := by
  simp [alu, checkRegs_triple_eq_ok, and_assoc, eq_comm (b := op)]

lemma updatePp_eq_ok {pp m q bit : ℕ} : p.updatePp pp m q bit = .ok op ↔
    (p.checkProduct pp m q = .ok () ∧ bit < p.regWidth) ∧ op = .updatePp (byte bit) (byte pp) (byte m) (byte q) := by
  simp [updatePp, checkOffset_eq_ok, checkProduct_eq_ok, and_assoc, eq_comm (b := op)]

lemma accumBlk_eq_ok {fold rd rs : ℕ} : p.accumBlk fold rd rs = .ok op ↔
    ((1 ≤ fold ∧ fold ≤ p.maxFold) ∧ rd < p.regCnt ∧ rs < p.regCnt) ∧
      op = .accumBlk (byte fold) (byte rd) (byte rs) := by
  simp [accumBlk, checkFold, checkRegs, checkReg, and_assoc, eq_comm (b := op)]

lemma accumRow_eq_ok {level reg : ℕ} : p.accumRow level reg = .ok op ↔
    (level ≤ p.maxLevel ∧ reg < p.regCnt) ∧ op = .accumRow (byte level) (byte reg) := by
  simp [accumRow, checkLevel, checkReg, and_assoc, eq_comm (b := op)]

lemma selectBlock_eq_ok {row col : ℕ} : p.selectBlock row col = .ok op ↔
    (p.checkId .rowId row = .ok () ∧ p.checkId .colId col = .ok ()) ∧ op = .select .block (byte row) (byte col) := by
  simp [selectBlock, checkId_eq_ok, and_assoc, eq_comm (b := op)]

lemma selectRow_eq_ok {row : ℕ} : p.selectRow row = .ok op ↔
    p.checkId .rowId row = .ok () ∧ op = .select .row (byte row) 0 := by
  simp [selectRow, checkId_eq_ok, and_assoc, eq_comm (b := op)]

lemma selectCol_eq_ok {col : ℕ} : p.selectCol col = .ok op ↔
    p.checkId .colId col = .ok () ∧ op = .select .col 0 (byte col) := by
  simp [selectCol, checkId_eq_ok, and_assoc, eq_comm (b := op)]

lemma movOffset_eq_ok {offset rd rs : ℕ} : p.movOffset offset rd rs = .ok op ↔
    (offset < p.regWidth ∧ rd < p.regCnt ∧ rs < p.regCnt) ∧ op = .movOffset (byte offset) (byte rd) (byte rs) := by
  simp [movOffset, checkOffset_eq_ok, checkRegs, checkReg, and_assoc, eq_comm (b := op)]

lemma write_eq_ok {addr data : ℕ} : p.write addr data = .ok op ↔
    (addr < 1024 ∧ data < 65536) ∧ op = .write (BitVec.ofNat 16 addr) (BitVec.ofNat 16 data) := by
  simp [write, checkAddr, checkData, and_assoc, eq_comm (b := op)]

lemma Valid.regs_le (hp : p.Valid) : p.regCnt ≤ 64 := hp.regCnt_le.trans (by decide)

lemma Valid.reg_lt (hp : p.Valid) {r : ℕ} (h : r < p.regCnt) : r < 64 := h.trans_le hp.regs_le

lemma Valid.ids_le (hp : p.Valid) : 2 ^ p.idWidth ≤ 256 := Nat.pow_le_pow_right two_pos hp.idWidth_le

lemma Valid.regAddr_eq (hp : p.Valid) {reg bit : ℕ} (hr : reg ≤ 256) (hb : bit < 16) :
    p.regAddr reg bit = .ok (16 * reg + bit) := by
  have hc : countLimit = 4294967296 := rfl
  rw [regAddr, hp.regWidth, Nat.mul_comm, checkedCount, if_pos (by omega)]

/-- The registers below which a move stays: a shift also takes bits of the register after the source, which no check
asks about. -/
def moveReach (p : Limits) (offset rs : ℕ) : ℕ := if offset = 0 ∨ rs + 1 < p.regCnt then p.regCnt else p.regCnt + 1

lemma moveReach_le (p : Limits) (offset rs : ℕ) : p.moveReach offset rs ≤ p.regCnt + 1 := by
  rw [moveReach]
  split_ifs <;> omega

end Limits

end PimAsm.Gemv
