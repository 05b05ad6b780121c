import Mathlib
import PimAsm.Proofs.Config
import PimAsm.Proofs.Vv.Encoding
import PimAsm.Vv.Macro

namespace PimAsm.Vv

namespace Limits

variable {p : Limits} {op : Op}

lemma actLookup_eq_ok {code : ℕ} : p.actLookup code = .ok op ↔
    (1 ≤ code ∧ code ≤ p.actCount ∧ code ≤ 3) ∧ op = .actLookup (BitVec.ofNat 8 code) := by
  simp [actLookup, checkTable, and_assoc, eq_comm (b := op)]

lemma write_eq_ok {addr : ℕ} {data : ℤ} : p.write addr data = .ok op ↔
    (addr < 1024 ∧ -32768 ≤ data ∧ data ≤ 32767) ∧ op = .write (BitVec.ofNat 16 addr) (BitVec.ofInt 16 data) := by
  simp [write, checkAddr, checkData, and_assoc, eq_comm (b := op)]

section

open Outcome

variable {r : ℕ}

lemma Valid.reg_eq_ok (hp : p.Valid) {b : BitVec 8} : p.reg r = .ok b ↔ r < p.regCnt ∧ b = BitVec.ofNat 8 r := by
  have hr := hp.regCnt_le
  simp only [reg, checkReg, bind_eq_ok, require_eq_ok, exists_const, pure_eq, Except.ok.injEq, eq_comm (b := b)]
  constructor
  · rintro ⟨h, -, hb⟩
    exact ⟨h, hb⟩
  · rintro ⟨h, hb⟩
    exact ⟨h, by omega, hb⟩

lemma Valid.toNat_reg (hp : p.Valid) {b : BitVec 8} (h : p.reg r = .ok b) : b.toNat = r := by
  obtain ⟨hr, rfl⟩ := hp.reg_eq_ok.mp h
  exact Nat.mod_eq_of_lt (hr.trans_le hp.regCnt_le)

lemma Valid.toNat_ofReg (hp : p.Valid) (f : BitVec 8 → Op) (h : (do return f (← p.reg r)) = .ok op) :
    ∃ b : BitVec 8, b.toNat = r ∧ op = f b := by
  obtain ⟨b, hb, hop⟩ := bind_eq_ok.mp h
  cases hop
  exact ⟨b, hp.toNat_reg hb, rfl⟩

lemma Valid.toNat_xy (hp : p.Valid) {fn : ArithFn} {rx ry : ℕ} (h : p.xy fn rx ry = .ok op) :
    ∃ x y : BitVec 8, x.toNat = rx ∧ y.toNat = ry ∧ op = .xy fn x y := by
  obtain ⟨x, hx, hop⟩ := bind_eq_ok.mp h
  obtain ⟨y, hy, rfl⟩ := hp.toNat_ofReg (.xy fn x) hop
  exact ⟨x, y, hp.toNat_reg hx, hy, rfl⟩

lemma Valid.selectBlk_eq_ok (hp : p.Valid) {id : ℕ} : p.selectBlk id = .ok op ↔
    id < 2 ^ p.idWidth ∧ op = .selectBlk (BitVec.ofNat 8 id) := by
  have hi : p.idWidth < 32 := hp.idWidth_le.trans_lt (by decide)
  simp [selectBlk, checkId, hi, Nat.shiftLeft_eq, eq_comm (b := op)]

lemma reg_ne_trap (p : Limits) (r : ℕ) : p.reg r ≠ Outcome.trap :=
  bind_ne_trap require_ne_trap fun _ => bind_ne_trap require_ne_trap fun _ => ok_ne_trap

lemma ofReg_ne_trap (p : Limits) (r : ℕ) (f : BitVec 8 → Op) : (do return f (← p.reg r)) ≠ Outcome.trap :=
  bind_ne_trap (p.reg_ne_trap r) fun _ => ok_ne_trap

lemma xy_ne_trap (p : Limits) (fn : ArithFn) (rx ry : ℕ) : p.xy fn rx ry ≠ Outcome.trap :=
  bind_ne_trap (p.reg_ne_trap rx) fun _ => p.ofReg_ne_trap ry _

lemma mov_ne_trap (p : Limits) (rd rs : Register) : p.mov rd rs ≠ Outcome.trap := by
  cases rd with
  | shift | activation =>
    cases rs with
    | ordinary => exact p.ofReg_ne_trap _ _
    | output => exact ok_ne_trap
    | shift | activation => exact fail_ne_trap
  | output =>
    cases rs with
    | ordinary => exact p.ofReg_ne_trap _ _
    | shift | output | activation => exact fail_ne_trap
  | ordinary =>
    cases rs with
    | shift | output => exact p.ofReg_ne_trap _ _
    | ordinary | activation => exact fail_ne_trap

lemma arith_ne_trap (p : Limits) (fn : ArithFn) (opl opr : Register) : p.arith fn opl opr ≠ Outcome.trap := by
  cases opl with
  | ordinary =>
    cases opr with
    | ordinary => exact p.xy_ne_trap _ _ _
    | shift => exact p.ofReg_ne_trap _ _
    | output | activation => exact fail_ne_trap
  | shift | output | activation => exact fail_ne_trap

lemma Valid.checkId_ne_trap (hp : p.Valid) (id : ℕ) : p.checkId id ≠ Outcome.trap := by
  rw [checkId, within, if_pos (hp.idWidth_le.trans_lt (by decide))]
  exact require_ne_trap

end

end Limits

variable {p : Limits} {reg : ℕ}

lemma regAddr_eq_ok {a : BitVec 16} : regAddr p reg = .ok a ↔ reg < 65536 ∧ a = BitVec.ofNat 16 reg := by
  simp only [regAddr, Outcome.bind_eq_ok, Outcome.require_eq_ok, exists_const, Outcome.pure_eq, Except.ok.injEq,
    eq_comm (b := a)]
  rfl

lemma storeElement_eq_ok {addr : BitVec 16} {id : ℕ} {v : ℤ} {ops : List Op} :
    storeElement p addr id v = .ok ops ↔
      (p.checkId id = .ok () ∧ p.checkData v = .ok () ∧ id < 256) ∧
        ops = [.selectBlk (BitVec.ofNat 8 id), .write addr (BitVec.ofInt 16 v)] := by
  simp only [storeElement, Outcome.bind_eq_ok, Outcome.require_eq_ok, exists_const, Outcome.pure_eq, Except.ok.injEq]
  constructor
  · rintro ⟨_, hi, _, hd, hl, rfl⟩
    exact ⟨⟨hi, hd, hl⟩, rfl⟩
  · rintro ⟨⟨hi, hd, hl⟩, rfl⟩
    exact ⟨(), hi, (), hd, hl, rfl⟩

lemma Macro.expand_fits {m : Macro} {ops : List Op} (h : m.expand p = .ok ops)
    (hr : ∀ r v, m = .clearReg r ∨ m = .loadVec r v → r < 256) : ∀ op ∈ ops, op.Fits := by
  cases m with
  | sync =>
    cases h
    simp [Op.Fits]
  | clearReg reg =>
    have hl := hr reg [] (Or.inl rfl)
    simp only [expand, Outcome.bind_eq_ok, regAddr_eq_ok, Outcome.pure_eq, Except.ok.injEq] at h
    obtain ⟨_, ⟨_, rfl⟩, rfl⟩ := h
    simp [Op.Fits]
    omega
  | loadVec reg v =>
    have hl := hr reg v (Or.inr rfl)
    simp only [expand, Outcome.bind_eq_ok, regAddr_eq_ok, Outcome.pure_eq, Except.ok.injEq] at h
    obtain ⟨_, ⟨_, rfl⟩, parts, hm, rfl⟩ := h
    intro op ho
    obtain ⟨part, hp, ho⟩ := List.mem_flatten.mp ho
    obtain ⟨e, _, he⟩ := Outcome.mem_of_mapM hm hp
    obtain ⟨_, rfl⟩ := storeElement_eq_ok.mp he
    simp only [List.mem_cons, List.not_mem_nil, or_false] at ho
    rcases ho with rfl | rfl
    · trivial
    · simp [Op.Fits]
      omega

end PimAsm.Vv
