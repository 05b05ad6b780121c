import Mathlib
import PimAsm.Proofs.Config

/-! Which parameters are accepted, which are refused, and on which the check itself traps. -/

namespace PimAsm

lemma ceilLog2_le_iff {n k : ℕ} : ceilLog2 n ≤ k ↔ n ≤ 2 ^ k := by
  rw [ceilLog2]
  split_ifs with h
  · exact ⟨fun _ => h.trans Nat.one_le_two_pow, fun _ => Nat.zero_le k⟩
  · rw [Nat.succ_le_iff, Nat.log2_lt (by omega)]
    omega

/-- A check that gives a value where `accept` holds, traps where `overflow` does, and refuses the parameters where
neither does. -/
inductive Settles {α : Type} (accept overflow : Prop) (x : Outcome α) : Prop
  | accepts (a : α) (hx : x = .ok a) (ha : accept) (ho : ¬ overflow)
  | traps (hx : x = Outcome.trap) (ha : ¬ accept) (ho : overflow)
  | refuses (why : ParamFault) (hx : x = Outcome.fail (.params why)) (ha : ¬ accept) (ho : ¬ overflow)

namespace Settles

variable {α β : Type} {accept overflow c : Prop} {x : Outcome α}

lemma bind (hx : Settles c False x) {f : α → Outcome β} (ha : accept → c) (ho : overflow → c)
    (hf : ∀ v, c → Settles accept overflow (f v)) : Settles accept overflow (x >>= f) := by
  cases hx with
  | accepts v hx hc =>
    rw [hx, Outcome.ok_bind]
    exact hf v hc
  | traps hx hc hn => exact hn.elim
  | refuses why hx hc =>
    rw [hx]
    exact .refuses why rfl (mt ha hc) (mt ho hc)

lemma require [Decidable c] (why : ParamFault) : Settles c False (Outcome.require c (.params why)) := by
  by_cases h : c
  · exact .accepts () (by rw [Outcome.require, if_pos h]) h id
  · exact .refuses why (by rw [Outcome.require, if_neg h]) h id

lemma guard [Decidable c] {why : ParamFault} {f : Unit → Outcome β} (ha : accept → c) (ho : overflow → c)
    (hf : c → Settles accept overflow (f ())) :
    Settles accept overflow (Outcome.require c (.params why) >>= f) :=
  (require why).bind ha ho fun _ => hf

lemma map (h : Settles accept overflow x) (f : α → β) : Settles accept overflow (f <$> x) := by
  cases h with
  | accepts v hx ha ho => exact .accepts (f v) (by rw [hx, Outcome.map_ok]) ha ho
  | traps hx ha ho => exact .traps (by rw [hx]; rfl) ha ho
  | refuses why hx ha ho => exact .refuses why (by rw [hx]; rfl) ha ho

lemma exists_ok_iff (h : Settles accept overflow x) : (∃ v, x = .ok v) ↔ accept := by
  cases h with
  | accepts v hx ha => simp [hx, ha]
  | traps hx ha => simp [hx, ha, Outcome.trap]
  | refuses why hx ha => simp [hx, ha]

lemma trap_iff (h : Settles accept overflow x) : x = Outcome.trap ↔ overflow := by
  cases h with
  | accepts v hx ha ho => simp [hx, ho, Outcome.trap]
  | traps hx ha ho => simp [hx, ho]
  | refuses why hx ha ho => simp [hx, ho, Outcome.fail, Outcome.trap]

lemma exists_fail_iff (h : Settles accept overflow x) :
    (∃ why, x = Outcome.fail (.params why)) ↔ ¬ accept ∧ ¬ overflow := by
  cases h with
  | accepts v hx ha ho => simp [hx, ha, Outcome.fail]
  | traps hx ha ho => simp [hx, ho, Outcome.trap, Outcome.fail]
  | refuses why hx ha ho => simp [hx, ha, ho, Outcome.fail]

end Settles

namespace Params

variable {p : Params}

/-- The limits of the parameters, but for the sum of the user and the reserved registers. -/
structure InRange (p : Params) : Prop where
  userRegs : 1 ≤ p.userRegs ∧ p.userRegs ≤ 60
  regWidth : p.regWidth = 16
  idWidth : 1 ≤ p.idWidth ∧ p.idWidth ≤ 8
  maxFold : 1 ≤ p.maxFold ∧ p.maxFold ≤ 63
  maxLevel : p.maxLevel ≤ 26
  blockDim : ∀ rows cols, p.blockDim = some (rows, cols) →
    1 ≤ rows ∧ 1 ≤ cols ∧ 16 * cols < 2 ^ 32 ∧ cols ≤ 2 ^ (p.maxLevel + 1)
  vvRegs : 1 ≤ p.vvRegs ∧ p.vvRegs ≤ 256
  actCount : p.actCount ≤ 3
  fracWidth : p.fracWidth ≤ 16

lemma checkBlockDim_settles (p : Params) (rows cols : ℕ) :
    Settles (1 ≤ rows ∧ 1 ≤ cols ∧ 16 * cols < 2 ^ 32 ∧ cols ≤ 2 ^ (p.maxLevel + 1)) False
      (p.checkBlockDim rows cols) := by
  have hl : countLimit = 2 ^ 32 := rfl
  refine .guard (fun h => ⟨h.1, h.2.1⟩) False.elim fun h1 => ?_
  refine .guard (fun h => by omega) False.elim fun h2 => ?_
  refine .guard (fun h => ceilLog2_le_iff.mpr h.2.2.2) False.elim fun h3 => ?_
  exact .accepts _ rfl ⟨h1.1, h1.2, by omega, ceilLog2_le_iff.mp h3⟩ id

lemma checkReserved_settles (hu : p.userRegs ≤ 60) :
    Settles (p.userRegs + p.reservedRegs ≤ 64) (2 ^ 32 ≤ p.userRegs + p.reservedRegs) (p.checkReserved 64) := by
  have hl : countLimit = 2 ^ 32 := rfl
  by_cases h0 : p.reservedRegs = 0
  · rw [checkReserved, if_pos h0]
    exact .accepts none rfl (by omega) (by omega)
  · rw [checkReserved, if_neg h0, checkedCount]
    split_ifs with hc
    · rw [Outcome.ok_bind]
      exact .guard id (fun h => by omega) fun hs => .accepts _ rfl hs (by omega)
    · exact .traps rfl (by omega) (by omega)

lemma validate_settles (p : Params) : Settles (p.InRange ∧ p.userRegs + p.reservedRegs ≤ 64)
    (p.InRange ∧ 2 ^ 32 ≤ p.userRegs + p.reservedRegs) p.validate := by
  refine .guard (·.1.userRegs) (·.1.userRegs) fun hu => ?_
  refine .guard (·.1.regWidth) (·.1.regWidth) fun hw => ?_
  refine .guard (·.1.idWidth) (·.1.idWidth) fun hi => ?_
  refine .guard (·.1.maxFold) (·.1.maxFold) fun hf => ?_
  refine .guard (·.1.maxLevel) (·.1.maxLevel) fun hl => ?_
  -- what is left to check once the blocks are
  have hrest (hd : ∀ rows cols, p.blockDim = some (rows, cols) →
      1 ≤ rows ∧ 1 ≤ cols ∧ 16 * cols < 2 ^ 32 ∧ cols ≤ 2 ^ (p.maxLevel + 1)) (f : Option Reserved → Config) :
      Settles (p.InRange ∧ p.userRegs + p.reservedRegs ≤ 64)
        (p.InRange ∧ 2 ^ 32 ≤ p.userRegs + p.reservedRegs) (do
          Outcome.require (p.userRegs ≤ 1024 / p.regWidth) (.params (.depth p.userRegs p.regWidth))
          Outcome.require (1 ≤ p.vvRegs ∧ p.vvRegs ≤ 256) (.params (.vvRegs p.vvRegs))
          Outcome.require (p.actCount ≤ 3) (.params (.tables p.actCount))
          Outcome.require (p.fracWidth ≤ p.regWidth) (.params (.fracWidth p.regWidth p.fracWidth))
          return f (← p.checkReserved (1024 / p.regWidth))) := by
    rw [hw]
    refine .guard (fun _ => by omega) (fun _ => by omega) fun _ => ?_
    refine .guard (·.1.vvRegs) (·.1.vvRegs) fun hv => ?_
    refine .guard (·.1.actCount) (·.1.actCount) fun ha => ?_
    refine .guard (·.1.fracWidth) (·.1.fracWidth) fun hx => ?_
    have hin : p.InRange := ⟨hu, hw, hi, hf, hl, hd, hv, ha, hx⟩
    simp only [hin, true_and]
    exact (checkReserved_settles hu.2).map f
  cases hd : p.blockDim with
  | none => exact hrest (by simp [hd]) _
  | some d =>
    obtain ⟨rows, cols⟩ := d
    refine ((p.checkBlockDim_settles rows cols).map some).bind (·.1.blockDim rows cols hd) (·.1.blockDim rows cols hd)
      fun _ hb => hrest ?_ _
    intro r k hrk
    cases hd.symm.trans hrk
    exact hb

theorem validate_exact (p : Params) :
    ((∃ c, p.validate = .ok c) ↔ p.InRange ∧ p.userRegs + p.reservedRegs ≤ 64) ∧
      (p.validate = Outcome.trap ↔ p.InRange ∧ 2 ^ 32 ≤ p.userRegs + p.reservedRegs) ∧
      ((∃ why, p.validate = Outcome.fail (.params why)) ↔
        ¬ (p.InRange ∧ p.userRegs + p.reservedRegs ≤ 64) ∧ ¬ (p.InRange ∧ 2 ^ 32 ≤ p.userRegs + p.reservedRegs)) :=
  ⟨p.validate_settles.exists_ok_iff, p.validate_settles.trap_iff, p.validate_settles.exists_fail_iff⟩

/-- The sum of the registers leaves its range before it is compared with the registers that there are. -/
theorem validate_registers_overflow :
    let p : Params := { reservedRegs := 4294967295 }
    ¬ p.userRegs + p.reservedRegs ≤ 64 ∧ ∀ why, p.validate ≠ Outcome.fail (.params why) := by
  intro p
  have ht : p.validate = Outcome.trap := by decide
  refine ⟨by decide, fun why => ?_⟩
  rw [ht]
  exact nofun

end Params

end PimAsm
