import Mathlib
import PimAsm.Proofs.Vv.Operands

/-! A load of a vector after a clear leaves its elements in the blocks, one in each, and nothing else changes. The
elements that are zero are neither written nor checked, so a vector may be longer than there are blocks. -/

namespace PimAsm.Vv

/-- The blocks of the engine: which of them are selected, and what each holds at its addresses. -/
structure Blocks (n : ℕ) where
  selected : Fin n → Bool
  memory : Fin n → ℕ → BitVec 16

namespace Blocks

variable {n : ℕ} {b b' b'' : Blocks n} {reg : ℕ}

/-- What selections and writes do to the blocks. The other instructions use registers that are no part of them. -/
def exec (b : Blocks n) : Op → Option (Blocks n)
  | .selectAll => some { b with selected := fun _ => true }
  | .selectBlk id => some { b with selected := fun i => i.val = id.toNat }
  | .write addr data =>
    some { b with memory := fun i a => if b.selected i ∧ a = addr.toNat then data else b.memory i a }
  | _ => none

def run (b : Blocks n) (ops : List Op) : Option (Blocks n) := ops.foldlM exec b

lemma run_append (b : Blocks n) (xs ys : List Op) : b.run (xs ++ ys) = (b.run xs).bind (·.run ys) :=
  List.foldlM_append

/-- From `b` to `b'` each block `i` takes `f i` at address `reg`, and keeps the rest. -/
structure Stored (reg : ℕ) (f : Fin n → BitVec 16) (b b' : Blocks n) : Prop where
  value : ∀ i, b'.memory i reg = f i
  frame : ∀ i a, a ≠ reg → b'.memory i a = b.memory i a

lemma Stored.trans {f g : Fin n → BitVec 16} (h : Stored reg f b b') (h' : Stored reg g b' b'') :
    Stored reg g b b'' :=
  ⟨h'.value, fun i a ha => (h'.frame i a ha).trans (h.frame i a ha)⟩

lemma run_select_write (select : Op) {selected : Fin n → Bool} (hs : b.exec select = some { b with selected })
    (hr : reg < 65536) (data : BitVec 16) :
    ∃ b', b.run [select, .write (BitVec.ofNat 16 reg) data] = some b' ∧
      Stored reg (fun i => if selected i then data else b.memory i reg) b b' := by
  have hw : b.run [select, .write (BitVec.ofNat 16 reg) data] =
      Blocks.exec { b with selected } (.write (BitVec.ofNat 16 reg) data) := by
    simp [run, hs]
  refine ⟨_, hw, fun i => ?_, fun i a ha => ?_⟩
  · simp [Nat.mod_eq_of_lt hr]
  · simp [Nat.mod_eq_of_lt hr, ha]

end Blocks

lemma Limits.Valid.checkId_eq_ok {p : Limits} (hp : p.Valid) {id : ℕ} : p.checkId id = .ok () ↔ id < 2 ^ p.idWidth := by
  simp [Limits.checkId, hp.idWidth_le.trans_lt (by decide : 8 < 32), Nat.shiftLeft_eq]

namespace Macro

def writeOps (reg k : ℕ) (x : ℤ) : List Op :=
  [.selectBlk (BitVec.ofNat 8 k), .write (BitVec.ofNat 16 reg) (BitVec.ofInt 16 x)]

def loadOps (reg k : ℕ) (v : List ℤ) : List Op :=
  ((v.zipIdx k).filter fun e => e.1 ≠ 0).flatMap fun e => writeOps reg e.2 e.1

variable {p : Limits} {reg k : ℕ} {v : List ℤ}

lemma loadOps_cons (x : ℤ) :
    loadOps reg k (x :: v) = (if x = 0 then [] else writeOps reg k x) ++ loadOps reg (k + 1) v := by
  by_cases hx : x = 0 <;> simp [loadOps, hx]

lemma expand_clearReg (hr : reg < 65536) :
    (clearReg reg).expand p = .ok [.selectAll, .write (BitVec.ofNat 16 reg) 0] := by
  rw [expand, regAddr_eq_ok.mpr ⟨hr, rfl⟩]
  rfl

section

variable (hp : p.Valid) (hr : reg < 65536) (hv : ∀ x ∈ v, -2 ^ 15 ≤ x ∧ x ≤ 2 ^ 15 - 1)
include hp hr hv

end

end Macro

namespace Blocks

variable {n : ℕ} {b : Blocks n} {reg : ℕ}

lemma run_clear (b : Blocks n) (hr : reg < 65536) :
    ∃ b', b.run [.selectAll, .write (BitVec.ofNat 16 reg) 0] = some b' ∧ Stored reg (fun _ => 0) b b' := by
  obtain ⟨b', hb, hs⟩ := run_select_write (b := b) .selectAll rfl hr 0
  exact ⟨b', hb, by simpa using hs⟩

-- the block of a skipped element holds zero already
lemma run_element (hr : reg < 65536) {k : ℕ} {x : ℤ} (hclear : ∀ i : Fin n, i = k → b.memory i reg = 0)
    (hk : x ≠ 0 → k < 256) :
    ∃ b', b.run (if x = 0 then [] else Macro.writeOps reg k x) = some b' ∧
      Stored reg (fun i => if i = k then BitVec.ofInt 16 x else b.memory i reg) b b' := by
  by_cases hx : x = 0
  · refine ⟨b, by rw [if_pos hx]; rfl, fun i => ?_, fun _ _ _ => rfl⟩
    split_ifs with h
    · rw [hclear i h, hx]
      rfl
    · rfl
  · obtain ⟨b', hb, hs⟩ := run_select_write (b := b) (.selectBlk (BitVec.ofNat 8 k)) rfl hr (BitVec.ofInt 16 x)
    refine ⟨b', by rwa [if_neg hx], ?_⟩
    simpa [Nat.mod_eq_of_lt (hk hx)] using hs

lemma run_load (hr : reg < 65536) {v : List ℤ} {k : ℕ} (hclear : ∀ i : Fin n, k ≤ i → b.memory i reg = 0)
    (hi : ∀ j, v.getD j 0 ≠ 0 → k + j < 256) :
    ∃ b', b.run (Macro.loadOps reg k v) = some b' ∧
      Stored reg (fun i => if i < k then b.memory i reg else BitVec.ofInt 16 (v.getD (i - k) 0)) b b' := by
  induction v generalizing k b with
  | nil =>
    refine ⟨b, rfl, fun i => ?_, fun _ _ _ => rfl⟩
    split_ifs with h
    · rfl
    · simpa using hclear i (not_lt.mp h)
  | cons x v ih =>
    obtain ⟨b1, h1, hs1⟩ := run_element hr (fun i h => hclear i h.ge) (x := x) (hi 0)
    have hclear1 : ∀ i : Fin n, k + 1 ≤ i → b1.memory i reg = 0 := by
      intro i h
      rw [hs1.value, if_neg (by omega), hclear i (by omega)]
    obtain ⟨b2, h2, hs2⟩ := ih hclear1 fun j hj => by
      have := hi (j + 1) (by simpa using hj)
      omega
    refine ⟨b2, by rw [Macro.loadOps_cons, run_append, h1, Option.bind_some, h2], ?_⟩
    convert hs1.trans hs2 using 2 with i
    rcases lt_trichotomy i.val k with h | h | h
    · rw [if_pos h, if_pos (by omega), hs1.value, if_neg h.ne]
    · rw [if_neg h.not_lt, if_pos (by omega), hs1.value, if_pos h, h, Nat.sub_self, List.getD_cons_zero]
    · obtain ⟨j, hj⟩ := Nat.exists_eq_add_of_lt h
      rw [if_neg (by omega), if_neg (by omega), show i - k = j + 1 by omega, show i - (k + 1) = j by omega,
        List.getD_cons_succ]

end Blocks

end PimAsm.Vv
