import PimAsm.Fault

/-! Bit planes. A block keeps a register of all its processing elements as rows: row `b` holds bit `b` of every
element, element `p` at bit `p` of the row. -/

namespace PimAsm

abbrev Row := BitVec 16

namespace Plane

/-- The bit vector with the bits `f 0`, `f 1`, … from the least significant one. -/
def ofBits : (width : Nat) → (Nat → Bool) → BitVec width
  | 0, _ => 0#0
  | width + 1, f => (ofBits width f).cons (f width)

@[simp] theorem getLsbD_ofBits (width : Nat) (f : Nat → Bool) (i : Nat) :
    (ofBits width f).getLsbD i = (decide (i < width) && f i) := by
  induction width with
  | zero => simp [ofBits]
  | succ width ih =>
    rw [ofBits, BitVec.getLsbD_cons]
    by_cases h : i = width
    · simp [h]
    · have : i < width + 1 ↔ i < width := by omega
      simp [h, ih, this]

def rowWidth : Nat := 16

def bitOf (v : Int) (bit : Nat) : Bool := (BitVec.ofInt 32 v).getLsbD bit

def rows (regWidth : Nat) (values : List Int) : List Row :=
  (List.range regWidth).map fun bit => ofBits rowWidth fun pe => bitOf (values.getD pe 0) bit

def block (peCount regWidth : Nat) (values : List Int) : Outcome (List Row) := do
  Outcome.require (values.length ≤ peCount ∧ peCount ≤ rowWidth) (.shape .block values.length peCount)
  Outcome.within (regWidth ≤ 32 ∨ values = [])
  return rows regWidth values

def chunks {α : Type} (size : Nat) (xs : List α) : List (List α) :=
  (List.range ((xs.length + size - 1) / size)).map fun c => (xs.drop (c * size)).take size

def rowVector (peCount regWidth : Nat) (values : List Int) : Outcome (List (List Row)) :=
  (chunks (max peCount 1) values).mapM (block peCount regWidth)

/-- The blocks of a vector laid out along the blocks, each value in every element of its block. -/
def columnVector (peCount regWidth : Nat) (values : List Int) : Outcome (List (List Row)) :=
  values.mapM fun v => do
    Outcome.require (peCount ≤ rowWidth) (.shape .block peCount peCount)
    block peCount regWidth (List.replicate peCount v)

def matrix (peCount regWidth : Nat) (mat : List (List Int)) : Outcome (List (List (List Row))) :=
  mat.mapM (rowVector peCount regWidth)

end Plane

end PimAsm
