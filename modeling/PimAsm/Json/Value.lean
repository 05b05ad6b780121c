import PimAsm.Number.Double

/-! JSON values. Integers and reals are kept apart, since a count is never written with a point or an exponent.
Objects keep their fields in written order, repeated keys included. -/

namespace PimAsm

inductive Json
  | null
  | bool (b : Bool)
  | int (n : Int)
  | real (x : Double)
  | text (s : String)
  | list (items : List Json)
  | object (fields : List (String × Json))
  /-- Written by the rules, but naming no value: a number beyond every double, or half of a surrogate pair. -/
  | unreadable

namespace Json

def fits : (depth : Nat) → Json → Bool
  | _, .unreadable => false
  | 0, .list _ => false
  | 0, .object _ => false
  | depth + 1, .list items => items.all (fits depth)
  | depth + 1, .object fields => fields.all fun f => fits depth f.2
  | _, _ => true

def depthLimit : Nat := 127

def int? (least bound : Int) : Json → Option Int
  | .int n => if least ≤ n ∧ n < bound then some n else none
  | _ => none

def nat? (bound : Nat) : Json → Option Nat
  | .int n => if 0 ≤ n ∧ n < bound then some n.toNat else none
  | _ => none

def double? : Json → Option Double
  | .int n => some (Double.ofInt n)
  | .real x => some x
  | _ => none

def text? : Json → Option String
  | .text s => some s
  | _ => none

def bool? : Json → Option Bool
  | .bool b => some b
  | _ => none

def list? : Json → Option (List Json)
  | .list items => some items
  | _ => none

def listOf? {α : Type} (f : Json → Option α) (j : Json) : Option (List α) := do (← j.list?).mapM f

def optional? {α : Type} (f : Json → Option α) : Json → Option (Option α)
  | .null => some none
  | j => (f j).map some

def valuesOf (key : String) (fields : List (String × Json)) : List Json :=
  (fields.filter fun f => f.1 = key).map Prod.snd

def one? (key : String) (fields : List (String × Json)) : Option Json :=
  match valuesOf key fields with
  | [j] => some j
  | _ => none

def atMostOne? (key : String) (fields : List (String × Json)) : Option (Option Json) :=
  match valuesOf key fields with
  | [] => some none
  | [j] => some (some j)
  | _ => none

def fieldOr? {α : Type} (default : α) (f : Json → Option α) (key : String) (fields : List (String × Json)) :
    Option α := do
  match ← atMostOne? key fields with
  | none => some default
  | some j => f j

def field? {α : Type} (f : Json → Option α) (key : String) (fields : List (String × Json)) : Option α := do
  f (← one? key fields)

/-- A variant: its name alone, or an object with the name as its only key and the fields as its value. -/
def variant? : Json → Option (String × Json)
  | .text name => some (name, .null)
  | .object [(name, body)] => some (name, body)
  | _ => none

def name? (j : Json) : Option String :=
  match j.variant? with
  | some (name, .null) => some name
  | _ => none

def bits? (w : Nat) (j : Json) : Option (BitVec w) := (j.nat? (1 <<< w)).map (BitVec.ofNat w)

def ofNat (n : Nat) : Json := .int n

def ofBits {w : Nat} (v : BitVec w) : Json := .int v.toNat

def ofVariant (name : String) (fields : List (String × Json)) : Json := .object [(name, .object fields)]

def ofNatOption (n : Option Nat) : Json := n.elim .null ofNat

def ofText (s : String) : Json := .text s

end Json

end PimAsm
