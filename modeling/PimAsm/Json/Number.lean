import PimAsm.Json.Value
import PimAsm.Number.Decimal

/-! Number literals. An integer of at most 64 bits is kept exactly. Any other literal becomes a double in two
roundings: the leading digits that fit 64 bits are taken as they stand, later digits of the fraction are dropped,
and the result is multiplied or divided once by a power of ten that is itself a double. -/

namespace PimAsm.Json

structure Literal where
  negative : Bool
  whole : List Char
  fraction : Option (List Char)
  /-- Sign (`true` when negative) and digits. -/
  exponent : Option (Bool × List Char)

namespace Literal

/-- Takes digits while the number stays below `2 ^ 64`; returns it with the digits left over. -/
def gather (n : Nat) : List Char → Nat × List Char
  | [] => (n, [])
  | d :: ds =>
    let next := 10 * n + (d.toNat - '0'.toNat)
    if next < 18446744073709551616 then gather next ds else (n, d :: ds)

def leading (l : Literal) : Nat × Int :=
  let (n, extra) := gather 0 l.whole
  let fraction := l.fraction.getD []
  let (n, dropped) := gather n fraction
  (n, extra.length - (fraction.length - dropped.length : Int))

def greatestPower : Nat := 308

def powerOfTen (k : Nat) : Magnitude := (Precision.double.round (Nat.pow 10 k) 1).getD ⟨0, 0⟩

/-- `x * 10 ^ e` by at most one multiplication, or by divisions by the greatest power as long as needed. -/
def shifted : (steps : Nat) → Magnitude → Int → Option Magnitude
  | steps, x, e =>
    if e.natAbs ≤ greatestPower then
      if 0 ≤ e then x.mul (powerOfTen e.toNat) else x.div (powerOfTen (-e).toNat)
    else if x.mant = 0 then some x
    else if 0 ≤ e then none
    else
      match steps with
      | 0 => some ⟨0, Precision.double.least⟩
      | steps + 1 => (x.div (powerOfTen greatestPower)).bind fun y => shifted steps y (e + greatestPower)

def real (negative : Bool) (n : Nat) (e : Int) : Json :=
  match (Precision.double.round n 1).bind fun x => shifted (e.natAbs / greatestPower + 1) x e with
  | some x => .real (.finite negative x)
  | none => .unreadable

/-- Exponents above this bound make a nonzero number too large and, when negative, zero. -/
def exponentLimit : Nat := 2147483648

def toJson (l : Literal) : Json :=
  let (n, e) := l.leading
  match l.exponent with
  | some (down, ds) =>
    let size := Decimal.value ds
    if size < exponentLimit then real l.negative n (if down then e - size else e + size)
    else if n = 0 ∨ down then .real (.finite l.negative ⟨0, Precision.double.least⟩)
    else .unreadable
  | none =>
    if l.fraction.isSome ∨ e ≠ 0 then real l.negative n e
    else if ¬l.negative then .int n
    else if n = 0 ∨ 9223372036854775808 < n then real true n 0
    else .int (-(n : Int))

end Literal

end PimAsm.Json
