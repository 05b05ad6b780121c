/-! Binary floating-point numbers as exact values. A finite number is a sign and a magnitude `mant * 2 ^ exp`;
rounding takes an exact ratio of naturals to the nearest magnitude of a precision, ties to the even mantissa.
Nothing here is approximate: every operation rounds one exact ratio once. -/

namespace PimAsm

structure Magnitude where
  mant : Nat
  exp : Int
  deriving DecidableEq, Repr

/-- A floating-point precision: mantissas below `2 ^ digits`, exponents from `least` to `greatest`. -/
structure Precision where
  digits : Nat
  least : Int
  greatest : Int
  deriving DecidableEq, Repr

inductive Double
  | finite (negative : Bool) (size : Magnitude)
  | infinite (negative : Bool)
  | nan
  deriving DecidableEq, Repr

def roundDiv (num den : Nat) : Nat :=
  let q := num / den
  let r := num % den
  if 2 * r < den then q else if den < 2 * r then q + 1 else q + q % 2

namespace Magnitude

def ratio (x : Magnitude) : Nat × Nat :=
  if 0 ≤ x.exp then (x.mant <<< x.exp.toNat, 1) else (x.mant, 1 <<< (-x.exp).toNat)

def scaledFloor (x : Magnitude) (shift : Nat) : Nat :=
  let e := x.exp + shift
  if 0 ≤ e then x.mant <<< e.toNat else x.mant >>> (-e).toNat

end Magnitude

namespace Precision

def double : Precision := ⟨53, -1074, 971⟩

def single : Precision := ⟨24, -149, 104⟩

/-- The exponent `t` with `2 ^ t ≤ num / den < 2 ^ (t + 1)`, for positive arguments. -/
def binaryOrder (num den : Nat) : Int :=
  let t := (num.log2 : Int) - den.log2
  let reached := if 0 ≤ t then den <<< t.toNat ≤ num else den ≤ num <<< (-t).toNat
  if reached then t else t - 1

/-- The magnitude nearest to `num / den`, or nothing when it is beyond the greatest one. Zero and the smallest
magnitudes share the least exponent; every other mantissa has all its digits. -/
def round (p : Precision) (num den : Nat) : Option Magnitude :=
  if num = 0 then some ⟨0, p.least⟩
  else
    let e := max (binaryOrder num den - (p.digits - 1)) p.least
    let m := if 0 ≤ e then roundDiv num (den <<< e.toNat) else roundDiv (num <<< (-e).toNat) den
    let x : Magnitude := if m = 1 <<< p.digits then ⟨1 <<< (p.digits - 1), e + 1⟩ else ⟨m, e⟩
    if p.greatest < x.exp then none else some x

def nearest (p : Precision) (negative : Bool) (num den : Nat) : Double :=
  match p.round num den with
  | some x => .finite negative x
  | none => .infinite negative

end Precision

namespace Double

def zero : Double := .finite false ⟨0, Precision.double.least⟩

def ofInt (n : Int) : Double := Precision.double.nearest (n < 0) n.natAbs 1

def ofScaled (n : Int) (shift : Nat) : Double := Precision.double.nearest (n < 0) n.natAbs (1 <<< shift)

/-- The same value with the mantissa and exponent of a double; exact when the value is one. -/
def widen : Double → Double
  | .finite negative x => Precision.double.nearest negative x.ratio.1 x.ratio.2
  | x => x

end Double

namespace Magnitude

def mul (x y : Magnitude) : Option Magnitude :=
  let (a, b) := x.ratio
  let (c, d) := y.ratio
  Precision.double.round (a * c) (b * d)

def div (x y : Magnitude) : Option Magnitude :=
  let (a, b) := x.ratio
  let (c, d) := y.ratio
  Precision.double.round (a * d) (b * c)

end Magnitude

end PimAsm
