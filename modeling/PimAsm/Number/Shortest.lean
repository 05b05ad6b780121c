import PimAsm.Number.Double

/-! The shortest decimal of a double: the fewest digits that round back to it, and of those the nearest. -/

namespace PimAsm.Shortest

/-- A decimal `0.d₁d₂… * 10 ^ point` with the digits of `digits`. -/
structure Decimal where
  digits : List Char
  point : Int
  deriving DecidableEq, Repr

def scale (num den : Nat) (k : Int) : Nat × Nat :=
  if 0 ≤ k then (num * Nat.pow 10 k.toNat, den) else (num, den * Nat.pow 10 (-k).toNat)

/-- The least `k` with `num / den < 10 ^ k`, for a positive ratio. -/
def decimalOrder (num den : Nat) : Int :=
  let guess := ((num.log2 : Int) - den.log2) * 30103 / 100000
  let below (k : Int) : Bool :=
    let (n, d) := scale num den (-k)
    n < d
  ([guess - 1, guess, guess + 1, guess + 2].find? below).getD (guess + 3)

def significant (n : Nat) : List Char :=
  ((Nat.toDigits 10 n).reverse.dropWhile (· == '0')).reverse

/-- The set of ratios that round to a magnitude, in quarters of its unit in the last place: from `low` to `high`
around `4 * mant`, ends included when the mantissa is even. -/
structure Interval where
  low : Nat
  high : Nat
  closed : Bool

def interval (x : Magnitude) : Interval where
  low := if x.mant = 4503599627370496 ∧ Precision.double.least < x.exp then 4 * x.mant - 1 else 4 * x.mant - 2
  high := 4 * x.mant + 2
  closed := x.mant % 2 = 0

def rounds (x : Magnitude) (c : Nat) (k : Int) : Bool :=
  let i := interval x
  let quarter : Magnitude := ⟨1, x.exp - 2⟩
  let (n, d) := quarter.ratio
  let (cn, cd) := scale c 1 (-k)
  let value := cn * d
  let lower := i.low * n * cd
  let upper := i.high * n * cd
  if i.closed then lower ≤ value && value ≤ upper else lower < value && value < upper

def candidate? (tieUp : Bool) (x : Magnitude) (order : Int) (n : Nat) : Option Nat :=
  let (num, den) := x.ratio
  let k := n - order
  let (a, b) := scale num den k
  let lo := a / b
  let r := a % b
  let up := if 2 * r = b then tieUp || lo % 2 = 1 else b < 2 * r
  match rounds x lo k, rounds x (lo + 1) k with
  | true, true => some (if up then lo + 1 else lo)
  | true, false => some lo
  | false, true => some (lo + 1)
  | false, false => none

/-- The shortest decimal of a positive magnitude. A tie between two shortest decimals goes up, or to the even
digit. -/
def decimal (tieUp : Bool) (x : Magnitude) : Decimal :=
  let (num, den) := x.ratio
  let order := decimalOrder num den
  let found := (List.range' 1 17).findSome? fun n => (candidate? tieUp x order n).map fun c => (n, c)
  let (n, c) := found.getD (17, 0)
  ⟨significant c, order + (Nat.toDigits 10 c).length - n⟩

end PimAsm.Shortest
