import PimAsm.Number.Double
import PimAsm.Text

namespace PimAsm.Decimal

open Numeral

def digitsOf (cs : List Char) : List Char × List Char := cs.span Char.isDigit

def value (ds : List Char) : Nat := (readDigits? 10 ds).getD 0

def exponent? : List Char → Option Int
  | [] => some 0
  | c :: cs => if c = 'e' ∨ c = 'E' then signed? cs else none

def unsignedParts? (cs : List Char) : Option (Nat × Int) := do
  let (whole, rest) := digitsOf cs
  let (fraction, rest) := match rest with
    | '.' :: rest => digitsOf rest
    | rest => ([], rest)
  if whole.isEmpty && fraction.isEmpty then none
  let e ← exponent? rest
  some (value (whole ++ fraction), e - fraction.length)

/-- The exponent beyond which a numeral of `digits` digits is zero or infinite in every precision. -/
def extreme (n : Nat) : Int := 400 + n.log2

def nearest (p : Precision) (negative : Bool) (n : Nat) (e : Int) : Double :=
  if n = 0 then p.nearest negative 0 1
  else if extreme n < e then .infinite negative
  else if e < -extreme n then p.nearest negative 0 1
  else if 0 ≤ e then p.nearest negative (n * Nat.pow 10 e.toNat) 1
  else p.nearest negative n (Nat.pow 10 (-e).toNat)

/-- Reads a decimal numeral, `inf`, `infinity` or `nan` in any case, after at most one sign. -/
def read? (p : Precision) (text : String) : Option Double :=
  let (negative, body) := match text.toList with
    | '-' :: cs => (true, cs)
    | '+' :: cs => (false, cs)
    | cs => (false, cs)
  let name := String.ofList (body.map Char.toLower)
  if name = "inf" ∨ name = "infinity" then some (.infinite negative)
  else if name = "nan" then some .nan
  else (unsignedParts? body).map fun (n, e) => nearest p negative n e

end PimAsm.Decimal
