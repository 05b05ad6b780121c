import PimAsm.Number.Shortest
import PimAsm.Text

namespace PimAsm

/-- A way to write numbers. `positional` holds the positions of the decimal point that are written without an
exponent; `whole` ends a positional text without a fraction; `plus` stands before an exponent without a minus. -/
structure Layout where
  positional : Int → Bool
  whole : String
  plus : String
  tieUp : Bool

namespace Layout

def plain : Layout := ⟨fun _ => true, "", "", true⟩

def listing : Layout := ⟨fun k => -3 ≤ k && k ≤ 16, ".0", "", true⟩

def json : Layout := ⟨fun k => -4 ≤ k && k ≤ 16, ".0", "+", false⟩

def zeros (n : Int) : List Char := List.replicate n.toNat '0'

def positionalText (l : Layout) (d : Shortest.Decimal) : String :=
  let n : Int := d.digits.length
  if d.point ≤ 0 then "0." ++ String.ofList (zeros (-d.point) ++ d.digits)
  else if n ≤ d.point then String.ofList (d.digits ++ zeros (d.point - n)) ++ l.whole
  else String.ofList (d.digits.take d.point.toNat) ++ "." ++ String.ofList (d.digits.drop d.point.toNat)

def exponentText (l : Layout) (d : Shortest.Decimal) : String :=
  let rest := d.digits.drop 1
  String.ofList (d.digits.take 1) ++ (if rest.isEmpty then "" else "." ++ String.ofList rest)
    ++ "e" ++ (if 1 ≤ d.point then l.plus else "") ++ Numeral.signed (d.point - 1)

def text (l : Layout) : Double → String
  | .nan => "NaN"
  | .infinite negative => if negative then "-inf" else "inf"
  | .finite negative x =>
    let magnitude :=
      if x.mant = 0 then "0" ++ l.whole
      else
        let d := Shortest.decimal l.tieUp x
        if l.positional d.point then l.positionalText d else l.exponentText d
    if negative then "-" ++ magnitude else magnitude

end Layout

end PimAsm
