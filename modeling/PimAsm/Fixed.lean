import PimAsm.Fault
import PimAsm.Number.Layout

/-! Fixed-point register values: a number times a power of two, cut toward zero. -/

namespace PimAsm.Fixed

def negatives (width : Nat) : Int := (1 <<< (width - 1) : Nat)

/-- The greatest value of a signed register of `width` bits, as the double nearest to it. -/
def greatest (width : Nat) : Int := if width ≤ 54 then negatives width - 1 else negatives width

def clamp (v : Int) : Int := max (-2147483648) (min v 2147483647)

def ofDouble (frac width : Nat) (x : Double) : Outcome Int := do
  Outcome.within (frac < 64 ∧ 1 ≤ width ∧ width < 64)
  let refused : Outcome Int := Outcome.fail (.fixedPoint (Layout.plain.text x) width)
  match x with
  | .finite negative size =>
    let cut : Int := size.scaledFloor frac
    let v := if negative then -cut else cut
    if -negatives width ≤ v ∧ v ≤ greatest width then return clamp v else refused
  | _ => refused

def ofDoubles (frac width : Nat) (xs : List Double) : Outcome (List Int) := xs.mapM (ofDouble frac width)

def toDouble (frac : Nat) (v : Int) : Outcome Double := do
  Outcome.within (frac < 64)
  return Double.ofScaled v frac

end PimAsm.Fixed
