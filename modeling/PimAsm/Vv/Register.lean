import PimAsm.Fault
import PimAsm.Text

namespace PimAsm.Vv

inductive Register
  | ordinary (r : BitVec 8)
  | shift
  | output
  | activation
  deriving DecidableEq, Repr

namespace Register

def text : Register → String
  | .ordinary r => Numeral.decimal r.toNat
  | .shift => "S"
  | .output => "O"
  | .activation => "ACT"

/-- Reads a special name, in capitals or not, or a number below 256, with white space around it. -/
def read (s : String) : Outcome Register :=
  let cs := Text.trim s.toList
  match String.ofList cs with
  | "S" | "s" => .ok .shift
  | "O" | "o" => .ok .output
  | "ACT" | "act" => .ok .activation
  | name =>
    match Numeral.plussed? 10 cs with
    | some n =>
      if n < 256 then .ok (.ordinary (BitVec.ofNat 8 n))
      else Outcome.fail (.combination ("unknown register '" ++ name ++ "'"))
    | none => Outcome.fail (.combination ("unknown register '" ++ name ++ "'"))

end Register

end PimAsm.Vv
