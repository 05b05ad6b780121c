import PimAsm.Text
import PimAsm.Word

/-! Memory images: a binary word on each line, underscores between its digits, comments after `//`, blank lines. -/

namespace PimAsm.Image

def codeOf (line : List Char) : List Char := Text.trim (Text.beforeComment line)

/-- The word of a line without blanks and comment. One plus sign may stand for the first digit. -/
def wordOf (code : List Char) : Except ImageFault Word :=
  let bits := code.filter (· ≠ '_')
  if Text.octets bits ≠ 32 then .error (.length (Text.octets bits))
  else
    match Numeral.plussed? 2 bits with
    | some n => .ok (BitVec.ofNat 32 n)
    | none => .error .digit

def readLines : (number : Nat) → List (List Char) → Outcome (List Word)
  | _, [] => .ok []
  | number, line :: rest =>
    let code := codeOf line
    if code.isEmpty then readLines (number + 1) rest
    else
      match wordOf code with
      | .error why => Outcome.fail (.image number why)
      | .ok w => (readLines (number + 1) rest).map (w :: ·)

def read (text : String) : Outcome (List Word) := readLines 1 (Text.lines text.toList)

end PimAsm.Image
