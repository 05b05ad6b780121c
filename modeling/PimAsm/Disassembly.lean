import PimAsm.Gemv.Json
import PimAsm.Vv.Json
import PimAsm.Word

namespace PimAsm

def Instr.toJson : Instr → Json
  | .gemv op => .object [("Gemv", op.toJson)]
  | .vv op => .object [("Vv", op.toJson)]

namespace Disassembly

structure Line where
  index : Nat
  word : Word
  instr : Instr
  deriving DecidableEq, Repr

def linesFrom (index : Nat) : List Word → Except (Nat × Halt) (List Line)
  | [] => .ok []
  | w :: ws =>
    match w.decode with
    | .error h => .error (index, h)
    | .ok instr => (linesFrom (index + 1) ws).map (⟨index, w, instr⟩ :: ·)

def lines (ws : List Word) : Except (Nat × Halt) (List Line) := linesFrom 0 ws

namespace Line

def text (l : Line) : String :=
  String.ofList (List.leftpad 5 ' ' (Numeral.decimal l.index).toList) ++ ": 0x" ++ Numeral.hexLower 8 l.word.toNat
    ++ "  " ++ l.instr.text ++ "\n"

def toJson (l : Line) : Json :=
  .object [("index", .ofNat l.index), ("word", .ofBits l.word), ("op", l.instr.toJson), ("text", .text l.instr.text)]

end Line

end Disassembly

end PimAsm
