import PimAsm.Gemv.Op
import PimAsm.Vv.Op

/-! Words of the accelerator: two bits for the engine and a payload of thirty. -/

namespace PimAsm

abbrev Word := BitVec 32

def Engine.code : Engine → Nat
  | .gemv => 0
  | .vv => 1

inductive Instr
  | gemv (op : Gemv.Op)
  | vv (op : Vv.Op)
  deriving DecidableEq, Repr

namespace Instr

def engine : Instr → Engine
  | .gemv _ => .gemv
  | .vv _ => .vv

def encode : Instr → Outcome SubWord
  | .gemv op => op.encode
  | .vv op => op.encode

def text : Instr → String
  | .gemv op => "MV_" ++ op.text
  | .vv op => "VV_" ++ op.text

end Instr

def SubWord.fullSegments (w : SubWord) (e : Engine) : List Segment := ⟨e.code, 2⟩ :: w.segments

def SubWord.word (w : SubWord) (e : Engine) : Word := BitVec.ofNat 32 (Segment.pack (w.fullSegments e))

namespace Word

def decode (w : Word) : Outcome Instr :=
  let payload := w.toNat % 1073741824
  match w.toNat / 1073741824 with
  | 0 => Instr.gemv <$> Gemv.Op.decode payload
  | 1 => Instr.vv <$> Vv.Op.decode payload
  | _ => Outcome.fail (.decode .combined w.toNat)

end Word

end PimAsm
