import PimAsm.Gemv.Macro
import PimAsm.Vv.Macro
import PimAsm.Word

namespace PimAsm

inductive Body
  | gemv (op : Gemv.Op)
  | vv (op : Vv.Op)
  | gemvMacro (mac : Gemv.Macro) (expansion : List Gemv.Op)
  | vvMacro (mac : Vv.Macro) (expansion : List Vv.Op)
  | comment
  deriving DecidableEq, Repr

namespace Body

def engine? : Body → Option Engine
  | .gemv _ => some .gemv
  | .gemvMacro .. => some .gemv
  | .vv _ => some .vv
  | .vvMacro .. => some .vv
  | .comment => none

def expansionSize? : Body → Option Nat
  | .gemvMacro _ ops => some ops.length
  | .vvMacro _ ops => some ops.length
  | _ => none

def encode : Body → Outcome (List SubWord)
  | .gemv op => do return [← op.encode]
  | .vv op => do return [← op.encode]
  | .gemvMacro _ ops => ops.mapM Gemv.Op.encode
  | .vvMacro _ ops => ops.mapM Vv.Op.encode
  | .comment => .ok []

end Body

structure Record where
  body : Body
  source : String
  comment : Option String
  /-- Nothing until the program is encoded. -/
  code : Option (List SubWord) := none
  deriving DecidableEq, Repr

namespace Record

def segments (r : Record) : List (List Segment) :=
  match r.body.engine?, r.code with
  | some e, some ws => ws.map (·.fullSegments e)
  | _, _ => []

def words (r : Record) : List Word :=
  match r.body.engine?, r.code with
  | some e, some ws => ws.map (·.word e)
  | _, _ => []

end Record

end PimAsm
