import PimAsm.Vv.Mnemonic

namespace PimAsm.Vv

inductive Macro
  | sync
  | clearReg (reg : Nat)
  /-- Element `i` goes to register `reg` of block `i`. -/
  | loadVec (reg : Nat) (vector : List Int)
  deriving DecidableEq, Repr

def regAddr (p : Limits) (reg : Nat) : Outcome (BitVec 16) := do
  Outcome.require (p.regAddr reg < 65536) (.field (p.regAddr reg) 10)
  return BitVec.ofNat 16 (p.regAddr reg)

def storeElement (p : Limits) (addr : BitVec 16) (id : Nat) (v : Int) : Outcome (List Op) := do
  p.checkId id
  p.checkData v
  Outcome.require (id < 256) (.field id 8)
  return [.selectBlk (BitVec.ofNat 8 id), .write addr (BitVec.ofInt 16 v)]

namespace Macro

/-- Zero elements of a load are left to the clear before it. -/
def expand (p : Limits) : Macro → Outcome (List Op)
  | .sync => return [.nop]
  | .clearReg reg => do return [.selectAll, .write (← regAddr p reg) 0]
  | .loadVec reg vector => do
    let addr ← regAddr p reg
    let parts ← (vector.zipIdx.filter fun e => e.1 ≠ 0).mapM fun (v, id) => storeElement p addr id v
    return parts.flatten

open Numeral

def text : Macro → String
  | .sync => "VV_SYNC"
  | .clearReg reg => "VV_CLRREG reg=" ++ decimal reg
  | .loadVec _ vector => "VV_LOADVEC Vec(" ++ decimal vector.length ++ ")"

end Macro

end PimAsm.Vv
