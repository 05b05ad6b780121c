import PimAsm.Bits.Plane
import PimAsm.Gemv.Mnemonic

/-! Macros of the GEMV array and the instructions that they stand for. Loads write only rows with a set bit, so
they rely on a clear before them. -/

namespace PimAsm.Gemv

inductive Macro
  /-- The signed product in `pp`, `pp + 1`. -/
  | mult (pp multiplicand multiplier : Nat)
  /-- The sums of `rs` over the elements of each block, in `rd`. -/
  | blockAccum (rd rs : Nat)
  | sync
  | clearReg (reg : Nat)
  | loadMat (reg : Nat) (matrix : List (List Int))
  | loadVecRow (reg : Nat) (vector : List Int)
  | loadVecCol (reg : Nat) (vector : List Int)
  deriving DecidableEq, Repr

def narrowByte (n width : Nat) : Outcome (BitVec 8) := do
  Outcome.require (n < 256) (.field n width)
  return BitVec.ofNat 8 n

def rowAddr (p : Limits) (reg bit : Nat) : Outcome (BitVec 16) := do
  let addr ← p.regAddr reg bit
  Outcome.require (addr < 65536) (.field addr 10)
  return BitVec.ofNat 16 addr

def blockId (p : Limits) (what : Quantity) (index : Nat) : Outcome (BitVec 8) := do
  p.checkId what index
  narrowByte index 8

/-- Writes of the rows that have a set bit, after `select`; nothing for rows of zeros only. -/
def writeNonzero (p : Limits) (reg : Nat) (select : Op) (image : List Row) : Outcome (List Op) := do
  let writes ← (image.zipIdx.filter fun r => r.1 ≠ 0).mapM fun (row, bit) => do
    return Op.write (← rowAddr p reg bit) row
  return if writes.isEmpty then [] else select :: writes

def loadBlocks (p : Limits) (reg : Nat) (select : Nat → Outcome Op) (images : List (List Row)) :
    Outcome (List Op) := do
  let parts ← images.zipIdx.mapM fun (image, index) => do
    writeNonzero p reg (← select index) image
  return parts.flatten

namespace Macro

def expand (p : Limits) : Macro → Outcome (List Op)
  | .mult pp multiplicand multiplier => do
    let pp ← narrowByte pp 6
    let multiplicand ← narrowByte multiplicand 6
    let multiplier ← narrowByte multiplier 6
    return .clrMbit :: (List.range p.regWidth).map fun bit => .updatePp (byte bit) pp multiplicand multiplier
  | .blockAccum rd rs => do
    let rd ← narrowByte rd 6
    let rs ← narrowByte rs 6
    return .accumBlk 1 rd rs :: (List.range' 2 (p.maxFold - 1)).map fun fold => .accumBlk (byte fold) rd rd
  | .sync => return [.nop, .nop]
  | .clearReg reg => do
    let writes ← Outcome.collect p.regWidth fun bit => do
      return Op.write (← rowAddr p reg bit) 0
    return selectAll :: writes
  | .loadMat reg matrix => do
    let parts ← (← Plane.matrix p.peCount p.regWidth matrix).zipIdx.mapM fun (images, row) =>
      loadBlocks p reg (fun col => do
        return .select .block (← blockId p .rowId row) (← blockId p .colId col)) images
    return parts.flatten
  | .loadVecRow reg vector => do
    let images ← Plane.rowVector p.peCount p.regWidth vector
    loadBlocks p reg (fun col => do return .select .col 0 (← blockId p .colId col)) images
  | .loadVecCol reg vector => do
    let images ← Plane.columnVector p.peCount p.regWidth vector
    loadBlocks p reg (fun row => do return .select .row (← blockId p .rowId row) 0) images

open Numeral

def text : Macro → String
  | .mult pp multiplicand multiplier =>
    "MV_MULT rd=" ++ decimal pp ++ ", multiplicand=" ++ decimal multiplicand ++ ", multiplier="
      ++ decimal multiplier
  | .blockAccum rd rs => "MV_BLOCK_ACCUM rd=" ++ decimal rd ++ ", rs=" ++ decimal rs
  | .sync => "MV_SYNC"
  | .clearReg reg => "MV_CLRREG reg=" ++ decimal reg
  | .loadMat _ matrix =>
    "MV_LOADMAT Mat(" ++ decimal matrix.length ++ ", "
      ++ decimal ((matrix.map List.length).foldl max 0) ++ ")"
  | .loadVecRow _ vector => "MV_LOADVEC_ROW Vec(" ++ decimal vector.length ++ ")"
  | .loadVecCol _ vector => "MV_LOADVEC_COL Vec(" ++ decimal vector.length ++ ")"

end Macro

end PimAsm.Gemv
