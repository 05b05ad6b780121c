import PimAsm.Gemv.Limits
import PimAsm.Gemv.Op

namespace PimAsm.Gemv

def byte (n : Nat) : BitVec 8 := BitVec.ofNat 8 n

namespace Limits

variable (p : Limits)

def alu (fn : AluFn) (rd rs1 rs2 : Nat) : Outcome Op := do
  p.checkRegs [rd, rs1, rs2]
  return .alu fn (byte rd) (byte rs1) (byte rs2)

def add (rd rs1 rs2 : Nat) : Outcome Op := p.alu .add rd rs1 rs2

def sub (rd rs1 rs2 : Nat) : Outcome Op := p.alu .sub rd rs1 rs2

/-- The product takes two registers, and neither factor may be one of them. -/
def checkProduct (pp multiplicand multiplier : Nat) : Outcome Unit := do
  p.checkReg pp
  p.checkRegs [pp + 1, multiplicand, multiplier]
  Outcome.require (multiplicand ≠ pp ∧ multiplicand ≠ pp + 1) (.overlap .multiplicand pp (pp + 1))
  Outcome.require (multiplier ≠ pp ∧ multiplier ≠ pp + 1) (.overlap .multiplier pp (pp + 1))

def updatePp (pp multiplicand multiplier bit : Nat) : Outcome Op := do
  p.checkProduct pp multiplicand multiplier
  p.checkOffset bit
  return .updatePp (byte bit) (byte pp) (byte multiplicand) (byte multiplier)

def accumBlk (fold rd rs : Nat) : Outcome Op := do
  p.checkFold fold
  p.checkRegs [rd, rs]
  return .accumBlk (byte fold) (byte rd) (byte rs)

def accumRow (level reg : Nat) : Outcome Op := do
  p.checkLevel level
  p.checkReg reg
  return .accumRow (byte level) (byte reg)

def selectBlock (rowId colId : Nat) : Outcome Op := do
  p.checkId .rowId rowId
  p.checkId .colId colId
  return .select .block (byte rowId) (byte colId)

def selectRow (rowId : Nat) : Outcome Op := do
  p.checkId .rowId rowId
  return .select .row (byte rowId) 0

def selectCol (colId : Nat) : Outcome Op := do
  p.checkId .colId colId
  return .select .col 0 (byte colId)

def movOffset (offset rd rs : Nat) : Outcome Op := do
  p.checkOffset offset
  p.checkRegs [rd, rs]
  return .movOffset (byte offset) (byte rd) (byte rs)

def mov (rd rs : Nat) : Outcome Op := p.movOffset 0 rd rs

def write (addr data : Nat) : Outcome Op := do
  p.checkAddr addr
  p.checkData data
  return .write (BitVec.ofNat 16 addr) (BitVec.ofNat 16 data)

end Limits

def selectAll : Op := .select .all 0 0

end PimAsm.Gemv
