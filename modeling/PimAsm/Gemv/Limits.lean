import PimAsm.Fault

namespace PimAsm.Gemv

structure Limits where
  regCnt : Nat := 16
  regWidth : Nat := 16
  maxLevel : Nat := 3
  maxFold : Nat := 4
  idWidth : Nat := 8
  peCount : Nat := 16
  pimDepth : Nat := 1024
  deriving DecidableEq, Repr

namespace Limits

open Outcome

def checkReg (p : Limits) (reg : Nat) : Outcome Unit := require (reg < p.regCnt) (.register .gemv reg p.regCnt)

def checkRegs (p : Limits) (regs : List Nat) : Outcome Unit := regs.forM p.checkReg

def checkLevel (p : Limits) (level : Nat) : Outcome Unit :=
  require (level ≤ p.maxLevel) (.range .level level 0 p.maxLevel)

def checkFold (p : Limits) (fold : Nat) : Outcome Unit :=
  require (1 ≤ fold ∧ fold ≤ p.maxFold) (.range .fold fold 1 p.maxFold)

/-- A bit position inside a register. Registers without bits have no greatest position to report. -/
def checkOffset (p : Limits) (offset : Nat) : Outcome Unit :=
  if offset < p.regWidth then .ok ()
  else if p.regWidth = 0 then trap
  else fail (.range .offset offset 0 (p.regWidth - 1 : Nat))

def checkId (p : Limits) (what : Quantity) (id : Nat) : Outcome Unit := do
  within (p.idWidth < 32)
  require (id < 1 <<< p.idWidth) (.range what id 0 (1 <<< p.idWidth - 1 : Nat))

def checkAddr (_ : Limits) (addr : Nat) : Outcome Unit := require (addr < 1024) (.range .address addr 0 1023)

/-- The data of a write is a row of bits, so it has no sign. -/
def checkData (_ : Limits) (data : Nat) : Outcome Unit := require (data < 65536) (.range .data data 0 65535)

def regAddr (p : Limits) (reg bit : Nat) : Outcome Nat := checkedCount (reg * p.regWidth + bit)

end Limits

end PimAsm.Gemv
