import PimAsm.Fault

namespace PimAsm.Vv

structure Limits where
  regCnt : Nat := 256
  regWidth : Nat := 16
  idWidth : Nat := 8
  actCount : Nat := 3
  deriving DecidableEq, Repr

namespace Limits

open Outcome

def checkReg (p : Limits) (reg : Nat) : Outcome Unit := require (reg < p.regCnt) (.register .vv reg p.regCnt)

def checkId (p : Limits) (id : Nat) : Outcome Unit := do
  within (p.idWidth < 32)
  require (id < 1 <<< p.idWidth) (.range .blockId id 0 (1 <<< p.idWidth - 1 : Nat))

def checkAddr (_ : Limits) (addr : Nat) : Outcome Unit := require (addr < 1024) (.range .address addr 0 1023)

def checkData (_ : Limits) (data : Int) : Outcome Unit :=
  require (-32768 ≤ data ∧ data ≤ 32767) (.range .data data (-32768) 32767)

/-- A table of an activation function; code zero needs none. -/
def checkTable (p : Limits) (code : Nat) : Outcome Unit :=
  require (1 ≤ code ∧ code ≤ min p.actCount 3) (.range .activation code 1 (min p.actCount 3 : Nat))

def regAddr (_ : Limits) (reg : Nat) : Nat := reg

end Limits

end PimAsm.Vv
