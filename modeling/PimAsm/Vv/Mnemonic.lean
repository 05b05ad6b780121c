import PimAsm.Vv.Limits
import PimAsm.Vv.Op
import PimAsm.Vv.Register

namespace PimAsm.Vv.Limits

variable (p : Limits)

def reg (r : Nat) : Outcome (BitVec 8) := do
  p.checkReg r
  Outcome.require (r < 256) (.register .vv r p.regCnt)
  return BitVec.ofNat 8 r

def xy (fn : ArithFn) (rx ry : Nat) : Outcome Op := do
  let rx ← p.reg rx
  let ry ← p.reg ry
  return .xy fn rx ry

def xsreg (fn : ArithFn) (rx : Nat) : Outcome Op := do return .xsreg fn (← p.reg rx)

def actLookup (code : Nat) : Outcome Op := do
  p.checkTable code
  return .actLookup (BitVec.ofNat 8 code)

def selectBlk (id : Nat) : Outcome Op := do
  p.checkId id
  return .selectBlk (BitVec.ofNat 8 id)

def movY2Sreg (ry : Nat) : Outcome Op := do return .movY2Sreg (← p.reg ry)

def movSreg2R (rd : Nat) : Outcome Op := do return .movSreg2R (← p.reg rd)

def movOreg2R (rd : Nat) : Outcome Op := do return .movOreg2R (← p.reg rd)

def movY2Oreg (ry : Nat) : Outcome Op := do return .movY2Oreg (← p.reg ry)

def movX2Act (rx : Nat) : Outcome Op := do return .movX2Act (← p.reg rx)

def write (addr : Nat) (data : Int) : Outcome Op := do
  p.checkAddr addr
  p.checkData data
  return .write (BitVec.ofNat 16 addr) (BitVec.ofInt 16 data)

def mov (rd rs : Register) : Outcome Op :=
  match rd, rs with
  | .shift, .output => return .movO2Sreg
  | .shift, .ordinary r => p.movY2Sreg r.toNat
  | .ordinary r, .shift => p.movSreg2R r.toNat
  | .ordinary r, .output => p.movOreg2R r.toNat
  | .output, .ordinary r => p.movY2Oreg r.toNat
  | .activation, .output => return .movOreg2Act
  | .activation, .ordinary r => p.movX2Act r.toNat
  | rd, rs => Outcome.fail (.combination ("rd=" ++ rd.text ++ ", rs=" ++ rs.text))

/-- The right operand is an ordinary register or the shift register. -/
def arith (fn : ArithFn) (opl opr : Register) : Outcome Op :=
  match opl, opr with
  | .ordinary x, .ordinary y => p.xy fn x.toNat y.toNat
  | .ordinary x, .shift => p.xsreg fn x.toNat
  | opl, opr => Outcome.fail (.combination (fn.name ++ " opl=" ++ opl.text ++ ", opr=" ++ opr.text))

/-- Code zero is the rectifier, the others are tables. -/
def activation (code : Nat) : Outcome Op := if code = 0 then return .relu else p.actLookup code

end PimAsm.Vv.Limits
