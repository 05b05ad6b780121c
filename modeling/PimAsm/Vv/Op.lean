import PimAsm.Bits.Segment
import PimAsm.Text

/-! Instructions of the vector engine. A payload has an operation code of 5 bits, a middle segment of 9 and a low
segment of 16. A write has two operation codes: the last bit of the code is the top bit of its address, whose
other nine bits are the middle segment. -/

namespace PimAsm.Vv

inductive ArithFn
  | add
  | sub
  | mult
  deriving DecidableEq, Repr

def ArithFn.name : ArithFn → String
  | .add => "ADD"
  | .sub => "SUB"
  | .mult => "MULT"

inductive Opcode
  | nop
  | addXy
  | subXy
  | multXy
  | addXsreg
  | subXsreg
  | multXsreg
  | relu
  | actLookup
  | shiftOff
  | serialEn
  | parallelEn
  | selectBlk
  | movO2Sreg
  | movY2Sreg
  | movSreg2R
  | movOreg2R
  | movY2Oreg
  | movOreg2Act
  | movX2Act
  | selectAll
  | write0
  | write1
  deriving DecidableEq, Repr

def Opcode.code : Opcode → Nat
  | .nop => 0
  | .addXy => 1
  | .subXy => 2
  | .multXy => 3
  | .addXsreg => 4
  | .subXsreg => 5
  | .multXsreg => 6
  | .relu => 7
  | .actLookup => 8
  | .shiftOff => 9
  | .serialEn => 10
  | .parallelEn => 11
  | .selectBlk => 12
  | .movO2Sreg => 13
  | .movY2Sreg => 14
  | .movSreg2R => 15
  | .movOreg2R => 16
  | .movY2Oreg => 17
  | .movOreg2Act => 18
  | .movX2Act => 19
  | .selectAll => 20
  | .write0 => 30
  | .write1 => 31

def Opcode.ofCode? : Nat → Option Opcode
  | 0 => some .nop
  | 1 => some .addXy
  | 2 => some .subXy
  | 3 => some .multXy
  | 4 => some .addXsreg
  | 5 => some .subXsreg
  | 6 => some .multXsreg
  | 7 => some .relu
  | 8 => some .actLookup
  | 9 => some .shiftOff
  | 10 => some .serialEn
  | 11 => some .parallelEn
  | 12 => some .selectBlk
  | 13 => some .movO2Sreg
  | 14 => some .movY2Sreg
  | 15 => some .movSreg2R
  | 16 => some .movOreg2R
  | 17 => some .movY2Oreg
  | 18 => some .movOreg2Act
  | 19 => some .movX2Act
  | 20 => some .selectAll
  | 30 => some .write0
  | 31 => some .write1
  | _ => none

inductive Op
  | nop
  /-- Output takes `rx fn ry`. -/
  | xy (fn : ArithFn) (rx ry : BitVec 8)
  /-- Output takes `rx fn shift`. -/
  | xsreg (fn : ArithFn) (rx : BitVec 8)
  | relu
  | actLookup (table : BitVec 8)
  | shiftOff
  | serialEn
  | parallelEn
  | selectBlk (id : BitVec 8)
  | selectAll
  | movO2Sreg
  | movY2Sreg (ry : BitVec 8)
  | movSreg2R (rd : BitVec 8)
  | movOreg2R (rd : BitVec 8)
  | movY2Oreg (ry : BitVec 8)
  | movOreg2Act
  | movX2Act (rx : BitVec 8)
  | write (addr data : BitVec 16)
  deriving DecidableEq, Repr

namespace Op

def opcode : Op → Opcode
  | .nop => .nop
  | .xy .add _ _ => .addXy
  | .xy .sub _ _ => .subXy
  | .xy .mult _ _ => .multXy
  | .xsreg .add _ => .addXsreg
  | .xsreg .sub _ => .subXsreg
  | .xsreg .mult _ => .multXsreg
  | .relu => .relu
  | .actLookup _ => .actLookup
  | .shiftOff => .shiftOff
  | .serialEn => .serialEn
  | .parallelEn => .parallelEn
  | .selectBlk _ => .selectBlk
  | .selectAll => .selectAll
  | .movO2Sreg => .movO2Sreg
  | .movY2Sreg _ => .movY2Sreg
  | .movSreg2R _ => .movSreg2R
  | .movOreg2R _ => .movOreg2R
  | .movY2Oreg _ => .movY2Oreg
  | .movOreg2Act => .movOreg2Act
  | .movX2Act _ => .movX2Act
  | .write addr _ => if addr.toNat < 512 then .write0 else .write1

def operands : Op → Outcome (Nat × Nat)
  | .xy _ rx ry => return (0, rx.toNat * 256 + ry.toNat)
  | .xsreg _ rx => return (0, rx.toNat * 256)
  | .movX2Act rx => return (0, rx.toNat * 256)
  | .actLookup table => do return (0, ← Segment.fit table.toNat 2)
  | .selectBlk id => return (0, id.toNat * 256)
  | .movY2Sreg r => return (0, r.toNat)
  | .movSreg2R r => return (0, r.toNat)
  | .movOreg2R r => return (0, r.toNat)
  | .movY2Oreg r => return (0, r.toNat)
  | .write addr data => do
    let addr ← Segment.fit addr.toNat 10
    return (addr % 512, data.toNat)
  | _ => return (0, 0)

def encode (op : Op) : Outcome SubWord := do
  let (mid, low) ← op.operands
  SubWord.make op.opcode.code mid low 5 9 16

/-- The instruction of known segments; the bits that an instruction does not use are ignored. -/
def ofSegments (opcode : Opcode) (mid low : Nat) : Op :=
  let hi := BitVec.ofNat 8 (low / 256)
  let lo := BitVec.ofNat 8 (low % 256)
  match opcode with
  | .nop => .nop
  | .addXy => .xy .add hi lo
  | .subXy => .xy .sub hi lo
  | .multXy => .xy .mult hi lo
  | .addXsreg => .xsreg .add hi
  | .subXsreg => .xsreg .sub hi
  | .multXsreg => .xsreg .mult hi
  | .relu => .relu
  | .actLookup => .actLookup (BitVec.ofNat 8 (low % 4))
  | .shiftOff => .shiftOff
  | .serialEn => .serialEn
  | .parallelEn => .parallelEn
  | .selectBlk => .selectBlk hi
  | .selectAll => .selectAll
  | .movO2Sreg => .movO2Sreg
  | .movY2Sreg => .movY2Sreg lo
  | .movSreg2R => .movSreg2R lo
  | .movOreg2R => .movOreg2R lo
  | .movY2Oreg => .movY2Oreg lo
  | .movOreg2Act => .movOreg2Act
  | .movX2Act => .movX2Act hi
  | .write0 => .write (BitVec.ofNat 16 mid) (BitVec.ofNat 16 low)
  | .write1 => .write (BitVec.ofNat 16 (512 + mid)) (BitVec.ofNat 16 low)

def decode? (payload : Nat) : Option Op :=
  if payload < 1073741824 then do
    some (ofSegments (← Opcode.ofCode? (payload / 33554432)) (payload / 65536 % 512) (payload % 65536))
  else none

def decode (payload : Nat) : Outcome Op :=
  match decode? payload with
  | some op => .ok op
  | none => Outcome.fail (.decode .vv payload)

open Numeral

def listing : Op → Listing
  | .nop => ⟨"NOP", []⟩
  | .xy fn rx ry => ⟨fn.name ++ "_XY", [("rx", decimalOf rx), ("ry", decimalOf ry)]⟩
  | .xsreg fn rx => ⟨fn.name ++ "_XSREG", [("rx", decimalOf rx)]⟩
  | .relu => ⟨"RELU", []⟩
  | .actLookup table => ⟨"ACTLOOKUP", [("actCode", decimalOf table)]⟩
  | .shiftOff => ⟨"SHIFTOFF", []⟩
  | .serialEn => ⟨"SERIAL_EN", []⟩
  | .parallelEn => ⟨"PARALLEL_EN", []⟩
  | .selectBlk id => ⟨"SELECT_BLOCK", [("blkID", decimalOf id)]⟩
  | .selectAll => ⟨"SELECT_ALL", []⟩
  | .movO2Sreg => ⟨"MOV_O2SREG", []⟩
  | .movY2Sreg ry => ⟨"MOV_Y2SREG", [("ry", decimalOf ry)]⟩
  | .movSreg2R rd => ⟨"MOV_SREG2R", [("rd", decimalOf rd)]⟩
  | .movOreg2R rd => ⟨"MOV_OREG2R", [("rd", decimalOf rd)]⟩
  | .movY2Oreg ry => ⟨"MOV_Y2OREG", [("ry", decimalOf ry)]⟩
  | .movOreg2Act => ⟨"MOV_OREG2ACT", []⟩
  | .movX2Act rx => ⟨"MOV_X2ACT", [("rx", decimalOf rx)]⟩
  | .write addr data => ⟨"WRITE", [("addr", decimalOf addr), ("data", signed data.toInt)]⟩

def text (op : Op) : String := op.listing.render

end Op

end PimAsm.Vv
