import PimAsm.Bits.Segment
import PimAsm.Text

/-! Instructions of the GEMV array. A payload has an operation code of 4 bits, a middle segment of 10 and a low
segment of 16; the operands are packed into the last two. Operands are held in bytes, which are wider than the
fields that carry them, so encoding checks each one. -/

namespace PimAsm.Gemv

inductive Opcode
  | nop
  | write
  | read
  | updatePp
  | accum
  | alu
  | select
  | mov
  | super
  deriving DecidableEq, Repr

def Opcode.code : Opcode → Nat
  | .nop => 0
  | .write => 1
  | .read => 2
  | .updatePp => 3
  | .accum => 4
  | .alu => 5
  | .select => 6
  | .mov => 7
  | .super => 8

def Opcode.ofCode? : Nat → Option Opcode
  | 0 => some .nop
  | 1 => some .write
  | 2 => some .read
  | 3 => some .updatePp
  | 4 => some .accum
  | 5 => some .alu
  | 6 => some .select
  | 7 => some .mov
  | 8 => some .super
  | _ => none

inductive AluFn
  | add
  | cpx
  | cpy
  | sub
  deriving DecidableEq, Repr

def AluFn.code : AluFn → Nat
  | .add => 0
  | .cpx => 1
  | .cpy => 2
  | .sub => 3

def AluFn.ofCode? : Nat → Option AluFn
  | 0 => some .add
  | 1 => some .cpx
  | 2 => some .cpy
  | 3 => some .sub
  | _ => none

def AluFn.name : AluFn → String
  | .add => "ADD"
  | .cpx => "CPX"
  | .cpy => "CPY"
  | .sub => "SUB"

inductive SelectFn
  | col
  | block
  | row
  | all
  deriving DecidableEq, Repr

def SelectFn.code : SelectFn → Nat
  | .col => 0
  | .block => 1
  | .row => 2
  | .all => 3

def SelectFn.ofCode? : Nat → Option SelectFn
  | 0 => some .col
  | 1 => some .block
  | 2 => some .row
  | 3 => some .all
  | _ => none

inductive Op
  | nop
  | write (addr data : BitVec 16)
  | alu (fn : AluFn) (rd rs1 rs2 : BitVec 8)
  /-- One Booth step of the product in `pp`, `pp + 1` at bit `offset`. -/
  | updatePp (offset pp multiplicand multiplier : BitVec 8)
  /-- `rd = rs` plus its folded half, inside a block. -/
  | accumBlk (fold rd rs : BitVec 8)
  /-- Adds `reg` of the sending blocks to the receiving ones at a network level. -/
  | accumRow (level reg : BitVec 8)
  | select (fn : SelectFn) (rowId colId : BitVec 8)
  /-- `rd` takes the pair `rs`, `rs + 1` shifted right. -/
  | movOffset (offset rd rs : BitVec 8)
  /-- Forgets the multiplier bit of the previous Booth step. -/
  | clrMbit
  deriving DecidableEq, Repr

namespace Op

def opcode : Op → Opcode
  | .nop => .nop
  | .write .. => .write
  | .alu .. => .alu
  | .updatePp .. => .updatePp
  | .accumBlk .. => .accum
  | .accumRow .. => .accum
  | .select .. => .select
  | .movOffset .. => .mov
  | .clrMbit => .super

def field6 (v : BitVec 8) : Outcome Nat := Segment.fit v.toNat 6

def field4 (v : BitVec 8) : Outcome Nat := Segment.fit v.toNat 4

def operands : Op → Outcome (Nat × Nat)
  | .nop => return (0, 0)
  | .write addr data => return (addr.toNat, data.toNat)
  | .alu fn rd rs1 rs2 => do
    let rd ← field6 rd
    let rs2 ← field6 rs2
    let rs1 ← field6 rs1
    return (fn.code * 64 + rd, rs2 * 64 + rs1)
  | .updatePp offset pp multiplicand multiplier => do
    let offset ← field4 offset
    let pp ← field6 pp
    let multiplicand ← field6 multiplicand
    let multiplier ← field6 multiplier
    return (offset * 64 + pp, multiplicand * 64 + multiplier)
  | .accumBlk fold rd rs => do
    let fold ← field6 fold
    let rd ← field6 rd
    let rs ← field6 rs
    return (fold, rd * 64 + rs)
  | .accumRow level reg => do
    let level ← field6 level
    let reg ← field6 reg
    return (64 + level, reg)
  | .select fn rowId colId => return (fn.code * 64, rowId.toNat * 256 + colId.toNat)
  | .movOffset offset rd rs => do
    let offset ← field4 offset
    let rd ← field6 rd
    let rs ← field6 rs
    return (offset, rd * 64 + rs)
  | .clrMbit => return (0, 0)

def encode (op : Op) : Outcome SubWord := do
  let (mid, low) ← op.operands
  SubWord.make op.opcode.code mid low 4 10 16

/-- The instruction of known segments; the bits that an instruction does not use are ignored. -/
def ofSegments? (opcode : Opcode) (mid low : Nat) : Option Op :=
  let fn := mid / 64
  let param := BitVec.ofNat 8 (mid % 64)
  let hi := BitVec.ofNat 8 (low / 64 % 64)
  let lo := BitVec.ofNat 8 (low % 64)
  match opcode with
  | .nop => some .nop
  | .write => some (.write (BitVec.ofNat 16 mid) (BitVec.ofNat 16 low))
  | .read => none
  | .updatePp => some (.updatePp (BitVec.ofNat 8 fn) param hi lo)
  | .accum =>
    match fn with
    | 0 => some (.accumBlk param hi lo)
    | 1 => some (.accumRow param lo)
    | _ => none
  | .alu => (AluFn.ofCode? fn).map fun fn => .alu fn param lo hi
  | .select =>
    (SelectFn.ofCode? fn).map fun fn => .select fn (BitVec.ofNat 8 (low / 256)) (BitVec.ofNat 8 (low % 256))
  | .mov => if fn = 0 then some (.movOffset param hi lo) else none
  | .super => if mid = 0 then some .clrMbit else none

def decode? (payload : Nat) : Option Op :=
  if payload < 1073741824 then do
    ofSegments? (← Opcode.ofCode? (payload / 67108864)) (payload / 65536 % 1024) (payload % 65536)
  else none

def decode (payload : Nat) : Outcome Op :=
  match decode? payload with
  | some op => .ok op
  | none => Outcome.fail (.decode .gemv payload)

open Numeral

/-- The mnemonic with its operands. Identifiers that a selection ignores are left out. -/
def listing : Op → Listing
  | .nop => ⟨"NOP", []⟩
  | .write addr data => ⟨"WRITE", [("addr", decimalOf addr), ("data", "0x" ++ hexUpper 0 data.toNat)]⟩
  | .alu fn rd rs1 rs2 => ⟨fn.name, [("rd", decimalOf rd), ("rs1", decimalOf rs1), ("rs2", decimalOf rs2)]⟩
  | .updatePp offset pp multiplicand multiplier =>
    ⟨"UPDATEPP", [
      ("ppreg", "\x7b" ++ decimalOf pp ++ ", " ++ decimal (pp.toNat + 1) ++ "\x7d"),
      ("multiplicand", decimalOf multiplicand), ("multiplier", decimalOf multiplier), ("bitNo", decimalOf offset)]⟩
  | .accumBlk fold rd rs =>
    ⟨"BLOCK_FOLD", [("fold", decimalOf fold), ("dest", decimalOf rd), ("src", decimalOf rs)]⟩
  | .accumRow level reg => ⟨"ACCUM_ROW", [("level", decimalOf level), ("reg", decimalOf reg)]⟩
  | .select .block rowId colId => ⟨"SELECT_BLOCK", [("rowID", decimalOf rowId), ("colID", decimalOf colId)]⟩
  | .select .row rowId _ => ⟨"SELECT_ROW", [("rowID", decimalOf rowId)]⟩
  | .select .col _ colId => ⟨"SELECT_COL", [("colID", decimalOf colId)]⟩
  | .select .all _ _ => ⟨"SELECT_ALL", []⟩
  | .movOffset offset rd rs =>
    if offset = 0 then ⟨"MOV", [("dest", decimalOf rd), ("src", decimalOf rs)]⟩
    else ⟨"MOV_OFFSET", [("offset", decimalOf offset), ("dest", decimalOf rd), ("src", decimalOf rs)]⟩
  | .clrMbit => ⟨"CLRMBIT", []⟩

def text (op : Op) : String := op.listing.render

end Op

end PimAsm.Gemv
