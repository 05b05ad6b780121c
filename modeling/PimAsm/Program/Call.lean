import PimAsm.Fixed
import PimAsm.Params
import PimAsm.Program.Record

/-! Calls of the assembler: one for each instruction and macro. A call stands for the records that it appends,
under a configuration and the note that waits for it. -/

namespace PimAsm

inductive Call
  | mvNop
  | mvWrite (addr data : Nat)
  | mvAdd (rd rs1 rs2 : Nat)
  | mvSub (rd rs1 rs2 : Nat)
  | mvUpdatePp (pp multiplicand multiplier bit : Nat)
  | mvBlockFold (fold rd rs : Nat)
  | mvAccumRow (level reg : Nat)
  | mvSelectBlock (rowId colId : Nat)
  | mvSelectRow (rowId : Nat)
  | mvSelectCol (colId : Nat)
  | mvSelectAll
  | mvMov (rd rs : Nat)
  | mvMovOffset (offset rd rs : Nat)
  | vvNop
  | vvWrite (addr : Nat) (data : Int)
  | vvMov (rd rs : Vv.Register)
  | vvAdd (opl opr : Vv.Register)
  | vvSub (opl opr : Vv.Register)
  | vvMult (opl opr : Vv.Register)
  | vvActivation (code : Nat)
  | vvShiftOff
  | vvSerialEn
  | vvParallelEn
  | vvSelectBlk (id : Nat)
  | vvSelectAll
  | mvMult (rd multiplicand multiplier : Nat)
  | mvMultFxp (rd multiplicand multiplier : Nat)
  | mvBlockAccum (rd rs : Nat)
  | mvRangeAccum (colCnt rd rs : Nat)
  | mvAllAccum (rd rs : Nat)
  | mvSync
  | mvClearReg (reg : Nat)
  | mvLoadMat (reg : Nat) (matrix : List (List Double))
  | mvLoadVecRow (reg : Nat) (vector : List Double)
  | mvLoadVecCol (reg : Nat) (vector : List Double)
  | vvSync
  | vvClearReg (reg : Nat)
  | vvLoadVec (reg : Nat) (vector : List Double)
  | comment (text : String)
  deriving DecidableEq, Repr

namespace Call

open Numeral Outcome

def gemvRecord (op : Gemv.Op) (comment : Option String) : Record :=
  ⟨.gemv op, (Instr.gemv op).text, comment, none⟩

def vvRecord (op : Vv.Op) (comment : Option String) : Record := ⟨.vv op, (Instr.vv op).text, comment, none⟩

def macroRecord {α : Type} (body : List α → Body) (source : String) (comment : Option String)
    (expansion : Outcome (List α)) : Outcome Record := do
  return ⟨body (← expansion), source, comment, none⟩

def gemvMacroRecord (c : Config) (mac : Gemv.Macro) (comment : Option String) : Outcome Record :=
  macroRecord (.gemvMacro mac) mac.text comment (mac.expand c.gemv)

def vvMacroRecord (c : Config) (mac : Vv.Macro) (comment : Option String) : Outcome Record :=
  macroRecord (.vvMacro mac) mac.text comment (mac.expand c.vv)

def origin (source : String) (note : Option String) : String :=
  "From macro call: " ++ source ++ note.elim "" ("; " ++ ·)

def checkSize (what : Extent) (size : Nat) : Option Nat → Outcome Unit
  | none => .ok ()
  | some limit => require (size ≤ limit) (.shape what size limit)

def toFixed (c : Config) (xs : List Double) : Outcome (List Int) :=
  Fixed.ofDoubles c.fracWidth c.gemv.regWidth xs

def toFixedRow (c : Config) (row : List Double) : Outcome (List Int) := do
  checkSize .columns row.length c.maxCol
  toFixed c row

/-- The full product goes to the first two reserved registers, and its shifted middle to `rd`. -/
def multFxpRecords (c : Config) (note : Option String) (rd multiplicand multiplier : Nat) :
    Outcome (List Record) := do
  let reserved := c.reserved.getD ⟨0, 0⟩
  require (2 ≤ reserved.count) (.reserved 2 reserved.count)
  c.gemv.checkRegs [rd, multiplicand, multiplier]
  require (multiplicand ≠ rd) (.overlap .multiplicand rd rd)
  require (multiplier ≠ rd) (.overlap .multiplier rd rd)
  c.gemv.checkOffset c.fracWidth
  let source := "MV_MULTFXP rd=" ++ decimal rd ++ ", multiplicand=" ++ decimal multiplicand
    ++ ", multiplier=" ++ decimal multiplier
  let comment := some (origin source note)
  let product ← gemvMacroRecord c (.mult reserved.base multiplicand multiplier) comment
  let rd ← Gemv.narrowByte rd 6
  let base ← Gemv.narrowByte reserved.base 6
  return [product, gemvRecord (.movOffset (Gemv.byte c.fracWidth) rd base) comment]

/-- The column counts that an accumulation can cover: one block, and twice as many for each network level. -/
def columnCounts (p : Gemv.Limits) : Outcome (List Nat) := do
  let top ← checkedCount (p.maxLevel + 1)
  return ((List.range (min (top + 1) 32)).map fun i => p.peCount <<< i).takeWhile (· < countLimit)

def accumRowRecord (c : Config) (comment : String) (reg level : Nat) : Outcome Record := do
  return gemvRecord (← c.gemv.accumRow level reg) (some comment)

def accumRecords (c : Config) (comment : String) (rd rs : Nat) (levels : Outcome Nat) : Outcome (List Record) := do
  let first ← gemvMacroRecord c (.blockAccum rd rs) (some comment)
  let rest ← (List.range (← levels)).mapM (accumRowRecord c comment rd)
  return first :: rest

def levelsOf (p : Gemv.Limits) (colCnt : Nat) : Outcome Nat := do
  within (p.peCount ≠ 0)
  return ceilLog2 (colCnt / p.peCount)

def rangeAccumRecords (c : Config) (note : Option String) (colCnt rd rs : Nat) : Outcome (List Record) := do
  let valid ← columnCounts c.gemv
  require (colCnt ∈ valid) (.columns colCnt valid)
  c.gemv.checkRegs [rd, rs]
  let source := "MV_RNGACCUM colCnt=" ++ decimal colCnt ++ ", rd=" ++ decimal rd ++ ", rs=" ++ decimal rs
  accumRecords c (origin source note) rd rs (levelsOf c.gemv colCnt)

def allAccumRecords (c : Config) (note : Option String) (rd rs : Nat) : Outcome (List Record) := do
  c.gemv.checkRegs [rd, rs]
  let source := "MV_ALLACCUM rd=" ++ decimal rd ++ ", rs=" ++ decimal rs
  accumRecords c (origin source note) rd rs (.ok (c.gemv.maxLevel + 1))

/-- The load is expanded first, so that its failure is the one reported. -/
def clearedRecords (load clear : Outcome Record) : Outcome (List Record) := do
  let load ← load
  return [← clear, load]

def gemvLoadRecords (c : Config) (note : Option String) (reg : Nat) (name : String) (load : Gemv.Macro) :
    Outcome (List Record) :=
  clearedRecords (gemvMacroRecord c load note)
    (gemvMacroRecord c (.clearReg reg) (some ("dependency of " ++ name)))

def loadMatRecords (c : Config) (note : Option String) (reg : Nat) (matrix : List (List Double)) :
    Outcome (List Record) := do
  c.gemv.checkReg reg
  checkSize .rows matrix.length c.maxRow
  gemvLoadRecords c note reg "MV_LOADMAT" (.loadMat reg (← matrix.mapM (toFixedRow c)))

def loadVecRowRecords (c : Config) (note : Option String) (reg : Nat) (vector : List Double) :
    Outcome (List Record) := do
  c.gemv.checkReg reg
  gemvLoadRecords c note reg "MV_LOADVEC_ROW" (.loadVecRow reg (← toFixedRow c vector))

def loadVecColRecords (c : Config) (note : Option String) (reg : Nat) (vector : List Double) :
    Outcome (List Record) := do
  c.gemv.checkReg reg
  checkSize .rows vector.length c.maxRow
  gemvLoadRecords c note reg "MV_LOADVEC_COL" (.loadVecCol reg (← toFixed c vector))

def vvLoadVecRecords (c : Config) (note : Option String) (reg : Nat) (vector : List Double) :
    Outcome (List Record) := do
  c.vv.checkReg reg
  checkSize .rows vector.length c.maxRow
  clearedRecords (vvMacroRecord c (.loadVec reg (← toFixed c vector)) note)
    (vvMacroRecord c (.clearReg reg) (some "dependency of VV_LOADVEC"))

def single {α : Type} (record : α → Option String → Record) (note : Option String) (op : Outcome α) :
    Outcome (List Record) := do
  return [record (← op) note]

def checked (check : Outcome Unit) (record : Outcome Record) : Outcome (List Record) := do
  check
  return [← record]

def records (c : Config) (note : Option String) : Call → Outcome (List Record)
  | .mvNop => single gemvRecord note (.ok .nop)
  | .mvWrite addr data => single gemvRecord note (c.gemv.write addr data)
  | .mvAdd rd rs1 rs2 => single gemvRecord note (c.gemv.add rd rs1 rs2)
  | .mvSub rd rs1 rs2 => single gemvRecord note (c.gemv.sub rd rs1 rs2)
  | .mvUpdatePp pp multiplicand multiplier bit =>
    single gemvRecord note (c.gemv.updatePp pp multiplicand multiplier bit)
  | .mvBlockFold fold rd rs => single gemvRecord note (c.gemv.accumBlk fold rd rs)
  | .mvAccumRow level reg => single gemvRecord note (c.gemv.accumRow level reg)
  | .mvSelectBlock rowId colId => single gemvRecord note (c.gemv.selectBlock rowId colId)
  | .mvSelectRow rowId => single gemvRecord note (c.gemv.selectRow rowId)
  | .mvSelectCol colId => single gemvRecord note (c.gemv.selectCol colId)
  | .mvSelectAll => single gemvRecord note (.ok Gemv.selectAll)
  | .mvMov rd rs => single gemvRecord note (c.gemv.mov rd rs)
  | .mvMovOffset offset rd rs => single gemvRecord note (c.gemv.movOffset offset rd rs)
  | .vvNop => single vvRecord note (.ok .nop)
  | .vvWrite addr data => single vvRecord note (c.vv.write addr data)
  | .vvMov rd rs => single vvRecord note (c.vv.mov rd rs)
  | .vvAdd opl opr => single vvRecord note (c.vv.arith .add opl opr)
  | .vvSub opl opr => single vvRecord note (c.vv.arith .sub opl opr)
  | .vvMult opl opr => single vvRecord note (c.vv.arith .mult opl opr)
  | .vvActivation code => single vvRecord note (c.vv.activation code)
  | .vvShiftOff => single vvRecord note (.ok .shiftOff)
  | .vvSerialEn => single vvRecord note (.ok .serialEn)
  | .vvParallelEn => single vvRecord note (.ok .parallelEn)
  | .vvSelectBlk id => single vvRecord note (c.vv.selectBlk id)
  | .vvSelectAll => single vvRecord note (.ok .selectAll)
  | .mvMult rd multiplicand multiplier =>
    checked (c.gemv.checkProduct rd multiplicand multiplier)
      (gemvMacroRecord c (.mult rd multiplicand multiplier) note)
  | .mvMultFxp rd multiplicand multiplier => multFxpRecords c note rd multiplicand multiplier
  | .mvBlockAccum rd rs => checked (c.gemv.checkRegs [rd, rs]) (gemvMacroRecord c (.blockAccum rd rs) note)
  | .mvRangeAccum colCnt rd rs => rangeAccumRecords c note colCnt rd rs
  | .mvAllAccum rd rs => allAccumRecords c note rd rs
  | .mvSync => checked (.ok ()) (gemvMacroRecord c .sync note)
  | .mvClearReg reg => checked (c.gemv.checkReg reg) (gemvMacroRecord c (.clearReg reg) note)
  | .mvLoadMat reg matrix => loadMatRecords c note reg matrix
  | .mvLoadVecRow reg vector => loadVecRowRecords c note reg vector
  | .mvLoadVecCol reg vector => loadVecColRecords c note reg vector
  | .vvSync => checked (.ok ()) (vvMacroRecord c .sync note)
  | .vvClearReg reg => checked (c.vv.checkReg reg) (vvMacroRecord c (.clearReg reg) note)
  | .vvLoadVec reg vector => vvLoadVecRecords c note reg vector
  | .comment text => .ok [⟨.comment, "AS_COMMENT", some text, none⟩]

/-- A comment leaves the waiting note to the next call. -/
def keepsNote : Call → Bool
  | .comment _ => true
  | _ => false

end Call

end PimAsm
