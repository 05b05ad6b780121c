import PimAsm.Gemv.Macro
import PimAsm.Word

/-! A model of one block of the GEMV array. Writes land only while the block is selected; every other instruction
runs regardless. Additions across blocks do nothing, since a lone block has no neighbours. A step that fails keeps
what it has done so far. -/

namespace PimAsm.Gemv

abbrev Value := BitVec 16

structure Block where
  limits : Limits
  rowId : BitVec 8
  colId : BitVec 8
  selected : Bool
  /-- The multiplier bit of the previous Booth step, for each processing element that a row can hold. -/
  history : List Bool
  bram : Array Row
  deriving DecidableEq, Repr

namespace Block

abbrev Step := Block × Outcome Unit

def new (p : Limits) (rowId colId : BitVec 8) : Block where
  limits := p
  rowId := rowId
  colId := colId
  selected := false
  history := List.replicate (min p.peCount Plane.rowWidth) false
  bram := Array.replicate p.pimDepth 0

def done (b : Block) : Step := (b, .ok ())

def attempt {α : Type} (b : Block) (x : Outcome α) (next : α → Step) : Step :=
  match x with
  | .ok a => next a
  | .error e => (b, .error e)

def andThen (s : Step) (next : Block → Step) : Step :=
  match s with
  | (b, .ok ()) => next b
  | s => s

/-- Addresses are reported as signed numbers of 64 bits. -/
def badAddr (b : Block) (addr : Nat) : Fault :=
  .range .bramAddress (Int.bmod addr 18446744073709551616) 0 ((b.bram.size : Int) - 1)

def readRow (b : Block) (addr : Nat) : Outcome Row :=
  match b.bram[addr]? with
  | some row => .ok row
  | none => Outcome.fail (b.badAddr addr)

def writeRow (b : Block) (addr : Nat) (row : Row) : Step :=
  if addr < b.bram.size then done { b with bram := b.bram.setIfInBounds addr row }
  else (b, Outcome.fail (b.badAddr addr))

def peCount (b : Block) : Nat := b.limits.peCount

/-- The row of one bit of a register. Elements past the row, or bits past a value, have no place. -/
def regRow (b : Block) (reg bit : Nat) : Outcome Row := do
  let addr ← b.limits.regAddr reg bit
  let row ← b.readRow addr
  Outcome.within (b.peCount = 0 ∨ (bit < 16 ∧ b.peCount ≤ Plane.rowWidth))
  return row

def reg (b : Block) (reg : Nat) : Outcome (List Value) := do
  let rows ← Outcome.collect b.limits.regWidth (b.regRow reg)
  return (List.range b.peCount).map fun pe => Plane.ofBits 16 fun bit => (rows.getD bit 0).getLsbD pe

def regSigned (b : Block) (reg : Nat) : Outcome (List Int) := do
  return (← b.reg reg).map BitVec.toInt

def setBits (reg : Nat) (values : List Value) : (count bit : Nat) → Block → Step
  | 0, _, b => b.done
  | count + 1, bit, b =>
    b.attempt (b.limits.regAddr reg bit) fun addr =>
      b.attempt (Outcome.within (values = [] ∨ (bit < 16 ∧ values.length ≤ Plane.rowWidth))) fun _ =>
        andThen (b.writeRow addr (Plane.ofBits 16 fun pe => (values.getD pe 0).getLsbD bit))
          (setBits reg values count (bit + 1))

/-- Sets a register of the processing elements; values without an element are ignored. -/
def setReg (b : Block) (reg : Nat) (values : List Value) : Step :=
  setBits reg (values.take b.peCount) b.limits.regWidth 0 b

/-- The pair `reg`, `reg + 1` of every element, `reg` the low half. A high half past the last row is zero. -/
def pair (b : Block) (reg : Nat) : Outcome (List (BitVec 32)) := do
  let lo ← b.reg reg
  let hi ← match b.reg (reg + 1) with
    | .error .trap => Outcome.trap
    | .error (.fault _) => pure (List.replicate lo.length 0)
    | .ok hi => pure hi
  return List.zipWith (fun (l h : Value) => h ++ l) lo hi

def shifted (offset : Nat) (v : BitVec 32) : Value := (v >>> offset).setWidth 16

def setPair (b : Block) (reg : Nat) (values : List (BitVec 32)) : Step :=
  andThen (b.setReg reg (values.map (shifted 0)))
    (·.setReg (reg + 1) (values.map (shifted 16)))

def aluResult : AluFn → Value → Value → Value
  | .add, x, y => x + y
  | .sub, x, y => x - y
  | .cpx, x, _ => x
  | .cpy, _, y => y

/-- One Booth step on a partial product: the multiplicand is subtracted where a run of set multiplier bits begins
and added where it ends. -/
def boothStep (offset : Nat) (pp : BitVec 32) (multiplicand : Value) (bit previous : Bool) : BitVec 32 :=
  let term := multiplicand.signExtend 32 <<< offset
  match bit, previous with
  | true, false => pp - term
  | false, true => pp + term
  | _, _ => pp

def halvings (n : Nat) : Nat := ((List.range 32).takeWhile fun i => n % 1 <<< (i + 1) = 0).length

def folded (half : Nat) (src dst : List Value) : List Value :=
  (List.range half).map (fun pe => src.getD pe 0 + src.getD (pe + half) 0) ++ dst.drop half

/-- The partial products that a Booth step starts from. The first step starts from zero. -/
def partialProducts (b : Block) (offset pp : Nat) : Outcome (Option (List (BitVec 32))) :=
  if offset = 0 then .ok none else some <$> b.pair pp

def execUpdatePp (b : Block) (offset pp multiplicand multiplier : Nat) : Step :=
  b.attempt (b.limits.checkOffset offset) fun _ =>
  b.attempt (b.partialProducts offset pp) fun products =>
  b.attempt (b.reg multiplicand) fun ms =>
  b.attempt (b.reg multiplier) fun qs =>
    let bits := qs.map (·.getLsbD offset)
    let steps := List.zipWith (fun (x : BitVec 32 × Value) (y : Bool × Bool) => boothStep offset x.1 x.2 y.1 y.2)
      ((products.getD (ms.map fun _ => 0)).zip ms) (bits.zip b.history)
    { b with history := bits }.setPair pp steps

def execAccumBlk (b : Block) (fold rd rs : Nat) : Step :=
  b.attempt (b.reg rs) fun src =>
  b.attempt (b.reg rd) fun dst =>
  let most := halvings b.peCount
  b.attempt (Outcome.require (1 ≤ fold ∧ fold ≤ most) (.range .fold fold 1 most)) fun _ =>
    b.setReg rd (folded (b.peCount >>> fold) src dst)

def selects (b : Block) (fn : SelectFn) (rowId colId : BitVec 8) : Bool :=
  match fn with
  | .col => colId = b.colId
  | .row => rowId = b.rowId
  | .block => rowId = b.rowId && colId = b.colId
  | .all => true

def exec (b : Block) : Op → Step
  | .nop => b.done
  | .accumRow .. => b.done
  | .write addr data => if b.selected then b.writeRow addr.toNat data else b.done
  | .select fn rowId colId => done { b with selected := b.selects fn rowId colId }
  | .alu fn rd rs1 rs2 =>
    b.attempt (b.reg rs1.toNat) fun xs =>
    b.attempt (b.reg rs2.toNat) fun ys =>
      b.setReg rd.toNat (List.zipWith (aluResult fn) xs ys)
  | .clrMbit => done { b with history := b.history.map fun _ => false }
  | .updatePp offset pp multiplicand multiplier =>
    b.execUpdatePp offset.toNat pp.toNat multiplicand.toNat multiplier.toNat
  | .movOffset offset rd rs =>
    b.attempt (b.limits.checkOffset offset.toNat) fun _ =>
    b.attempt (b.pair rs.toNat) fun values =>
      b.setReg rd.toNat (values.map (shifted offset.toNat))
  | .accumBlk fold rd rs => b.execAccumBlk fold.toNat rd.toNat rs.toNat

def run : List Op → Block → Step
  | [], b => b.done
  | op :: ops, b => andThen (b.exec op) (run ops)

/-- Runs one word; words of the vector engine are skipped. -/
def runWord (b : Block) (w : Word) : Step :=
  b.attempt w.decode fun
    | .gemv op => b.exec op
    | .vv _ => b.done

def runWords : List Word → Block → Step
  | [], b => b.done
  | w :: ws, b => andThen (b.runWord w) (runWords ws)

def runMacro (b : Block) (m : Macro) : Step := b.attempt (m.expand b.limits) fun ops => run ops b

end Block

end PimAsm.Gemv
