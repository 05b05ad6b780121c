import PimAsm.Text

/-! Causes of failure and their wording. A computation ends with a value, with a `Fault`, or in a `trap`: an
intermediate count left the range of a machine integer, or an index left its table. -/

namespace PimAsm

inductive Engine
  | gemv
  | vv
  deriving DecidableEq, Repr

inductive Quantity
  | level
  | fold
  | offset
  | rowId
  | colId
  | blockId
  | address
  | data
  | activation
  | bramAddress
  deriving DecidableEq, Repr

inductive Factor
  | multiplicand
  | multiplier
  deriving DecidableEq, Repr

inductive Extent
  | block
  | rows
  | columns
  deriving DecidableEq, Repr

inductive Format
  | gemv
  | vv
  | combined
  deriving DecidableEq, Repr

inductive ParamFault
  | userRegs (got : Nat)
  | regWidth (got : Nat)
  | idWidth (got : Nat)
  | maxFold (got : Nat)
  | maxLevel (got : Nat)
  | blockDim (rows cols : Nat)
  | columns (cols : Nat)
  | levelTooLow (level recommended : Nat)
  | depth (regs width : Nat)
  | vvRegs (got : Nat)
  | tables (got : Nat)
  | fracWidth (width got : Nat)
  | reserved (user extra available : Nat)
  | frozen
  deriving DecidableEq, Repr

inductive ImageFault
  | length (found : Nat)
  | digit
  deriving DecidableEq, Repr

inductive Fault
  | params (why : ParamFault)
  | register (engine : Engine) (reg count : Nat)
  | range (what : Quantity) (value least greatest : Int)
  | overlap (what : Factor) (lo hi : Nat)
  | combination (operands : String)
  | reserved (need configured : Nat)
  | columns (count : Nat) (valid : List Nat)
  | shape (what : Extent) (size limit : Nat)
  | fixedPoint (value : String) (width : Nat)
  | field (value width : Nat)
  | decode (format : Format) (word : Nat)
  | image (line : Nat) (why : ImageFault)
  deriving DecidableEq, Repr

inductive Halt
  | fault (f : Fault)
  | trap
  deriving DecidableEq, Repr

abbrev Outcome (α : Type) := Except Halt α

namespace Outcome

def fail {α : Type} (f : Fault) : Outcome α := .error (.fault f)

def trap {α : Type} : Outcome α := .error .trap

def require (p : Prop) [Decidable p] (f : Fault) : Outcome Unit := if p then .ok () else fail f

def within (p : Prop) [Decidable p] : Outcome Unit := if p then .ok () else trap

/-- The values of `f` at `n` numbers from `i`, after those in `acc`, which are in reverse. -/
def collectFrom {α : Type} (f : Nat → Outcome α) : (n i : Nat) → (acc : List α) → Outcome (List α)
  | 0, _, acc => .ok acc.reverse
  | n + 1, i, acc =>
    match f i with
    | .ok a => collectFrom f n (i + 1) (a :: acc)
    | .error e => .error e

/-- The values of `f` below `n`. The first failure ends the count, so `n` may be far beyond it. -/
def collect {α : Type} (n : Nat) (f : Nat → Outcome α) : Outcome (List α) := collectFrom f n 0 []

theorem collectFrom_eq {α : Type} (f : Nat → Outcome α) (n i : Nat) (acc : List α) :
    collectFrom f n i acc = (List.range' i n).mapM f >>= fun xs => .ok (acc.reverse ++ xs) := by
  induction n generalizing i acc with
  | zero => simp [collectFrom, pure, Except.pure, bind, Except.bind]
  | succ n ih =>
    rw [collectFrom, List.range'_succ, List.mapM_cons]
    cases f i with
    | error e => rfl
    | ok a =>
      simp only [ih, List.reverse_cons, List.append_assoc, List.singleton_append]
      cases (List.range' (i + 1) n).mapM f <;> rfl

theorem collect_eq_mapM {α : Type} (n : Nat) (f : Nat → Outcome α) : collect n f = (List.range n).mapM f := by
  rw [collect, collectFrom_eq, List.range_eq_range']
  cases (List.range' 0 n).mapM f <;> rfl

end Outcome

def countLimit : Nat := 4294967296

def checkedCount (n : Nat) : Outcome Nat := if n < countLimit then .ok n else .error .trap

open Numeral

def Engine.name : Engine → String
  | .gemv => "GEMV"
  | .vv => "VV-Engine"

def Quantity.name : Quantity → String
  | .level => "network level"
  | .fold => "fold"
  | .offset => "offset"
  | .rowId => "rowID"
  | .colId => "colID"
  | .blockId => "block ID"
  | .address => "address"
  | .data => "data"
  | .activation => "activation code"
  | .bramAddress => "BRAM address"

def Factor.name : Factor → String
  | .multiplicand => "multiplicand"
  | .multiplier => "multiplier"

def Extent.name : Extent → String
  | .block => "block size"
  | .rows => "row count"
  | .columns => "column count"

def Format.name : Format → String
  | .gemv => "PiCaSO"
  | .vv => "VV-Engine"
  | .combined => "DA-VinCi"

def ParamFault.message : ParamFault → String
  | .userRegs got => "this version only supports 1 to 60 16-bit user registers, got " ++ decimal got
  | .regWidth got => "this version only supports 16-bit registers, got " ++ decimal got
  | .idWidth got => "idWidth must be within 1..=8, got " ++ decimal got
  | .maxFold got => "maxFold must be within 1..=63, got " ++ decimal got
  | .maxLevel got => "maxLevel must be <= 26, got " ++ decimal got
  | .blockDim rows cols =>
    "mvBlockDim must be non-zero, got (" ++ decimal rows ++ ", " ++ decimal cols ++ ")"
  | .columns cols => "mvBlockDim column count " ++ decimal cols ++ " exceeds 4294967295 PE columns"
  | .levelTooLow level recommended =>
    "specified maxLevel (" ++ decimal level ++ ") is incorrect; recommended maxLevel = " ++ decimal recommended
  | .depth regs width =>
    "register count (" ++ decimal regs ++ ") is not consistent with regWidth (" ++ decimal width
      ++ ") and pimDepth (1024)"
  | .vvRegs got => "VV-Engine only supports up to 256 registers, got " ++ decimal got
  | .tables got => "VV-Engine only supports up to 3 activation tables, got " ++ decimal got
  | .fracWidth width got =>
    "fixed-point fracWidth must be >= 0 and <= regWidth (" ++ decimal width ++ "), got " ++ decimal got
  | .reserved user extra available =>
    "too many (" ++ decimal user ++ "+" ++ decimal extra ++ ">" ++ decimal available
      ++ ") MV-Engine registers specified"
  | .frozen => "parameters cannot change once instructions are emitted; reset() first"

def ImageFault.message : ImageFault → String
  | .length found => "expected 32 bits, found " ++ decimal found
  | .digit => "invalid digit found in string"

def Fault.message : Fault → String
  | .params why => "invalid assembler parameters: " ++ why.message
  | .register engine reg count =>
    "invalid " ++ engine.name ++ " register: " ++ decimal reg ++ " (valid range 0.." ++ decimal count ++ ")"
  | .range what value least greatest =>
    "invalid " ++ what.name ++ ": " ++ signed value ++ ", range (" ++ signed least ++ ", "
      ++ signed greatest ++ ")"
  | .overlap what lo hi =>
    what.name ++ " cannot overlap with dest registers (" ++ decimal lo ++ ", " ++ decimal hi ++ ")"
  | .combination operands => "register combination not valid: " ++ operands
  | .reserved need configured =>
    "MV_MULTFXP requires at least " ++ decimal need ++ " reserved registers (" ++ decimal configured
      ++ " configured); adjust the assembler parameters"
  | .columns count valid => "column count " ++ decimal count ++ " is not one of " ++ decimals valid
  | .shape what size limit =>
    what.name ++ " (" ++ decimal size ++ ") of the given data is too big (>" ++ decimal limit ++ ")"
  | .fixedPoint value width =>
    "value " ++ value ++ " cannot be converted to a " ++ decimal width ++ "-bit fixed-point register value"
  | .field value width =>
    "value 0x" ++ hexLower 0 value ++ " does not fit in a " ++ decimal width ++ "-bit field"
  | .decode format word => "cannot decode " ++ format.name ++ " word 0x" ++ hexLower 8 word
  | .image line why => "line " ++ decimal line ++ ": " ++ why.message

end PimAsm
