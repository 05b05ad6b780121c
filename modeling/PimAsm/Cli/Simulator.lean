import PimAsm.Cli.Assembler
import PimAsm.Gemv.Block

namespace PimAsm.Cli.Simulator

structure Request where
  params : Option String
  row : BitVec 8
  col : BitVec 8
  dump : List Nat
  image : String
  deriving DecidableEq, Repr

def version : String := "davinci-asm 0.1.0"

def usage : String := "Usage: davinci-sim [-p FILE] [--row ID] [--col ID] [-d REG]... MEMFILE\n"

def command : Command where
  settings := [
    .path "params" 'p', .number "row" 256, .number "col" 256, .numbers "dump" 'd' countLimit, .help, .version]
  operand := true

def idOf (g : Given) (name : String) : BitVec 8 := BitVec.ofNat 8 (((g.value? name).bind (number? 256)).getD 0)

def read (args : List String) : Except Stop Request := do
  let g ← command.read args
  return {
    params := g.value? "params"
    row := idOf g "row"
    col := idOf g "col"
    dump := (g.values "dump").filterMap (number? countLimit)
    image := g.operand.getD "" }

def bracketed (items : List String) : String := "[" ++ String.intercalate ", " items ++ "]"

def valuesText (fracWidth : Nat) (values : List Int) : Outcome String :=
  if fracWidth = 0 then return bracketed (values.map Numeral.signed)
  else do return bracketed ((← values.mapM (Fixed.toDouble fracWidth)).map Layout.listing.text)

def dumpLine (fracWidth : Nat) (b : Gemv.Block) (reg : Nat) : Outcome String := do
  let text ← valuesText fracWidth (← b.regSigned reg)
  let name := Numeral.decimal reg
  return "r" ++ name ++ String.ofList (List.replicate (2 - name.length) ' ') ++ " " ++ text ++ "\n"

/-- The lines of the registers, until one fails; the lines before it stay printed. -/
def dumpLines (fracWidth : Nat) (b : Gemv.Block) : (printed : String) → List Nat → Except Failure String
  | printed, [] => .ok printed
  | printed, reg :: regs =>
    match dumpLine fracWidth b reg with
    | .ok line => dumpLines fracWidth b (printed ++ line) regs
    | .error h => .error { Failure.ofHalt h with printed }

variable {m : Type → Type} [Monad m]

def perform (files : Files m) (r : Request) : Task m String := do
  let params ← r.params.mapM fun path => Task.under ("loading " ++ path) (loadParams files path)
  let c ← Task.ofOutcome (params.getD {}).validate
  let text ← Task.under ("reading " ++ r.image) (Task.readFile files r.image)
  let words ← Task.ofOutcome (Image.read text)
  let (b, result) := Gemv.Block.runWords words (Gemv.Block.new c.gemv r.row r.col)
  Task.ofOutcome result
  match dumpLines c.fracWidth b "" r.dump with
  | .ok out => return out
  | .error f => throw f

def run (files : Files m) (args : List String) : m Report :=
  match read args with
  | .error stop => return .ofStop version usage stop
  | .ok request => Task.report (perform files request)

end PimAsm.Cli.Simulator
