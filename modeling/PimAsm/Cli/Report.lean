import PimAsm.Cli.Arguments
import PimAsm.Cli.Files
import PimAsm.Fault
import PimAsm.Json.Reader

namespace PimAsm.Cli

structure Failure where
  /-- Nothing for a trap. -/
  error : Option (String × Option String)
  printed : String := ""
  deriving DecidableEq, Repr

namespace Failure

def ofText (message : String) : Failure := ⟨some (message, none), ""⟩

def ofHalt : Halt → Failure
  | .trap => ⟨none, ""⟩
  | .fault f => ofText f.message

def under (context : String) (f : Failure) : Failure :=
  match f.error with
  | none => f
  | some (message, _) => { f with error := some (context, some message) }

end Failure

structure Report where
  exit : Nat
  out : String
  err : String
  deriving DecidableEq, Repr

namespace Report

def indented (s : String) : String := "    " ++ String.intercalate "\n    " (s.splitOn "\n")

def ofFailure (f : Failure) : Report :=
  match f.error with
  | none => ⟨101, f.printed, ""⟩
  | some (message, none) => ⟨1, f.printed, "Error: " ++ message ++ "\n"⟩
  | some (message, some cause) =>
    ⟨1, f.printed, "Error: " ++ message ++ "\n\nCaused by:\n" ++ indented cause ++ "\n"⟩

def ofStop (version usage : String) : Stop → Report
  | .version => ⟨0, version ++ "\n", ""⟩
  | .help => ⟨0, usage, ""⟩
  | .usage => ⟨2, "", usage⟩

end Report

abbrev Task (m : Type → Type) := ExceptT Failure m

namespace Task

variable {m : Type → Type} [Monad m] {α : Type}

def ofOutcome : Outcome α → Task m α
  | .ok a => pure a
  | .error h => throw (.ofHalt h)

def under (context : String) (t : Task m α) : Task m α := tryCatch t fun f => throw (f.under context)

def readFile (files : Files m) (path : String) : Task m String := do
  match ← ExceptT.lift (files.read path) with
  | .ok s => pure s
  | .error e => throw (.ofText e.message)

def readNamed (files : Files m) (path : String) : Task m String := do
  match ← ExceptT.lift (files.read path) with
  | .ok s => pure s
  | .error e => throw (.ofText (path ++ ": " ++ e.message))

def writeFile (files : Files m) (path text : String) : Task m Unit := do
  match ← ExceptT.lift (files.write path text) with
  | .ok () => pure ()
  | .error e => throw (.ofText e.message)

def report (t : Task m String) : m Report := do
  match ← t.run with
  | .ok out => return ⟨0, out, ""⟩
  | .error f => return .ofFailure f

end Task

def refusal (p : Json.Place) : String :=
  "unexpected value at line " ++ Numeral.decimal p.line ++ " column " ++ Numeral.decimal p.column

end PimAsm.Cli
