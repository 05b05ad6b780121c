import PimAsm.Cli.Report
import PimAsm.Disassembly
import PimAsm.Image
import PimAsm.Json.Printer
import PimAsm.Program.Script

namespace PimAsm.Cli

def loadParams {m : Type → Type} [Monad m] (files : Files m) (path : String) : Task m Params := do
  match Params.read (← Task.readNamed files path) with
  | .ok p => pure p
  | .error place => throw (.ofText ("invalid assembler parameters: " ++ refusal place))

namespace Assembler

inductive Format
  | text
  | json
  deriving DecidableEq, Repr

inductive Target
  | verilog
  | c (name : String)
  deriving DecidableEq, Repr

inductive Request
  | params (format : Format)
  | header (out : Option String)
  | build (program : String) (target : Target) (options : ExportOptions) (out : Option String)
  | disassemble (image : String) (format : Format) (out : Option String)
  deriving DecidableEq, Repr

def version : String := "davinci-asm-cli 0.1.0"

def usage : String :=
  "Usage: davinci-as [-p FILE] params [--format text|json]\n"
    ++ "       davinci-as [-p FILE] header [--out FILE]\n"
    ++ "       davinci-as [-p FILE] build PROGRAM [--target verilog|c] [--name NAME] [--no-comment]\n"
    ++ "                  [--no-source] [--separator TEXT] [--out FILE]\n"
    ++ "       davinci-as [-p FILE] disasm MEMFILE [--format text|json] [--out FILE]\n"

def paramsSetting : Setting := .path "params" 'p'

def formatSetting : Setting := .oneOf "format" ["text", "json"]

def top : Command where
  settings := [paramsSetting, .help, .version]
  subcommands := ["params", "header", "build", "disasm", "help"]

def subcommand : String → Command
  | "params" => ⟨[paramsSetting, .help, formatSetting], false, []⟩
  | "header" => ⟨[paramsSetting, .help, .path "out"], false, []⟩
  | "build" =>
    ⟨[paramsSetting, .help, .oneOf "target" ["verilog", "c"], .text "name", .flag "no-comment", .flag "no-source",
      .text "separator", .path "out"], true, []⟩
  | "disasm" => ⟨[paramsSetting, .help, formatSetting, .path "out"], true, []⟩
  | _ => ⟨[], false, []⟩

def formatOf (g : Given) : Format := if g.value? "format" = some "json" then .json else .text

def targetOf (g : Given) : Target :=
  if g.value? "target" = some "c" then .c ((g.value? "name").getD "davinci_prog") else .verilog

def optionsOf (g : Given) : ExportOptions where
  comment := !g.has "no-comment"
  source := !g.has "no-source"
  separator := (g.value? "separator").getD "_"

/-- What comes of `help` and the names after it: at most one, of a subcommand. -/
def explained : List String → Stop
  | [] => .help
  | [name] => if name ∈ top.subcommands then .help else .usage
  | _ => .usage

def requestOf (name : String) (g : Given) : Except Stop Request :=
  match name with
  | "params" => .ok (.params (formatOf g))
  | "header" => .ok (.header (g.value? "out"))
  | "build" => .ok (.build (g.operand.getD "") (targetOf g) (optionsOf g) (g.value? "out"))
  | "disasm" => .ok (.disassemble (g.operand.getD "") (formatOf g) (g.value? "out"))
  | _ => .error .usage

/-- The parameter file and the request of the arguments. The file given last wins. -/
def read (args : List String) : Except Stop (Option String × Request) := do
  let g ← top.read args
  let (name, args) := g.subcommand.getD ("", [])
  if name = "help" then throw (explained args)
  let sub ← (subcommand name).read args
  return ((sub.value? "params").or (g.value? "params"), ← requestOf name sub)

variable {m : Type → Type} [Monad m]

def emit (files : Files m) (text : String) : Option String → Task m String
  | none => pure text
  | some path => do
    Task.under ("writing " ++ path) (Task.writeFile files path text)
    return ""

def loadScript (files : Files m) (path : String) : Task m Script := do
  match Script.read (← Task.readNamed files path) with
  | .ok sc => pure sc
  | .error place => throw (.ofText ("line " ++ Numeral.decimal place.line ++ ": " ++ refusal place))

def exported (s : Session) (o : ExportOptions) : Target → Outcome String
  | .verilog => (s.verilog o).2
  | .c name => (s.cProgram name o).2

/-- Assembles a script; given parameters replace its own. -/
def build (files : Files m) (params : Option Params) (program : String) (target : Target) (o : ExportOptions) :
    Task m String := do
  let script ← Task.under ("loading " ++ program) (loadScript files program)
  let script := if params.isSome then { script with params := params } else script
  let session ← Task.under ("assembling " ++ program) (Task.ofOutcome script.build)
  Task.ofOutcome (exported session o target)

def disassemble (files : Files m) (image : String) (format : Format) : Task m String := do
  let text ← Task.under ("reading " ++ image) (Task.readFile files image)
  let words ← Task.ofOutcome (Image.read text)
  match Disassembly.lines words with
  | .error (index, h) => throw ((Failure.ofHalt h).under ("word " ++ Numeral.decimal index))
  | .ok lines =>
    match format with
    | .text => return String.join (lines.map Disassembly.Line.text)
    | .json => return (Json.list (lines.map Disassembly.Line.toJson)).pretty ++ "\n"

def perform (files : Files m) (params : Option Params) : Request → Task m String
  | .params format => do
    let c ← Task.ofOutcome (params.getD {}).validate
    match format with
    | .text => return c.summary
    | .json => return c.toJson.pretty ++ "\n"
  | .header out => emit files Export.header out
  | .build program target o out => do emit files (← build files params program target o) out
  | .disassemble image format out => do emit files (← disassemble files image format) out

def run (files : Files m) (args : List String) : m Report :=
  match read args with
  | .error stop => return .ofStop version usage stop
  | .ok (path, request) => Task.report do perform files (← path.mapM (loadParams files)) request

end Assembler

end PimAsm.Cli
