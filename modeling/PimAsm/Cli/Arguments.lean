import PimAsm.Text

/-! Arguments of a command: options with a value, flags, one operand at most, and subcommands. An option is written
`--name value`, `--name=value`, `-n value`, `-nvalue` or `-n=value`. A value of its own does not start with a dash
unless it is a single one, and `--` ends the options. -/

namespace PimAsm.Cli

inductive Stop
  | usage
  | version
  | help
  deriving DecidableEq, Repr

inductive Effect
  | value (accepts : String → Bool) (repeats : Bool)
  | flag
  | stop (why : Stop)

structure Setting where
  long : String
  short : Option Char := none
  effect : Effect

structure Command where
  settings : List Setting
  operand : Bool := false
  subcommands : List String := []

structure Given where
  settings : List (String × String) := []
  operand : Option String := none
  subcommand : Option (String × List String) := none
  deriving DecidableEq, Repr

namespace Given

def values (g : Given) (name : String) : List String := (g.settings.filter fun s => s.1 = name).map Prod.snd

def value? (g : Given) (name : String) : Option String := (g.values name).getLast?

def has (g : Given) (name : String) : Bool := !(g.values name).isEmpty

def add (g : Given) (s : Setting) (v : String) : Except Stop Given :=
  match s.effect with
  | .value accepts repeats =>
    if accepts v ∧ (repeats ∨ ¬ g.has s.long) then .ok { g with settings := g.settings ++ [(s.long, v)] }
    else .error .usage
  | .flag => if g.has s.long then .error .usage else .ok { g with settings := g.settings ++ [(s.long, v)] }
  | .stop why => .error why

/-- Records the operand. An empty one names nothing. -/
def addOperand (g : Given) (c : Command) (v : String) : Except Stop Given :=
  if c.operand ∧ g.operand.isNone ∧ v ≠ "" then .ok { g with operand := some v } else .error .usage

end Given

inductive Form
  | plain
  | endOfOptions
  | long (name : String) (value : Option String)
  | short (letters : List Char)
  deriving DecidableEq, Repr

def Form.of (arg : String) : Form :=
  match arg.toList with
  | ['-'] => .plain
  | ['-', '-'] => .endOfOptions
  | '-' :: '-' :: cs =>
    let name := String.ofList (cs.takeWhile (· ≠ '='))
    match cs.dropWhile (· ≠ '=') with
    | [] => .long name none
    | _ :: v => .long name (some (String.ofList v))
  | '-' :: cs => .short cs
  | _ => .plain

def Setting.takesValue (s : Setting) : Bool :=
  match s.effect with
  | .value .. => true
  | _ => false

namespace Command

def readLong (c : Command) (g : Given) (name : String) (v : Option String) : Except Stop (Option Setting × Given) :=
  match c.settings.find? (·.long = name) with
  | none => .error .usage
  | some s =>
    match s.takesValue, v with
    | true, none => .ok (some s, g)
    | true, some v => (g.add s v).map (none, ·)
    | false, none => (g.add s "").map (none, ·)
    | false, some _ => .error .usage

/-- A group of short options. The first one with a value takes the rest of the group. -/
def readShort (c : Command) : Given → List Char → Except Stop (Option Setting × Given)
  | g, [] => .ok (none, g)
  | g, letter :: rest =>
    match c.settings.find? (·.short = some letter) with
    | none => .error .usage
    | some s =>
      if s.takesValue then
        match rest with
        | [] => .ok (some s, g)
        | '=' :: v => (g.add s (String.ofList v)).map (none, ·)
        | v => (g.add s (String.ofList v)).map (none, ·)
      else do readShort c (← g.add s "") rest

def readOperands (c : Command) : Given → List String → Except Stop Given
  | g, [] => .ok g
  | g, arg :: args => do readOperands c (← g.addOperand c arg) args

/-- Reads arguments in order; `waiting` is an option whose value comes next. -/
def readFrom (c : Command) : (waiting : Option Setting) → Given → List String → Except Stop Given
  | none, g, [] => .ok g
  | some _, _, [] => .error .usage
  | some s, g, arg :: args =>
    match Form.of arg with
    | .plain => do readFrom c none (← g.add s arg) args
    | _ => .error .usage
  | none, g, arg :: args =>
    if arg ∈ c.subcommands then .ok { g with subcommand := some (arg, args) }
    else
      match Form.of arg with
      | .plain => do readFrom c none (← g.addOperand c arg) args
      | .endOfOptions => c.readOperands g args
      | .long name v => do
        let (waiting, g) ← c.readLong g name v
        readFrom c waiting g args
      | .short letters => do
        let (waiting, g) ← c.readShort g letters
        readFrom c waiting g args

def read (c : Command) (args : List String) : Except Stop Given := do
  let g ← c.readFrom none {} args
  if (c.operand → g.operand.isSome) ∧ (c.subcommands ≠ [] → g.subcommand.isSome) then .ok g else .error .usage

end Command

def number? (bound : Nat) (s : String) : Option Nat := do
  let n ← Numeral.signed? s.toList
  if 0 ≤ n ∧ n < bound then some n.toNat else none

namespace Setting

def path (long : String) (short : Option Char := none) : Setting := ⟨long, short, .value (· ≠ "") false⟩

def text (long : String) : Setting := ⟨long, none, .value (fun _ => true) false⟩

def oneOf (long : String) (names : List String) : Setting := ⟨long, none, .value (names.contains ·) false⟩

def number (long : String) (bound : Nat) : Setting :=
  ⟨long, none, .value (fun s => (number? bound s).isSome) false⟩

def numbers (long : String) (short : Char) (bound : Nat) : Setting :=
  ⟨long, some short, .value (fun s => (number? bound s).isSome) true⟩

def flag (long : String) : Setting := ⟨long, none, .flag⟩

def help : Setting := ⟨"help", some 'h', .stop .help⟩

def version : Setting := ⟨"version", some 'V', .stop .version⟩

end Setting

end PimAsm.Cli
