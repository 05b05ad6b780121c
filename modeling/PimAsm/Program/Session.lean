import PimAsm.Program.Call
import PimAsm.Program.Export

/-! Sessions: a configuration and the records of a program. Calls append records, notes wait for the next call,
and records are encoded when words or texts are asked for. -/

namespace PimAsm

structure Session where
  config : Config
  records : List Record := []
  assembled : Bool := false
  note : Option String := none
  deriving DecidableEq, Repr

namespace Session

def new (c : Config := {}) : Session := { config := c }

def ofParams (p : Params) : Outcome Session := do return new (← p.validate)

def setup (s : Session) (p : Params) : Session × Outcome Unit :=
  if s.records.isEmpty then
    match ofParams p with
    | .ok s' => (s', .ok ())
    | .error e => (s, .error e)
  else (s, Outcome.fail (.params .frozen))

def reset (s : Session) : Session := new s.config

def withNote (s : Session) (text : String) : Session := { s with note := some text }

/-- Appends the records of a call and returns their number; a call that fails appends none. The waiting note is
used up either way, except by a comment. -/
def issue (s : Session) (call : Call) : Session × Outcome Nat :=
  let note := if call.keepsNote then s.note else none
  match call.records s.config s.note with
  | .ok rs => ({ s with records := s.records ++ rs, assembled := false, note }, .ok rs.length)
  | .error e => ({ s with note }, .error e)

def encodeRecords : List Record → List Record × Outcome Unit
  | [] => ([], .ok ())
  | r :: rs =>
    if r.code.isSome then
      let (rs', result) := encodeRecords rs
      (r :: rs', result)
    else
      match r.body.encode with
      | .error e => (r :: rs, .error e)
      | .ok code =>
        let (rs', result) := encodeRecords rs
        ({ r with code := some code } :: rs', result)

def assemble (s : Session) : Session × Outcome Unit :=
  match encodeRecords s.records with
  | (rs, .ok ()) => ({ s with records := rs, assembled := true }, .ok ())
  | (rs, .error e) => ({ s with records := rs }, .error e)

def assembledThen {α : Type} (s : Session) (f : Session → α) : Session × Outcome α :=
  if s.assembled then (s, .ok (f s))
  else
    match s.assemble with
    | (s, .ok ()) => (s, .ok (f s))
    | (s, .error e) => (s, .error e)

def words (s : Session) : Session × Outcome (List Word) :=
  s.assembledThen fun s => s.records.flatMap Record.words

def verilog (s : Session) (o : ExportOptions) : Session × Outcome String :=
  s.assembledThen fun s => Export.verilog o s.records

def cProgram (s : Session) (name : String) (o : ExportOptions) : Session × Outcome String :=
  s.assembledThen fun s => Export.cProgram name o s.config s.records

inductive Action
  | call (c : Call)
  | note (text : String)
  | setup (p : Params)
  | reset
  | assemble
  | words
  | verilog (o : ExportOptions)
  | cProgram (name : String) (o : ExportOptions)
  deriving DecidableEq, Repr

inductive Reply
  | done
  | appended (n : Nat)
  | words (ws : List Word)
  | text (s : String)
  deriving DecidableEq, Repr

def perform (s : Session) : Action → Session × Outcome Reply
  | .call c => let (s, r) := s.issue c; (s, Reply.appended <$> r)
  | .note text => (s.withNote text, .ok .done)
  | .setup p => let (s, r) := s.setup p; (s, (fun _ => Reply.done) <$> r)
  | .reset => (s.reset, .ok .done)
  | .assemble => let (s, r) := s.assemble; (s, (fun _ => Reply.done) <$> r)
  | .words => let (s, r) := s.words; (s, Reply.words <$> r)
  | .verilog o => let (s, r) := s.verilog o; (s, Reply.text <$> r)
  | .cProgram name o => let (s, r) := s.cProgram name o; (s, Reply.text <$> r)

end Session

end PimAsm
