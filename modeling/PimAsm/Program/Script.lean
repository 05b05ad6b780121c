import PimAsm.Program.Session
import PimAsm.Program.Step

namespace PimAsm

namespace Session

/-- Issues the call of a step with its note. A comment takes no note. -/
def step (s : Session) (st : Step) : Session × Outcome Nat :=
  let s := match st.note with
    | some note => if st.call.keepsNote then s else s.withNote note
    | none => s
  s.issue st.call

def run : List Step → Session → Session × Outcome Nat
  | [], s => (s, .ok 0)
  | st :: sts, s =>
    match s.step st with
    | (s, .error e) => (s, .error e)
    | (s, .ok n) =>
      let (s, rest) := run sts s
      (s, (n + ·) <$> rest)

end Session

structure Script where
  params : Option Params := none
  steps : List Step := []
  deriving DecidableEq, Repr

namespace Script

def keys : List String := ["params", "program"]

/-- Fields with other keys are ignored, whatever their depth. -/
def ofFields? (fields : List (String × Json)) : Option Script := do
  let known := fields.filter fun f => keys.contains f.1
  guard ((Json.object known).fits Json.depthLimit)
  let params ← Json.fieldOr? none (Json.optional? Params.ofJson?) "params" known
  let steps ← Json.fieldOr? [] (Json.listOf? Step.ofJson?) "program" known
  some ⟨params, steps⟩

def ofJson? : Json → Option Script
  | .object fields => ofFields? fields
  | .list items => if items.length ≤ keys.length then ofFields? (keys.zip items) else none
  | _ => none

def read (text : String) : Except Json.Place Script := Json.readWith ofJson? text

def toJson (sc : Script) : Json :=
  .object [("params", sc.params.elim .null Params.toJson), ("program", .list (sc.steps.map Step.toJson))]

def build (sc : Script) : Outcome Session := do
  let s ← Session.ofParams (sc.params.getD {})
  match s.run sc.steps with
  | (s, .ok _) => .ok s
  | (_, .error e) => .error e

end Script

end PimAsm
