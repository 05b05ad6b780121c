import Mathlib
import PimAsm.Program.Session
import PimAsm.Proofs.Outcome

/-! Encoding as a program grows gives what encoding it at once gives: the codes that records keep are their own, and
the words depend only on the calls since the program was last empty. Nothing here asks for a valid configuration. -/

namespace PimAsm

namespace Call

variable {c : Config} {n m : Option String} {α β : Type}

/-- The bodies of records, each beside what `view` makes of its code; or how there are no records. -/
def outline (view : Option (List SubWord) → β) (x : Outcome (List Record)) : Outcome (List (Body × β)) :=
  List.map (fun r => (r.body, view r.code)) <$> x

def emitted (c : Config) (call : Call) : List Body :=
  match call.records c none with
  | .ok rs => rs.map Record.body
  | .error _ => []

variable {view view' : Option (List SubWord) → β}

lemma outline_bind (x : Outcome α) (f : α → Outcome (List Record)) :
    outline view (x >>= f) = x >>= fun a => outline view (f a) :=
  map_bind _ _ _

lemma outline_accumRow (comment : String) (reg : ℕ) (levels : List ℕ) :
    outline view (levels.mapM (accumRowRecord c comment reg)) =
      levels.mapM fun level => (fun o => (Body.gemv o, view none)) <$> c.gemv.accumRow level reg := by
  induction levels with
  | nil => rfl
  | cons level levels ih =>
    rw [List.mapM_cons, List.mapM_cons, ← ih, accumRowRecord]
    simp only [outline, gemvRecord, map_bind, bind_map_left, bind_assoc, pure_bind, map_pure, List.map]

lemma outline_accum (comment : String) (rd rs : ℕ) (levels : Outcome ℕ) :
    outline view (accumRecords c comment rd rs levels) = (do
      let ops ← (Gemv.Macro.blockAccum rd rs).expand c.gemv
      let rest ← (List.range (← levels)).mapM fun level =>
        (fun o => (Body.gemv o, view none)) <$> c.gemv.accumRow level rd
      return (.gemvMacro (.blockAccum rd rs) ops, view none) :: rest) := by
  simp only [← outline_accumRow comment]
  simp only [outline, accumRecords, gemvMacroRecord, macroRecord, map_bind, bind_map_left, bind_assoc, pure_bind,
    map_pure, List.map]

/-- A note shows in the comments of the records only, and no record comes with code. -/
lemma outline_records (view view' : Option (List SubWord) → β) (h : view none = view' none) (call : Call) :
    outline view (call.records c n) = outline view' (call.records c m) := by
  cases call with
  | mvRangeAccum | mvAllAccum =>
    simp only [records, rangeAccumRecords, allAccumRecords, outline_bind, outline_accum, h]
  | comment => exact congrArg (fun x => Except.ok [(Body.comment, x)]) h
  | _ =>
    simp only [records, single, gemvRecord, vvRecord, checked, macroRecord, gemvMacroRecord, vvMacroRecord,
      multFxpRecords, clearedRecords, gemvLoadRecords, loadMatRecords, loadVecRowRecords, loadVecColRecords,
      vvLoadVecRecords, outline, map_bind, bind_assoc, pure_bind, map_pure, List.map, h]

lemma outline_of_records {call : Call} {rs : List Record} (h : call.records c n = .ok rs) :
    rs.map (fun r => (r.body, r.code)) = (call.emitted c).map fun b => (b, none) := by
  have ho := outline_records (c := c) (n := n) (m := none) id (fun _ => none) rfl call
  rw [h] at ho
  cases hr : call.records c none with
  | error e =>
    rw [hr] at ho
    cases ho
  | ok rs' =>
    rw [hr] at ho
    rw [emitted, hr, List.map_map]
    exact Except.ok.inj ho

lemma bodies_of_records {call : Call} {rs : List Record} (h : call.records c n = .ok rs) :
    rs.map Record.body = call.emitted c := by
  simpa [Function.comp_def] using congrArg (List.map Prod.fst) (outline_of_records h)

lemma code_of_records {call : Call} {rs : List Record} (h : call.records c n = .ok rs) {r : Record} (hr : r ∈ rs) :
    r.code = none := by
  have hm : (r.body, r.code) ∈ (call.emitted c).map fun b => (b, none) :=
    outline_of_records h ▸ List.mem_map_of_mem hr
  obtain ⟨b, -, hb⟩ := List.mem_map.mp hm
  exact (congrArg Prod.snd hb).symm

lemma emitted_of_error {call : Call} {e : Halt} (h : call.records c n = .error e) : call.emitted c = [] := by
  have ho := outline_records (c := c) (n := n) (m := none) id id rfl call
  rw [h] at ho
  rw [emitted]
  cases hr : call.records c none with
  | error _ => rfl
  | ok rs =>
    rw [hr] at ho
    cases ho

end Call

namespace Body

def wordsOf (b : Body) (ws : List SubWord) : List Word := b.engine?.elim [] fun e => ws.map (·.word e)

def words (b : Body) : Outcome (List Word) := b.wordsOf <$> b.encode

def program (bs : List Body) : Outcome (List Word) := List.flatten <$> bs.mapM words

end Body

namespace Record

/-- The code of a record, once there is one, is that of its own instructions. -/
def Coded (r : Record) : Prop := ∀ ws, r.code = some ws → r.body.encode = .ok ws

lemma Coded.words_eq {r : Record} (h : r.Coded) (hs : r.code.isSome) : r.body.words = .ok r.words := by
  obtain ⟨ws, hw⟩ := Option.isSome_iff_exists.mp hs
  rw [Body.words, h ws hw, Outcome.map_ok, Record.words, hw, Body.wordsOf]
  cases r.body.engine? <;> rfl

end Record

namespace Session

structure Encodes (rs rs' : List Record) (result : Outcome Unit) : Prop where
  bodies : rs'.map Record.body = rs.map Record.body
  coded : ∀ r ∈ rs', r.Coded
  complete : result = .ok () → ∀ r ∈ rs', r.code.isSome
  result : result = (fun _ => ()) <$> (rs.map Record.body).mapM Body.words

lemma Encodes.cons {r r' : Record} {rs rs' : List Record} {result : Outcome Unit} (h : Encodes rs rs' result)
    (hb : r'.body = r.body) (hc : r'.Coded) (hs : r'.code.isSome) : Encodes (r :: rs) (r' :: rs') result where
  bodies := by rw [List.map_cons, List.map_cons, hb, h.bodies]
  coded := List.forall_mem_cons.mpr ⟨hc, h.coded⟩
  complete ho := List.forall_mem_cons.mpr ⟨hs, h.complete ho⟩
  result := by
    rw [h.result, List.map_cons, List.mapM_cons, ← hb, hc.words_eq hs]
    cases (rs.map Record.body).mapM Body.words <;> rfl

lemma Encodes.program_error {rs rs' : List Record} {e : Halt} (h : Encodes rs rs' (.error e)) :
    Body.program (rs.map Record.body) = .error e := by
  have hr := h.result
  rw [Body.program]
  rcases hm : (rs.map Record.body).mapM Body.words with e' | wss <;> rw [hm] at hr <;> cases hr
  rfl

lemma encodeRecords_encodes {rs : List Record} (h : ∀ r ∈ rs, r.Coded) :
    Encodes rs (encodeRecords rs).1 (encodeRecords rs).2 := by
  induction rs with
  | nil => exact ⟨rfl, by simp [encodeRecords], by simp [encodeRecords], rfl⟩
  | cons r rs ih =>
    have hr := h r (by simp)
    have ht := ih fun r hr => h r (by simp [hr])
    rw [encodeRecords]
    split_ifs with hs
    · exact ht.cons rfl hr hs
    · cases he : r.body.encode with
      | ok ws =>
        refine ht.cons rfl (fun us hu => ?_) rfl
        cases hu
        exact he
      | error e =>
        -- the records after the first failure keep what code they have
        refine ⟨rfl, h, nofun, ?_⟩
        rw [List.map_cons, List.mapM_cons, Body.words, he]
        rfl

structure Coherent (s : Session) : Prop where
  coded : ∀ r ∈ s.records, r.Coded
  assembled : s.assembled = true → ∀ r ∈ s.records, r.code.isSome

/-- The program of `s` with more or less of it encoded. -/
structure SameProgram (s s' : Session) : Prop where
  coherent : s'.Coherent
  config : s'.config = s.config
  bodies : s'.records.map Record.body = s.records.map Record.body

variable {s : Session}

lemma Coherent.new (c : Config) : (new c).Coherent := ⟨by simp [Session.new], by simp [Session.new]⟩

namespace Coherent

lemma words_of_complete (h : s.Coherent) (hs : ∀ r ∈ s.records, r.code.isSome) :
    Body.program (s.records.map Record.body) = .ok (s.records.flatMap Record.words) := by
  have hm : (s.records.map Record.body).mapM Body.words = .ok (s.records.map Record.words) := by
    rw [List.mapM_map]
    exact Outcome.mapM_of_forall fun r hr => (h.coded r hr).words_eq (hs r hr)
  rw [Body.program, hm, Outcome.map_ok, List.flatMap]

lemma assemble_cases (h : s.Coherent) :
    (∃ s', s.assemble = (s', .ok ()) ∧ SameProgram s s' ∧ ∀ r ∈ s'.records, r.code.isSome) ∨
      ∃ s' e, s.assemble = (s', .error e) ∧ SameProgram s s' ∧ Body.program (s.records.map Record.body) = .error e := by
  have he := encodeRecords_encodes h.coded
  unfold assemble
  rcases hr : encodeRecords s.records with ⟨rs, e | _⟩ <;> rw [hr] at he
  · have hp : Body.program (s.records.map Record.body) = .error e := he.program_error
    -- a failed encoding leaves the flag as it was, so the flag must have been off
    have ha : ¬ s.assembled = true := fun ha => by simp [h.words_of_complete (h.assembled ha)] at hp
    exact Or.inr ⟨_, e, rfl, ⟨⟨he.coded, fun h => absurd h ha⟩, rfl, he.bodies⟩, hp⟩
  · exact Or.inl ⟨_, rfl, ⟨⟨he.coded, fun _ => he.complete rfl⟩, rfl, he.bodies⟩, he.complete rfl⟩

lemma assemble (h : s.Coherent) : SameProgram s s.assemble.1 := by
  rcases h.assemble_cases with ⟨s', hs, hp, -⟩ | ⟨s', e, hs, hp, -⟩ <;> rwa [hs]

lemma assembledThen {α : Type} (h : s.Coherent) (f : Session → α) : SameProgram s (s.assembledThen f).1 := by
  unfold Session.assembledThen
  split_ifs with ha
  · exact ⟨h, rfl, rfl⟩
  · rcases h.assemble_cases with ⟨s', hs, hp, -⟩ | ⟨s', e, hs, hp, -⟩ <;> rwa [hs]

lemma words_eq (h : s.Coherent) : s.words.2 = Body.program (s.records.map Record.body) := by
  unfold words Session.assembledThen
  split_ifs with ha
  · rw [h.words_of_complete (h.assembled ha)]
  · rcases h.assemble_cases with ⟨s', hs, hp, hall⟩ | ⟨s', e, hs, -, he⟩
    · rw [hs, ← hp.bodies, hp.coherent.words_of_complete hall]
    · rw [hs, he]

end Coherent

lemma config_issue (s : Session) (call : Call) : (s.issue call).1.config = s.config := by
  unfold issue
  cases call.records s.config s.note <;> rfl

lemma bodies_issue (s : Session) (call : Call) :
    (s.issue call).1.records.map Record.body = s.records.map Record.body ++ call.emitted s.config := by
  unfold issue
  cases hr : call.records s.config s.note with
  | error e => simp [Call.emitted_of_error hr]
  | ok rs => simp [Call.bodies_of_records hr]

lemma Coherent.issue (h : s.Coherent) (call : Call) : (s.issue call).1.Coherent := by
  unfold Session.issue
  cases hr : call.records s.config s.note with
  | error e => exact ⟨h.coded, h.assembled⟩
  | ok rs =>
    refine ⟨fun r hm => ?_, nofun⟩
    rcases List.mem_append.mp hm with hm | hm
    · exact h.coded r hm
    · intro ws hw
      cases (Call.code_of_records hr hm).symm.trans hw

lemma setup_cases (s : Session) (p : Params) : (∃ c, s.setup p = (new c, .ok ())) ∨ ∃ e, s.setup p = (s, .error e) := by
  unfold setup
  split_ifs with he
  · cases hp : ofParams p with
    | error e => exact Or.inr ⟨e, rfl⟩
    | ok s' =>
      obtain ⟨c, -, hc⟩ := Outcome.bind_eq_ok.mp hp
      cases hc
      exact Or.inl ⟨c, rfl⟩
  · exact Or.inr ⟨_, rfl⟩

/-- A session together with the calls made on it since its program was last empty. -/
structure History where
  session : Session
  calls : List Call

namespace History

def start (c : Config) : History := ⟨new c, []⟩

/-- The calls to remember after an action: a reset and a setup that goes through forget them all. -/
def callsAfter (h : History) : Action → List Call
  | .call call => h.calls ++ [call]
  | .setup p => if (h.session.setup p).2 = .ok () then [] else h.calls
  | .reset => []
  | .note _ | .assemble | .words | .verilog _ | .cProgram _ _ => h.calls

def perform (h : History) (a : Action) : History := ⟨(h.session.perform a).1, h.callsAfter a⟩

def run (h : History) (as : List Action) : History := as.foldl perform h

/-- The program holds what the remembered calls append. -/
structure Faithful (h : History) : Prop where
  coherent : h.session.Coherent
  bodies : h.session.records.map Record.body = h.calls.flatMap (Call.emitted h.session.config)

variable {h : History}

lemma Faithful.start (c : Config) : (start c).Faithful := ⟨.new c, rfl⟩

lemma Faithful.of_sameProgram (hf : h.Faithful) {s : Session} (hs : SameProgram h.session s) :
    (⟨s, h.calls⟩ : History).Faithful := ⟨hs.coherent, by rw [hs.bodies, hf.bodies, hs.config]⟩

lemma Faithful.issue (hf : h.Faithful) (call : Call) :
    (⟨(h.session.issue call).1, h.calls ++ [call]⟩ : History).Faithful := by
  refine ⟨hf.coherent.issue call, ?_⟩
  rw [bodies_issue, hf.bodies, config_issue, List.flatMap_append, List.flatMap_singleton]

lemma Faithful.setup (hf : h.Faithful) (p : Params) : (h.perform (.setup p)).Faithful := by
  rcases setup_cases h.session p with ⟨c, hs⟩ | ⟨e, hs⟩
  · have he : h.perform (.setup p) = History.start c := by
      simp [perform, callsAfter, Session.perform, hs, History.start]
    rw [he]
    exact .start c
  · have he : h.perform (.setup p) = h := by simp [perform, callsAfter, Session.perform, hs]
    rwa [he]

lemma Faithful.perform (hf : h.Faithful) (a : Action) : (h.perform a).Faithful := by
  cases a with
  | call call => exact hf.issue call
  | note text => exact ⟨⟨hf.coherent.coded, hf.coherent.assembled⟩, hf.bodies⟩
  | setup p => exact hf.setup p
  | reset => exact .start _
  | assemble => exact hf.of_sameProgram hf.coherent.assemble
  | words => exact hf.of_sameProgram (hf.coherent.assembledThen fun s => s.records.flatMap Record.words)
  | verilog o => exact hf.of_sameProgram (hf.coherent.assembledThen fun s => Export.verilog o s.records)
  | cProgram name o =>
    exact hf.of_sameProgram (hf.coherent.assembledThen fun s => Export.cProgram name o s.config s.records)

lemma Faithful.run (hf : h.Faithful) (as : List Action) : (h.run as).Faithful := by
  induction as generalizing h with
  | nil => exact hf
  | cons a as ih => exact ih (hf.perform a)

end History

def replay (c : Config) (calls : List Call) : Session := calls.foldl (fun s call => (s.issue call).1) (new c)

lemma replay_spec (c : Config) (calls : List Call) :
    (replay c calls).config = c ∧ History.Faithful ⟨replay c calls, calls⟩ := by
  -- calls are made from the left, so the last one is split off
  induction calls using List.reverseRecOn with
  | nil => exact ⟨rfl, .start c⟩
  | append_singleton calls call ih =>
    rw [replay, List.foldl_append]
    exact ⟨(config_issue _ call).trans ih.1, ih.2.issue call⟩

theorem words_replay (c : Config) (actions : List Action) :
    let h := (History.start c).run actions
    (∀ r ∈ h.session.records, ∀ ws, r.code = some ws → r.body.encode = .ok ws) ∧
      (h.session.assembled = true → ∀ r ∈ h.session.records, r.code.isSome) ∧
      h.session.words.2 = (replay h.session.config h.calls).words.2 := by
  intro h
  have hf : h.Faithful := (History.Faithful.start c).run actions
  obtain ⟨hg, hr⟩ := replay_spec h.session.config h.calls
  refine ⟨hf.coherent.coded, hf.coherent.assembled, ?_⟩
  rw [hf.coherent.words_eq, hr.coherent.words_eq, hf.bodies, hr.bodies, hg]

end Session

end PimAsm
