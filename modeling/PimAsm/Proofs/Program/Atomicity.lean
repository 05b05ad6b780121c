import Mathlib
import PimAsm.Proofs.Program.Replay

/-! Calls are all or nothing, and a note goes to one call: the next that is not a comment, whether it succeeds or
fails. -/

namespace PimAsm

namespace Call

variable {c : Config} {n m : Option String} {call : Call}

lemma records_ne_nil (c : Config) (n : Option String) (call : Call) : call.records c n ≠ .ok [] := by
  cases call <;>
    simp [records, single, checked, multFxpRecords, rangeAccumRecords, allAccumRecords, accumRecords, loadMatRecords,
      loadVecRowRecords, loadVecColRecords, gemvLoadRecords, vvLoadVecRecords, clearedRecords]

lemma records_of_keepsNote (h : call.keepsNote = true) (n m : Option String) : call.records c n = call.records c m := by
  cases call with
  | comment text => rfl
  | _ => cases h

lemma keepsNote_of_error {e : Halt} (h : call.records c n = .error e) : call.keepsNote = false := by
  cases call with
  | comment text => cases h
  | _ => rfl

end Call

def Record.bare (r : Record) : Record := { r with code := none }

namespace Session

variable {s s' : Session}

lemma issue_of_ok {call : Call} {rs : List Record} (h : call.records s.config s.note = .ok rs) :
    s.issue call = ({ s with
      records := s.records ++ rs, assembled := false, note := if call.keepsNote then s.note else none },
      .ok rs.length) := by
  rw [issue, h]

lemma issue_of_error {call : Call} {e : Halt} (h : call.records s.config s.note = .error e) :
    s.issue call = ({ s with note := none }, .error e) := by
  simp [issue, h, Call.keepsNote_of_error h]

/-- Sessions whose programs differ in annotations and in what is encoded. -/
structure Alike (s s' : Session) : Prop where
  config : s'.config = s.config
  bodies : s'.records.map Record.body = s.records.map Record.body

namespace Alike

lemma refl (s : Session) : Alike s s := ⟨rfl, rfl⟩

lemma symm (h : Alike s s') : Alike s' s := ⟨h.config.symm, h.bodies.symm⟩

lemma trans {t : Session} (h : Alike s s') (h' : Alike s' t) : Alike s t :=
  ⟨h'.config.trans h.config, h'.bodies.trans h.bodies⟩

lemma length_eq (h : Alike s s') : s'.records.length = s.records.length := by
  simpa using congrArg List.length h.bodies

end Alike

/-- The same session with more of it encoded. -/
structure Recoded (s s' : Session) : Prop where
  config : s'.config = s.config
  note : s'.note = s.note
  records : s'.records.map Record.bare = s.records.map Record.bare

namespace Recoded

lemma refl (s : Session) : Recoded s s := ⟨rfl, rfl, rfl⟩

lemma map_eq (h : Recoded s s') {β : Type} {view : Record → β} (hv : ∀ r, view r.bare = view r) :
    s'.records.map view = s.records.map view := by
  simpa [Function.comp_def, hv] using congrArg (List.map view) h.records

lemma alike (h : Recoded s s') : Alike s s' := ⟨h.config, h.map_eq fun _ => rfl⟩

end Recoded

lemma bare_encodeRecords (rs : List Record) : (encodeRecords rs).1.map Record.bare = rs.map Record.bare := by
  induction rs with
  | nil => rfl
  | cons r rs ih =>
    rw [encodeRecords]
    split_ifs
    · simp [ih]
    · cases r.body.encode <;> simp [ih, Record.bare]

lemma assemble_recoded (s : Session) : Recoded s s.assemble.1 := by
  have hb := bare_encodeRecords s.records
  unfold assemble
  rcases he : encodeRecords s.records with ⟨rs, e | _⟩ <;> rw [he] at hb <;> exact ⟨rfl, rfl, hb⟩

lemma assembledThen_recoded {α : Type} (s : Session) (f : Session → α) : Recoded s (s.assembledThen f).1 := by
  have hk := s.assemble_recoded
  unfold assembledThen
  split_ifs
  · exact .refl s
  · rcases he : s.assemble with ⟨t, e | _⟩ <;> rwa [he] at hk

def Action.encodes : Action → Bool
  | .assemble | .words | .verilog _ | .cProgram _ _ => true
  | _ => false

lemma perform_recoded (s : Session) {a : Action} (ha : a.encodes = true) : Recoded s (s.perform a).1 := by
  cases a with
  | assemble => exact s.assemble_recoded
  | words => exact s.assembledThen_recoded fun s => s.records.flatMap Record.words
  | verilog o => exact s.assembledThen_recoded fun s => Export.verilog o s.records
  | cProgram name o => exact s.assembledThen_recoded fun s => Export.cProgram name o s.config s.records
  | _ => cases ha

namespace Alike

lemma issue (h : Alike s s') (call : Call) : Alike (s.issue call).1 (s'.issue call).1 where
  config := by rw [config_issue, config_issue, h.config]
  bodies := by rw [bodies_issue, bodies_issue, h.bodies, h.config]

lemma isEmpty_eq (h : Alike s s') : s'.records.isEmpty = s.records.isEmpty := by
  rw [Bool.eq_iff_iff, List.isEmpty_iff_length_eq_zero, List.isEmpty_iff_length_eq_zero, h.length_eq]

lemma perform (h : Alike s s') (a : Action) : Alike (s.perform a).1 (s'.perform a).1 := by
  cases a with
  | call call => exact h.issue call
  | note text => exact ⟨h.config, h.bodies⟩
  | setup p =>
    simp only [Session.perform, setup, h.isEmpty_eq]
    split_ifs
    · cases ofParams p with
      | error e => exact h
      | ok t => exact .refl t
    · exact h
  | reset => exact ⟨h.config, rfl⟩
  | assemble | words | verilog o | cProgram name o =>
    exact ((s.perform_recoded rfl).alike.symm.trans h).trans (s'.perform_recoded rfl).alike

end Alike

/-- Only a call that is not a comment puts a note into its records. -/
def Action.takesNote : Action → Bool
  | .call c => !c.keepsNote
  | _ => false

lemma note_issue (s : Session) (call : Call) :
    (s.issue call).1.note = if call.keepsNote then s.note else none := by
  unfold issue
  cases call.records s.config s.note <;> rfl

lemma Alike.note_perform (h : Alike s s') {a : Action} (hn : a.takesNote = true ∨ s'.note = s.note) :
    (s'.perform a).1.note = (s.perform a).1.note := by
  have hs : a.takesNote = false → s'.note = s.note := fun hf => hn.resolve_left (by simp [hf])
  cases a with
  | call call =>
    simp only [Session.perform, note_issue]
    split_ifs with hk
    · apply hs
      simp [Action.takesNote, hk]
    · rfl
  | note text | reset => rfl
  | setup p =>
    simp only [Session.perform, setup, h.isEmpty_eq]
    split_ifs
    · cases ofParams p with
      | error e => exact hs rfl
      | ok t => rfl
    · exact hs rfl
  | assemble | words | verilog o | cProgram name o =>
    rw [(s'.perform_recoded rfl).note, (s.perform_recoded rfl).note, hs rfl]

def fresh (s : Session) (a : Action) : List Record := (s.perform a).1.records.drop s.records.length

lemma fresh_call (s : Session) (call : Call) :
    s.fresh (.call call) = ((call.records s.config s.note).toOption.getD []) := by
  rw [fresh, perform]
  cases hr : call.records s.config s.note with
  | error e =>
    rw [issue_of_error hr]
    exact List.drop_length
  | ok rs =>
    rw [issue_of_ok hr]
    exact List.drop_left

lemma fresh_of_not_call {a : Action} (ha : ∀ call, a ≠ .call call) : s.fresh a = [] := by
  apply List.drop_eq_nil_of_le
  cases a with
  | call call => exact absurd rfl (ha call)
  | note text => exact le_rfl
  | setup p =>
    rcases s.setup_cases p with ⟨c, hs⟩ | ⟨e, hs⟩ <;> simp [perform, hs, new]
  | reset => exact Nat.zero_le _
  | assemble | words | verilog o | cProgram name o => exact (s.perform_recoded rfl).alike.length_eq.le

lemma Alike.fresh_eq (h : Alike s s') {a : Action} (hn : a.takesNote = false ∨ s'.note = s.note) :
    s'.fresh a = s.fresh a := by
  cases a with
  | call call =>
    rw [fresh_call, fresh_call, h.config]
    rcases hn with hk | hn
    · rw [Call.records_of_keepsNote (by simpa [Action.takesNote] using hk) s'.note s.note]
    · rw [hn]
  | _ => rw [fresh_of_not_call (by simp), fresh_of_not_call (by simp)]

def appended (s : Session) : List Action → List (List Record)
  | [] => []
  | a :: actions => s.fresh a :: appended (s.perform a).1 actions

lemma Alike.appended_eq (h : Alike s s') (hn : s'.note = s.note) (actions : List Action) :
    s'.appended actions = s.appended actions := by
  induction actions generalizing s s' with
  | nil => rfl
  | cons a actions ih => rw [appended, appended, h.fresh_eq (.inr hn), ih (h.perform a) (h.note_perform (.inr hn))]

lemma Alike.getElem?_appended (h : Alike s s') {actions : List Action} {i : ℕ}
    (hi : i ≠ actions.findIdx Action.takesNote) : (s'.appended actions)[i]? = (s.appended actions)[i]? := by
  -- the notes differ up to the first action that takes them and agree from there on
  induction actions generalizing s s' i with
  | nil => rfl
  | cons a actions ih =>
    rw [appended, appended]
    cases ht : a.takesNote with
    | true =>
      rw [List.findIdx_cons, ht] at hi
      obtain ⟨j, rfl⟩ := Nat.exists_eq_succ_of_ne_zero hi
      rw [List.getElem?_cons_succ, List.getElem?_cons_succ, (h.perform a).appended_eq (h.note_perform (.inl ht))]
    | false =>
      rw [List.findIdx_cons, ht] at hi
      cases i with
      | zero => rw [List.getElem?_cons_zero, List.getElem?_cons_zero, h.fresh_eq (.inl ht)]
      | succ j =>
        rw [List.getElem?_cons_succ, List.getElem?_cons_succ]
        apply ih (h.perform a)
        simpa using hi

theorem issue_atomic (s : Session) :
    (∀ call f, (s.issue call).2 = Outcome.fail f → (s.issue call).1 = { s with note := none }) ∧
    (∀ call n, (s.issue call).2 = .ok n → 1 ≤ n ∧ ∃ rs, rs.length = n ∧ (∀ r ∈ rs, r.code = none) ∧
      (s.issue call).1 = { s with
        records := s.records ++ rs, assembled := false, note := if call.keepsNote then s.note else none }) ∧
    ∀ note actions i, i ≠ actions.findIdx Action.takesNote →
      (appended { s with note := note } actions)[i]? = (s.appended actions)[i]? := by
  refine ⟨fun call f hf => ?_, fun call n hn => ?_, fun note actions i hi => ?_⟩
  · cases hr : call.records s.config s.note with
    | error e => rw [issue_of_error hr]
    | ok rs =>
      rw [issue_of_ok hr] at hf
      cases hf
  · cases hr : call.records s.config s.note with
    | error e =>
      rw [issue_of_error hr] at hn
      cases hn
    | ok rs =>
      rw [issue_of_ok hr] at hn ⊢
      cases hn
      have hne : rs ≠ [] := fun h0 => call.records_ne_nil s.config s.note (h0 ▸ hr)
      exact ⟨List.length_pos_of_ne_nil hne, rs, rfl, fun r => Call.code_of_records hr, rfl⟩
  · have ha : Alike s { s with note := note } := ⟨rfl, rfl⟩
    exact ha.getElem?_appended hi

theorem issue_atomic_noted :
    let s := new.withNote "seed"
    let actions := [Action.call (.comment "x"), .words, .call (.mvAdd 16 0 0), .call .mvNop]
    ((s.issue (.mvAdd 16 0 0)).2 = Outcome.fail (.register .gemv 16 16) ∧
      (s.issue (.mvAdd 16 0 0)).1 = { s with note := none }) ∧
    ((s.issue (.mvLoadVecRow 3 [])).2 = .ok 2 ∧ ∃ rs, rs.length = 2 ∧ (∀ r ∈ rs, r.code = none) ∧
      (s.issue (.mvLoadVecRow 3 [])).1 = { s with records := s.records ++ rs, assembled := false, note := none }) ∧
    (3 ≠ actions.findIdx Action.takesNote ∧ (s.appended actions)[3]? = (new.appended actions)[3]?) := by
  intro s actions
  obtain ⟨herr, hok, -⟩ := issue_atomic s
  have hf : (s.issue (.mvAdd 16 0 0)).2 = Outcome.fail (.register .gemv 16 16) := rfl
  have hn : (s.issue (.mvLoadVecRow 3 [])).2 = .ok 2 := by decide
  have hi : 3 ≠ actions.findIdx Action.takesNote := by decide
  exact ⟨⟨hf, herr _ _ hf⟩, ⟨hn, (hok _ 2 hn).2⟩, hi, (issue_atomic new).2.2 (some "seed") actions 3 hi⟩

end Session

end PimAsm
