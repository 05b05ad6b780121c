import Mathlib
import PimAsm.Program.Session
import PimAsm.Proofs.Program.Records

/-! The sessions that actions lead to can always be encoded, and their words decode to the instructions of the
records. -/

namespace PimAsm

namespace Record

def encoded (r : Record) : Record := { r with code := some (r.body.instrs.map Instr.subWord) }

/-- What holds of a record from its call on, encoded or not. -/
structure Sound (r : Record) : Prop where
  fits : ∀ i ∈ r.body.instrs, i.Fits
  source : Text.OneLine r.source
  coded : r.code = none ∨ r.encoded = r

variable {r : Record}

lemma Issued.sound {p : Gemv.Limits} {n : ℕ} (hp : p.Valid) (hn : n ≤ 64) (h : r.Issued p n) : r.Sound :=
  ⟨fun i hi => (h.within i hi).fits hp hn, h.source, .inl h.fresh⟩

lemma Sound.encoded (h : r.Sound) : r.encoded.Sound := ⟨h.fits, h.source, .inr rfl⟩

lemma Sound.encode_eq (h : r.Sound) : r.body.encode = .ok (r.body.instrs.map Instr.subWord) := by
  rw [Body.encode_eq_mapM]
  exact Outcome.mapM_of_forall fun i hi => Instr.encode_eq_ok.mpr ⟨h.fits i hi, rfl⟩

lemma segments_encoded (r : Record) :
    r.encoded.segments = r.body.instrs.map fun i => i.subWord.fullSegments i.engine := by
  have hs (e : Engine) {is : List Instr} (hi : ∀ i ∈ is, i.engine = e) :
      (is.map Instr.subWord).map (·.fullSegments e) = is.map fun i => i.subWord.fullSegments i.engine := by
    rw [List.map_map]
    refine List.map_congr_left fun i h => ?_
    rw [Function.comp, hi i h]
  cases hb : r.body with
  | comment => simp [segments, Record.encoded, hb, Body.engine?, Body.instrs]
  | gemv op | gemvMacro mac ops =>
    simp only [segments, Record.encoded, hb, Body.engine?]
    exact hs .gemv (by simp [Body.instrs, Instr.engine])
  | vv op | vvMacro mac ops =>
    simp only [segments, Record.encoded, hb, Body.engine?]
    exact hs .vv (by simp [Body.instrs, Instr.engine])

lemma words_eq (r : Record) : r.words = r.segments.map fun segs => BitVec.ofNat 32 (Segment.pack segs) := by
  rw [words, segments]
  cases r.body.engine? <;> cases r.code <;> simp [SubWord.word]

lemma words_encoded (r : Record) : r.encoded.words = r.body.instrs.map Instr.word := by
  rw [words_eq, segments_encoded, List.map_map]
  rfl

end Record

namespace Session

/-- Sessions that actions lead to, whether the actions succeed or fail. -/
inductive Reachable : Session → Prop
  | fresh : Reachable new
  | params {p : Params} {s : Session} (h : ofParams p = .ok s) : Reachable s
  | perform {s : Session} (hs : Reachable s) (a : Action) : Reachable (s.perform a).1

structure Sound (s : Session) : Prop where
  config : s.config.Valid
  records : ∀ r ∈ s.records, r.Sound
  assembled : s.assembled = true → ∀ r ∈ s.records, r.encoded = r

def finished (s : Session) : Session := { s with records := s.records.map Record.encoded, assembled := true }

variable {s : Session}

lemma encodeRecords_eq {rs : List Record} (h : ∀ r ∈ rs, r.Sound) :
    encodeRecords rs = (rs.map Record.encoded, .ok ()) := by
  induction rs with
  | nil => rfl
  | cons r rs ih =>
    have hr := h r (by simp)
    have ht := ih fun r hr => h r (by simp [hr])
    rcases hr.coded with hc | hc
    · simp [encodeRecords, hc, hr.encode_eq, ht, Record.encoded]
    · have hs : r.code.isSome := by rw [← hc]; rfl
      simp [encodeRecords, hs, ht, hc]

namespace Sound

lemma assemble_eq (h : s.Sound) : s.assemble = (s.finished, .ok ()) := by
  rw [assemble, encodeRecords_eq h.records, finished]

lemma finished_eq (h : s.Sound) (ha : s.assembled = true) : s.finished = s := by
  have hm : s.records.map Record.encoded = s.records := by
    conv_rhs => rw [← List.map_id s.records]
    exact List.map_congr_left (h.assembled ha)
  rw [finished, hm, ← ha]

lemma assembledThen_eq {α : Type} (h : s.Sound) (f : Session → α) :
    s.assembledThen f = (s.finished, .ok (f s.finished)) := by
  by_cases ha : s.assembled = true
  · rw [assembledThen, if_pos ha, h.finished_eq ha]
  · rw [assembledThen, if_neg ha, h.assemble_eq]

lemma words_eq (h : s.Sound) :
    s.words = (s.finished, .ok ((s.records.flatMap (·.body.instrs)).map Instr.word)) := by
  have hw : s.finished.records.flatMap Record.words = (s.records.flatMap (·.body.instrs)).map Instr.word := by
    rw [finished, List.flatMap_map, List.map_flatMap]
    exact List.flatMap_congr fun r _ => r.words_encoded
  rw [words, h.assembledThen_eq, hw]

lemma finished (h : s.Sound) : s.finished.Sound where
  config := h.config
  records := by
    intro r hr
    obtain ⟨q, hq, rfl⟩ := List.mem_map.mp hr
    exact (h.records q hq).encoded
  assembled := by
    intro _ r hr
    obtain ⟨q, _, rfl⟩ := List.mem_map.mp hr
    rfl

lemma new {c : Config} (h : c.Valid) : (Session.new c).Sound := ⟨h, by simp [Session.new], by simp [Session.new]⟩

lemma ofParams {p : Params} (h : Session.ofParams p = .ok s) : s.Sound := by
  simp only [Session.ofParams, Outcome.bind_eq_ok, Outcome.pure_eq, Except.ok.injEq] at h
  obtain ⟨c, hc, rfl⟩ := h
  exact new (Params.validate_valid hc)

lemma setup (h : s.Sound) (p : Params) : (s.setup p).1.Sound := by
  unfold Session.setup
  split_ifs with he
  · cases hp : Session.ofParams p with
    | error e => exact h
    | ok s' => exact ofParams hp
  · exact h

lemma issue (h : s.Sound) (call : Call) : (s.issue call).1.Sound := by
  unfold Session.issue
  cases hr : call.records s.config s.note with
  | error e =>
    -- a failed call may drop the note, which no part of the invariant reads
    exact ⟨h.config, h.records, h.assembled⟩
  | ok rs =>
    refine ⟨h.config, fun r hm => ?_, by simp⟩
    rcases List.mem_append.mp hm with hm | hm
    · exact h.records r hm
    · have hn := (call.reach_le h.config.gemv).trans (by decide : 62 ≤ 64)
      exact ((Call.records_appends h.config hr r hm).issued h.config).sound h.config.gemv hn

lemma perform (h : s.Sound) (a : Action) : (s.perform a).1.Sound := by
  cases a with
  | call call => exact h.issue call
  | note text => exact ⟨h.config, h.records, h.assembled⟩
  | setup p => exact h.setup p
  | reset => exact new h.config
  | assemble =>
    simp only [Session.perform, h.assemble_eq]
    exact h.finished
  | words | verilog o | cProgram name o =>
    simp only [Session.perform, Session.words, verilog, cProgram, h.assembledThen_eq]
    exact h.finished

lemma fits (h : s.Sound) : ∀ i ∈ s.records.flatMap (·.body.instrs), i.Fits := by
  intro i hi
  obtain ⟨r, hr, hm⟩ := List.mem_flatMap.mp hi
  exact (h.records r hr).fits i hm

end Sound

lemma Reachable.sound (h : s.Reachable) : s.Sound := by
  induction h with
  | fresh => exact Sound.new Config.default_valid
  | params h => exact Sound.ofParams h
  | perform _ a ih => exact ih.perform a

theorem words_decode (h : s.Reachable) :
    s.assemble.2 = .ok () ∧
      ∃ ws, s.words.2 = .ok ws ∧ ws.mapM Word.decode = .ok (s.records.flatMap (·.body.instrs)) := by
  have hs := h.sound
  refine ⟨by rw [hs.assemble_eq], _, by rw [hs.words_eq], ?_⟩
  have hd : ∀ i ∈ s.records.flatMap (·.body.instrs), (Word.decode ∘ Instr.word) i = .ok (id i) := fun i hi =>
    Instr.decode_word (hs.fits i hi)
  rw [List.mapM_map, Outcome.mapM_of_forall hd, List.map_id]

/-- A product that is encoded before a comment and a selection of the vector engine follow. -/
theorem words_decode_product :
    let s := ((((new.perform (.call (.mvMult 4 2 3))).1.perform .words).1.perform (.call (.comment "sum"))).1.perform
      (.call (.vvSelectBlk 3))).1
    let ws : List Word := [0x20000000, 0x0C040083, 0x0C440083, 0x0C840083, 0x0CC40083, 0x0D040083, 0x0D440083,
      0x0D840083, 0x0DC40083, 0x0E040083, 0x0E440083, 0x0E840083, 0x0EC40083, 0x0F040083, 0x0F440083, 0x0F840083,
      0x0FC40083, 0x58000300]
    s.Reachable ∧ s.assemble.2 = .ok () ∧ s.words.2 = .ok ws ∧
      ws.mapM Word.decode = .ok (.gemv .clrMbit ::
        ([0, 1, 2, 3, 4, 5, 6, 7, 8, 9, 10, 11, 12, 13, 14, 15].map fun bit => .gemv (.updatePp bit 4 2 3)) ++
        [.vv (.selectBlk 3)]) := by
  intro s ws
  have h : s.Reachable := (((Reachable.fresh.perform _).perform _).perform _).perform _
  have hw : s.words.2 = .ok ws := by decide
  obtain ⟨ha, ws', hw', hd⟩ := words_decode h
  cases hw.symm.trans hw'
  exact ⟨h, ha, hw, hd⟩

end Session

end PimAsm
