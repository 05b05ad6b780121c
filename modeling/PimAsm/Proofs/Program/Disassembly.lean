import Mathlib
import PimAsm.Disassembly
import PimAsm.Proofs.Program.Safety

/-! Listings of the programs that a session assembles. Calls leave zero in the identifiers that a selection ignores, so
nothing is lost in the text of what they append, and two lines with the same text stand for the same word. -/

namespace PimAsm

namespace Gemv

variable {p : Limits} {op : Op}

lemma mem_writeNonzero {reg : ℕ} {select : Op} {image : List Row} {ops : List Op}
    (h : writeNonzero p reg select image = .ok ops) (ho : op ∈ ops) :
    op = select ∨ ∃ addr data, op = .write addr data := by
  simp only [writeNonzero, Outcome.bind_eq_ok, Outcome.pure_eq, Except.ok.injEq] at h
  obtain ⟨writes, hw, rfl⟩ := h
  split at ho
  · simp at ho
  · rcases List.mem_cons.mp ho with rfl | ho
    · exact Or.inl rfl
    · obtain ⟨r, -, hr⟩ := Outcome.mem_of_mapM hw ho
      obtain ⟨addr, -, ha⟩ := Outcome.bind_eq_ok.mp hr
      cases ha
      exact Or.inr ⟨addr, r.1, rfl⟩

lemma loadBlocks_shown {reg : ℕ} {select : ℕ → Outcome Op} {images : List (List Row)} {ops : List Op}
    (hs : ∀ i o, select i = .ok o → o.shown = o) (h : loadBlocks p reg select images = .ok ops) :
    ∀ op ∈ ops, op.shown = op := by
  simp only [loadBlocks, Outcome.bind_eq_ok, Outcome.pure_eq, Except.ok.injEq] at h
  obtain ⟨parts, hm, rfl⟩ := h
  intro op ho
  obtain ⟨part, hp, ho⟩ := List.mem_flatten.mp ho
  obtain ⟨t, -, ht⟩ := Outcome.mem_of_mapM hm hp
  obtain ⟨sel, hsel, hw⟩ := Outcome.bind_eq_ok.mp ht
  rcases mem_writeNonzero hw ho with rfl | ⟨addr, data, rfl⟩
  · exact hs _ _ hsel
  · rfl

namespace Macro

lemma expand_shown {m : Macro} {ops : List Op} (h : m.expand p = .ok ops) : ∀ op ∈ ops, op.shown = op := by
  cases m with
  | mult pp multiplicand multiplier =>
    simp only [expand, Outcome.bind_eq_ok, Outcome.pure_eq, Except.ok.injEq] at h
    obtain ⟨_, -, _, -, _, -, rfl⟩ := h
    simp only [List.mem_cons, List.mem_map]
    rintro op (rfl | ⟨bit, -, rfl⟩) <;> rfl
  | blockAccum rd rs =>
    simp only [expand, Outcome.bind_eq_ok, Outcome.pure_eq, Except.ok.injEq] at h
    obtain ⟨_, -, _, -, rfl⟩ := h
    simp only [List.mem_cons, List.mem_map]
    rintro op (rfl | ⟨fold, -, rfl⟩) <;> rfl
  | sync =>
    cases h
    simp [Op.shown]
  | clearReg reg =>
    simp only [expand, Outcome.collect_eq_mapM, Outcome.bind_eq_ok, Outcome.pure_eq, Except.ok.injEq] at h
    obtain ⟨writes, hw, rfl⟩ := h
    intro op ho
    rcases List.mem_cons.mp ho with rfl | ho
    · rfl
    · obtain ⟨bit, -, hb⟩ := Outcome.mem_of_mapM hw ho
      simp only [Outcome.bind_eq_ok, Except.ok.injEq] at hb
      obtain ⟨addr, -, rfl⟩ := hb
      rfl
  | loadMat reg matrix =>
    simp only [expand, Outcome.bind_eq_ok, Outcome.pure_eq, Except.ok.injEq] at h
    obtain ⟨images, -, parts, hm, rfl⟩ := h
    intro op ho
    obtain ⟨part, hp, ho⟩ := List.mem_flatten.mp ho
    obtain ⟨t, -, ht⟩ := Outcome.mem_of_mapM hm hp
    refine loadBlocks_shown (fun i o hs => ?_) ht op ho
    simp only [Outcome.bind_eq_ok, Except.ok.injEq] at hs
    obtain ⟨_, -, _, -, rfl⟩ := hs
    rfl
  | loadVecRow reg vector | loadVecCol reg vector =>
    obtain ⟨images, -, h⟩ := Outcome.bind_eq_ok.mp h
    refine loadBlocks_shown (fun i o hs => ?_) h
    obtain ⟨_, -, hs⟩ := Outcome.bind_eq_ok.mp hs
    cases hs
    rfl

end Macro

end Gemv

lemma Call.Appends.shown {c : Config} {note : Option String} {call : Call} {r : Record}
    (h : call.Appends c note r) : ∀ i ∈ r.body.instrs, i.shown = i := by
  cases h with
  | gemv _ shown => exact List.forall_mem_singleton.mpr (congrArg Instr.gemv shown)
  | gemvMacro expand =>
    exact List.forall_mem_map.mpr fun op ho => congrArg Instr.gemv (Gemv.Macro.expand_shown expand op ho)
  | vv => exact List.forall_mem_singleton.mpr rfl
  | vvMacro => exact List.forall_mem_map.mpr fun op _ => rfl
  | comment => exact List.forall_mem_nil _

namespace Disassembly

def numbered (k : ℕ) (is : List Instr) : List Line := (is.zipIdx k).map fun t => ⟨t.2, t.1.word, t.1⟩

lemma map_word_numbered (k : ℕ) (is : List Instr) : (numbered k is).map Line.word = is.map Instr.word := by
  rw [numbered, List.map_map]
  conv_rhs => rw [← List.zipIdx_map_fst k is, List.map_map]
  rfl

lemma linesFrom_words {is : List Instr} (h : ∀ i ∈ is, i.Fits) (k : ℕ) :
    linesFrom k (is.map Instr.word) = .ok (numbered k is) := by
  induction is generalizing k with
  | nil => rfl
  | cons i is ih =>
    simp [linesFrom, Instr.decode_word (h i (by simp)), ih fun j hj => h j (by simp [hj]), numbered,
      Except.map]

end Disassembly

namespace Session

open Disassembly

variable {s : Session}

lemma Reachable.shown (h : s.Reachable) : ∀ i ∈ s.records.flatMap (·.body.instrs), i.shown = i := by
  obtain ⟨calls, hf⟩ := h.faithful
  intro i hi
  obtain ⟨r, hr, hi⟩ := List.mem_flatMap.mp hi
  have hb : r.body ∈ calls.flatMap (Call.emitted s.config) := hf.bodies ▸ List.mem_map_of_mem hr
  obtain ⟨call, -, hb⟩ := List.mem_flatMap.mp hb
  cases hc : call.records s.config none with
  | error e => simp [Call.emitted_of_error hc] at hb
  | ok rs =>
    rw [← Call.bodies_of_records hc] at hb
    obtain ⟨r', hr', he⟩ := List.mem_map.mp hb
    exact (Call.records_appends h.sound.config hc r' hr').shown i (he ▸ hi)

/-- The lines of the session's program, one for each of its words. -/
def Listed (s : Session) (ls : List Line) : Prop :=
  s.words.2 = .ok (ls.map Line.word) ∧ Disassembly.lines (ls.map Line.word) = .ok ls

lemma Reachable.listed (h : s.Reachable) : s.Listed (numbered 0 (s.records.flatMap (·.body.instrs))) := by
  rw [Listed, map_word_numbered, h.sound.words_eq]
  exact ⟨rfl, linesFrom_words h.sound.fits 0⟩

lemma Reachable.of_mem_listed (h : s.Reachable) {ls : List Line} (hl : s.Listed ls) {l : Line} (hm : l ∈ ls) :
    l.word = l.instr.word ∧ l.instr.Fits ∧ l.instr.shown = l.instr := by
  obtain ⟨hw, hls⟩ := hl
  rw [Except.ok.inj (hw.symm.trans h.listed.1)] at hls
  obtain rfl := Except.ok.inj (hls.symm.trans h.listed.2)
  obtain ⟨t, ht, rfl⟩ := List.mem_map.mp hm
  have hi := List.fst_mem_of_mem_zipIdx ht
  exact ⟨rfl, h.sound.fits _ hi, h.shown _ hi⟩

end Session

theorem text_unambiguous :
    (∀ i j : Instr, i.text = j.text ↔ i.shown = j.shown) ∧
    (∀ s : Session, s.Reachable → ∃ ls, s.Listed ls) ∧
    ∀ s s' : Session, s.Reachable → s'.Reachable → ∀ ls ls', s.Listed ls → s'.Listed ls' →
      ∀ l ∈ ls, ∀ l' ∈ ls', l.instr.shown = l.instr ∧ (l.instr.text = l'.instr.text ↔ l.word = l'.word) := by
  refine ⟨Instr.text_eq_iff, fun s hs => ⟨_, hs.listed⟩, ?_⟩
  intro s s' hs hs' ls ls' hl hl' l hm l' hm'
  obtain ⟨hw, hf, h⟩ := hs.of_mem_listed hl hm
  obtain ⟨hw', hf', h'⟩ := hs'.of_mem_listed hl' hm'
  refine ⟨h, ?_⟩
  rw [Instr.text_eq_iff, h, h', hw, hw']
  constructor
  · exact congrArg Instr.word
  · intro he
    have hd := Instr.decode_word hf
    rw [he, Instr.decode_word hf'] at hd
    exact (Except.ok.inj hd).symm

/-- A selection of a row of blocks and one of a vector block, by the same number. -/
def selections : Session :=
  (((Session.new {}).perform (.call (.mvSelectRow 3))).1.perform (.call (.vvSelectBlk 3))).1

theorem text_unambiguous_selections :
    (Instr.gemv (.select .row 3 9)).text = (Instr.gemv (.select .row 3 0)).text ∧ selections.Reachable ∧
    ∃ l l' : Disassembly.Line, selections.Listed [l, l'] ∧ l.instr = .gemv (.select .row 3 0) ∧
      l'.instr = .vv (.selectBlk 3) ∧ (l.instr.text = l'.instr.text ↔ l.word = l'.word) := by
  have hr : selections.Reachable := (Session.Reachable.fresh.perform _).perform _
  have hl : selections.Listed (Disassembly.numbered 0 [.gemv (.select .row 3 0), .vv (.selectBlk 3)]) := hr.listed
  have h := text_unambiguous.2.2 _ _ hr hr _ _ hl hl
  refine ⟨(text_unambiguous.1 _ _).mpr rfl, hr, _, _, hl, rfl, rfl, ?_⟩
  exact (h _ (.head _) _ (.tail _ (.head _))).2

end PimAsm
