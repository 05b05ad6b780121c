import Mathlib
import PimAsm.Proofs.Image
import PimAsm.Proofs.Program.Layout

namespace PimAsm

open Text Image

namespace Export

variable {o : ExportOptions}

lemma read_laid {t : String} {ws : List Word} (h : Laid Shows t ws) : Image.read t = .ok ws := by
  obtain ⟨ls, wss, rfl, hs, rfl⟩ := h
  exact read_shows hs

def imageText (o : ExportOptions) (r : Record) : String :=
  (render? ⟨"", Segment.binaryText o.separator⟩ o r).elim "" (· ++ "\n")

lemma verilog_cons (o : ExportOptions) (r : Record) (rs : List Record) :
    verilog o (r :: rs) = imageText o r ++ verilog o rs :=
  join_renderAll_cons _ o r rs

lemma image_told (hsep : ∀ c ∈ o.separator.toList, c = '_') :
    (Style.mk "" (Segment.binaryText o.separator)).Told Shows where
  blank := shows_empty
  comment ht := by
    rw [String.empty_append]
    exact shows_comment ht
  word hi := shows_word (Instr.subWord_filled hi) _ hsep
  annotated hi ht := shows_annotated (Instr.subWord_filled hi) _ hsep ht

lemma laid_verilog (hsep : ∀ c ∈ o.separator.toList, c = '_') {rs : List Record} (h : ∀ r ∈ rs, r.Sound)
    (hc : ∀ r ∈ rs, ∀ c, r.comment = some c → OneLine c) :
    Laid Shows (verilog o (rs.map Record.encoded)) ((rs.flatMap (·.body.instrs)).map Instr.word) :=
  laid_renderAll (image_told hsep) h hc

end Export

theorem read_verilog {s : Session} (h : s.Reachable) (hc : ∀ r ∈ s.records, ∀ c, r.comment = some c → OneLine c)
    (o : ExportOptions) (hsep : ∀ c ∈ o.separator.toList, c = '_') :
    ∃ text ws, (s.verilog o).2 = .ok text ∧ s.words.2 = .ok ws ∧ Image.read text = .ok ws := by
  have hs := h.sound
  have ht := Export.laid_verilog hsep hs.records hc
  exact ⟨_, _, by rw [Session.verilog, hs.assembledThen_eq, Session.finished], by rw [hs.words_eq],
    Export.read_laid ht⟩

theorem read_verilog_annotated :
    let s := ((Session.new.perform (.call (.comment "01 // x\r"))).1.perform (.call .mvNop)).1
    s.Reachable ∧ s.records.length = 2 ∧ ∃ text ws, (s.verilog ⟨true, false, "__"⟩).2 = .ok text ∧ s.words.2 = .ok ws ∧
      Image.read text = .ok ws := by
  intro s
  have h : s.Reachable := (Session.Reachable.fresh.perform _).perform _
  refine ⟨h, rfl, read_verilog h (fun r hr c hc => ?_) _ (by simp)⟩
  have hr' : r = ⟨.comment, "AS_COMMENT", some "01 // x\r", none⟩ ∨ r.comment = none := by
    rcases List.mem_cons.mp hr with rfl | hr
    · exact Or.inl rfl
    · rw [List.mem_singleton.mp hr]
      exact Or.inr rfl
  rcases hr' with rfl | hr'
  · cases hc
    decide
  · simp [hr'] at hc

end PimAsm
