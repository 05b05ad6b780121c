import Mathlib
import PimAsm.Program.Export
import PimAsm.Proofs.Program.Assembly

/-! The lines of an exported program, in any style. Each line of a record holds one of its words or none, so what a
style says of a line extends to the text of a whole program. -/

namespace PimAsm.Export

open Text

lemma remark_oneLine {o : ExportOptions} {r : Record} (hs : OneLine r.source)
    (hc : ∀ c, r.comment = some c → OneLine c) : OneLine (remark o r) := by
  refine OneLine.intercalate (by decide) fun t ht => ?_
  rcases List.mem_append.mp ht with ht | ht
  · split_ifs at ht
    · rwa [List.mem_singleton.mp ht]
    · simp at ht
  · cases hr : r.comment with
    | none => simp [hr] at ht
    | some c =>
      simp only [hr] at ht
      split_ifs at ht
      · rw [List.mem_singleton.mp ht]
        exact hc c hr
      · simp at ht

lemma join_lines {ls : List String} (h : ls ≠ []) :
    String.intercalate "\n" ls ++ "\n" = String.join (ls.map (· ++ "\n")) := by
  induction ls with
  | nil => exact absurd rfl h
  | cons l ls ih =>
    by_cases hl : ls = []
    · simp [hl]
    · rw [String.intercalate_cons_of_ne_nil hl, String.append_assoc, ih hl, List.map_cons, String.join_cons]

variable {P : String → List Word → Prop}

/-- A text of lines that stand for the words `ws`, where `P` tells what a line stands for. -/
def Laid (P : String → List Word → Prop) (text : String) (ws : List Word) : Prop :=
  ∃ ls wss, text = String.join (ls.map (· ++ "\n")) ∧ List.Forall₂ P ls wss ∧ wss.flatten = ws

namespace Laid

variable {t u : String} {ws vs : List Word}

lemma nil : Laid P "" [] := ⟨[], [], rfl, .nil, rfl⟩

lemma line (h : P t ws) : Laid P (t ++ "\n") ws := ⟨[t], [ws], by simp, .cons h .nil, by simp⟩

lemma append (ht : Laid P t ws) (hu : Laid P u vs) : Laid P (t ++ u) (ws ++ vs) := by
  obtain ⟨ls, wss, rfl, hs, rfl⟩ := ht
  obtain ⟨ms, vss, rfl, hs', rfl⟩ := hu
  exact ⟨ls ++ ms, wss ++ vss, by simp, List.rel_append hs hs', by simp⟩

-- no lines at all leave a blank one before the last line feed
lemma intercalate (h0 : P "" []) {ts : List String} (h : Laid P (String.join (ts.map (· ++ "\n"))) ws) :
    Laid P (String.intercalate "\n" ts ++ "\n") ws := by
  cases ts with
  | nil =>
    obtain ⟨ls, wss, hj, hs, rfl⟩ := h
    have hl : ls = [] := by
      cases ls with
      | nil => rfl
      | cons l ls => simpa using congrArg String.toList hj
    rw [hl, List.forall₂_nil_left_iff] at hs
    rw [hs]
    exact line h0
  | cons t ts => rwa [join_lines (by simp)]

end Laid

/-- `P` tells what the lines of a style stand for. -/
structure Style.Told (st : Style) (P : String → List Word → Prop) : Prop where
  blank : P "" []
  comment {t : String} : OneLine t → P (st.indent ++ commentText t) []
  word {i : Instr} : i.Fits → P (st.word (i.subWord.fullSegments i.engine)) [i.word]
  annotated {i : Instr} {t : String} : i.Fits → OneLine t →
    P (st.word (i.subWord.fullSegments i.engine) ++ "  " ++ commentText t) [i.word]

variable {st : Style} {o : ExportOptions} {r : Record}

lemma join_renderAll_cons (st : Style) (o : ExportOptions) (r : Record) (rs : List Record) :
    String.join ((renderAll st o (r :: rs)).map (· ++ "\n")) =
      (render? st o r).elim "" (· ++ "\n") ++ String.join ((renderAll st o rs).map (· ++ "\n")) := by
  rw [renderAll, List.filterMap_cons]
  cases render? st o r with
  | none => simp [renderAll]
  | some t => simp [renderAll]

section

variable (hst : st.Told P)
include hst

lemma laid_op {i : Instr} (hi : i.Fits) {note : String} (hn : OneLine note) :
    Laid P ((if note = "" then st.word (i.subWord.fullSegments i.engine)
      else st.word (i.subWord.fullSegments i.engine) ++ "  " ++ commentText note) ++ "\n") [i.word] := by
  split_ifs
  · exact .line (hst.word hi)
  · exact .line (hst.annotated hi hn)

lemma words_told {is : List Instr} (h : ∀ i ∈ is, i.Fits) :
    List.Forall₂ P (is.map fun i => st.word (i.subWord.fullSegments i.engine)) (is.map fun i => [i.word]) := by
  rw [List.forall₂_map_left_iff, List.forall₂_map_right_iff, List.forall₂_same]
  exact fun i hi => hst.word (h i hi)

lemma laid_macro {is : List Instr} (hi : ∀ i ∈ is, i.Fits) {note : String} (hn : OneLine note) (marked : Bool) :
    Laid P (String.intercalate "\n"
      (if marked then
        [st.indent ++ commentText ("---- MACRO: " ++ note)] ++
          (is.map fun i => i.subWord.fullSegments i.engine).map st.word ++
          [st.indent ++ commentText "---- End of MACRO"]
      else (is.map fun i => i.subWord.fullSegments i.engine).map st.word) ++ "\n")
      (is.map Instr.word) := by
  have hw := words_told hst hi
  have hf : (is.map fun i => [i.word]).flatten = is.map Instr.word := List.map_eq_flatMap.symm
  rw [List.map_map]
  refine .intercalate hst.blank ?_
  split_ifs
  · have h1 := hst.comment (t := "---- MACRO: " ++ note) (by simpa +decide using hn)
    have h2 := hst.comment (t := "---- End of MACRO") (by decide)
    exact ⟨_, _, rfl, List.rel_append (List.rel_append (.cons h1 .nil) hw) (.cons h2 .nil), by simp [hf]⟩
  · exact ⟨_, _, rfl, hw, hf⟩

lemma laid_record (h : r.Sound) (hc : ∀ c, r.comment = some c → OneLine c) :
    Laid P ((render? st o r.encoded).elim "" (· ++ "\n")) (r.body.instrs.map Instr.word) := by
  have hn : OneLine (remark o r) := remark_oneLine h.source hc
  have hfits := h.fits
  have hseg := r.segments_encoded
  have hcode : r.encoded.code = some (r.body.instrs.map Instr.subWord) := rfl
  have hbody : r.encoded.body = r.body := rfl
  have hrem : remark o r.encoded = remark o r := rfl
  unfold render?
  rw [hcode, hbody, hseg, hrem]
  cases hb : r.body with
  | gemv op | vv op =>
    rw [hb] at hfits
    exact laid_op hst (hfits _ (List.mem_singleton_self _)) hn
  | gemvMacro mac ops | vvMacro mac ops =>
    rw [hb] at hfits
    exact laid_macro hst hfits hn o.comment
  | comment =>
    have hcom : r.encoded.comment = r.comment := rfl
    rw [hcom]
    cases hr : r.comment with
    | none => exact .nil
    | some c =>
      show Laid P (Option.elim (if o.comment then some (st.indent ++ commentText c) else none) "" (· ++ "\n")) []
      split_ifs
      · exact .line (hst.comment (hc c hr))
      · exact .nil

lemma laid_renderAll {rs : List Record} (h : ∀ r ∈ rs, r.Sound)
    (hc : ∀ r ∈ rs, ∀ c, r.comment = some c → OneLine c) :
    Laid P (String.join ((renderAll st o (rs.map Record.encoded)).map (· ++ "\n")))
      ((rs.flatMap (·.body.instrs)).map Instr.word) := by
  induction rs with
  | nil => exact .nil
  | cons r rs ih =>
    rw [List.map_cons, join_renderAll_cons, List.flatMap_cons, List.map_append]
    exact (laid_record hst (h r (by simp)) (hc r (by simp))).append
      (ih (fun r hr => h r (by simp [hr])) fun r hr => hc r (by simp [hr]))

end

end PimAsm.Export
