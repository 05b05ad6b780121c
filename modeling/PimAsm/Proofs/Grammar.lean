import Mathlib
import PimAsm.Proofs.Image

/-! Which texts are memory images. The lines of an image, cut at its line feeds, hold a word of thirty-two binary digits
or nothing; reading also takes a plus sign for the first digit. -/

namespace PimAsm.Image

open Text

/-- A line that holds `code`: white space around it, and no more than a comment after that. -/
def Content (line code : List Char) : Prop := ∃ part, Uncommented line part ∧ Trimmed part code

/-- A line that holds nothing or a code in `good`. -/
def Legal (good : List Char → Prop) (line : List Char) : Prop := ∃ code, Content line code ∧ (code = [] ∨ good code)

/-- The answer of a reader for lines with codes in `good`: the values of all codes, or the first line that is not
legal, counted from one. -/
def Answers (good : List Char → Prop) (text : String) (answer : Outcome (List Word)) : Prop :=
  ((∀ l ∈ text.toList.splitOn '\n', Legal good l) ∧ ∃ codes, List.Forall₂ Content (text.toList.splitOn '\n') codes ∧
    answer = .ok ((codes.filter (· ≠ [])).map value)) ∨
  ∃ before line after why, text.toList.splitOn '\n' = before ++ line :: after ∧ (∀ l ∈ before, Legal good l) ∧
    ¬ Legal good line ∧ answer = Outcome.fail (.image (before.length + 1) why)

variable {good : List Char → Prop} {line code : List Char} {ls before : List (List Char)} {text : String}

lemma codeOf_eq_iff : codeOf line = code ↔ Content line code := by
  constructor
  · rintro rfl
    exact ⟨_, uncommented_beforeComment line, trimmed_trim _⟩
  · rintro ⟨part, hu, ht⟩
    rw [codeOf, beforeComment_eq_iff.mpr hu, trim_eq_iff.mpr ht]

lemma exists_content : (∃ code, Content line code ∧ good code) ↔ good (codeOf line) := by
  simp only [← codeOf_eq_iff, exists_eq_left']

lemma legal_iff : Legal good line ↔ codeOf line = [] ∨ good (codeOf line) := exists_content

lemma forall₂_content : List.Forall₂ Content ls (ls.map codeOf) := by
  rw [List.forall₂_map_right_iff, List.forall₂_same]
  exact fun l _ => codeOf_eq_iff.mp rfl

lemma readLines_splitOn (cs : List Char) (number : ℕ) :
    readLines number (cs.splitOn '\n') = readLines number (lines cs) := by
  induction hn : cs.length using Nat.strong_induction_on generalizing cs number with
  | _ n ih =>
    by_cases h : '\n' ∈ cs
    · obtain ⟨l, rest, rfl, hl⟩ := List.eq_append_cons_of_mem h
      have hs : (l ++ '\n' :: rest).splitOn '\n' = l :: rest.splitOn '\n' :=
        List.splitOnP_append_cons_of_forall_mem (by simpa [← List.forall_mem_ne'] using hl) _ rfl _
      obtain ⟨l', hl', hc⟩ := exists_lines_line hl rest
      have hr := ih rest.length (by simp at hn; omega) rest (number + 1) rfl
      rw [hs, hl', readLines, readLines, hc, hr]
    · rw [List.splitOn_eq_singleton h]
      by_cases h0 : cs = []
      · rw [h0]
        rfl
      · rw [lines_of_not_mem h h0]

def IsRead (code : List Char) : Prop := IsWord code ∨ IsSigned code

lemma readLines_of_legal (h : ∀ l ∈ ls, Legal IsRead l) (number : ℕ) :
    readLines number ls = .ok (((ls.map codeOf).filter (· ≠ [])).map value) := by
  rw [readLines_eq_ok, List.forall₂_map_right_iff, List.forall₂_same]
  intro code hm
  obtain ⟨hm, hn⟩ := List.mem_filter.mp hm
  obtain ⟨l, hl, rfl⟩ := List.mem_map.mp hm
  exact wordOf_eq_ok.mpr ⟨(legal_iff.mp (h l hl)).resolve_left (by simpa using hn), rfl⟩

lemma readLines_until (after : List (List Char)) (hb : ∀ l ∈ before, Legal IsRead l) (hl : ¬ Legal IsRead line)
    (number : ℕ) :
    ∃ why, readLines number (before ++ line :: after) = Outcome.fail (.image (number + before.length) why) := by
  induction before generalizing number with
  | nil =>
    rw [legal_iff, not_or] at hl
    cases hw : wordOf (codeOf line) with
    | error why => exact ⟨why, readLines_fault hl.1 hw⟩
    | ok w => exact absurd (wordOf_eq_ok.mp hw).1 hl.2
  | cons l before ih =>
    obtain ⟨why, hr⟩ := ih (fun l hm => hb l (by simp [hm])) (number + 1)
    refine ⟨why, ?_⟩
    have hn : number + 1 + before.length = number + (l :: before).length := by
      rw [List.length_cons]
      omega
    rw [hn] at hr
    by_cases h0 : codeOf l = []
    · rw [List.cons_append, readLines_empty h0, hr]
    · have hw : wordOf (codeOf l) = .ok (value (codeOf l)) :=
        wordOf_eq_ok.mpr ⟨(legal_iff.mp (hb l (by simp))).resolve_left h0, rfl⟩
      rw [List.cons_append, readLines_word h0 hw, hr]
      rfl

lemma answers_read (text : String) : Answers IsRead text (read text) := by
  rw [read, ← readLines_splitOn]
  by_cases h : ∀ l ∈ text.toList.splitOn '\n', Legal IsRead l
  · exact .inl ⟨h, _, forall₂_content, readLines_of_legal h 1⟩
  · obtain ⟨before, line, after, hs, hb, hl⟩ := Outcome.exists_first_not h
    obtain ⟨why, hr⟩ := readLines_until after hb hl 1
    exact .inr ⟨before, line, after, why, hs, hb, hl, by rw [hs, hr, add_comm]⟩

lemma legal_isRead : Legal IsRead line ↔ Legal IsWord line ∨ IsSigned (codeOf line) := by
  rw [legal_iff, legal_iff, or_assoc]
  rfl

lemma not_legal_of_isSigned (h : IsSigned (codeOf line)) : ¬ Legal IsWord line := by
  obtain ⟨ds, hd, -⟩ := h
  rw [legal_iff]
  rintro (hc | ⟨-, hb⟩)
  · rw [hc] at hd
    cases hd
  · have hp : Numeral.IsBit '+' := hb '+' (by simp [hd])
    exact absurd hp (by decide)

/-- The first line that is not legal has a sign for its first digit. -/
def FirstSigned (text : String) : Prop :=
  ∃ before line after, text.toList.splitOn '\n' = before ++ line :: after ∧ (∀ l ∈ before, Legal IsWord l) ∧
    ∃ code, Content line code ∧ IsSigned code

lemma legal_of_not_firstSigned (hn : ¬ FirstSigned text) {after : List (List Char)}
    (hs : text.toList.splitOn '\n' = before ++ after) (hb : ∀ l ∈ before, Legal IsRead l) :
    ∀ l ∈ before, Legal IsWord l := by
  by_contra h
  obtain ⟨first, line, rest, rfl, hfirst, hline⟩ := Outcome.exists_first_not h
  have hsigned := (legal_isRead.mp (hb line (by simp))).resolve_left hline
  exact hn ⟨first, line, rest ++ after, by rw [hs, List.append_assoc, List.cons_append], hfirst,
    exists_content.mpr hsigned⟩

lemma answers_of_not_firstSigned (hn : ¬ FirstSigned text) : Answers IsWord text (read text) := by
  rcases answers_read text with ⟨hl, hc⟩ | ⟨before, line, after, why, hs, hb, hl, hr⟩
  · exact .inl ⟨legal_of_not_firstSigned hn (List.append_nil _).symm hl, hc⟩
  · refine .inr ⟨before, line, after, why, hs, legal_of_not_firstSigned hn hs hb, fun h => hl ?_, hr⟩
    exact legal_isRead.mpr (.inl h)

lemma FirstSigned.not_answers (h : FirstSigned text) : ¬ Answers IsWord text (read text) := by
  obtain ⟨before, line, after, hs, hb, hsigned⟩ := h
  have hl := not_legal_of_isSigned (exists_content.mp hsigned)
  rintro (⟨hall, -⟩ | ⟨before', line', after', why, hs', hb', hl', hr⟩)
  · exact hl (hall line (by simp [hs]))
  · obtain ⟨rfl, rfl⟩ := Outcome.first_not_unique (hs.symm.trans hs') hb hl hb' hl'
    -- reading passes over the line that it would have to name
    rcases answers_read text with ⟨-, codes, -, hok⟩ | ⟨pre, bad, post, why', hp, hpre, hbad, hfail⟩
    · cases hr.symm.trans hok
    · have hlen : before.length = pre.length := by
        have he := hr.symm.trans hfail
        simp only [Outcome.fail, Except.error.injEq, Halt.fault.injEq, Fault.image.injEq,
          Nat.add_right_cancel_iff] at he
        exact he.1
      obtain ⟨rfl, he⟩ := List.append_inj (hs.symm.trans hp) hlen
      rw [← (List.cons.inj he).1, legal_isRead] at hbad
      exact hbad (.inr (exists_content.mp hsigned))

theorem read_exact (text : String) :
    Answers IsRead text (read text) ∧ (Answers IsWord text (read text) ↔ ¬ FirstSigned text) :=
  ⟨answers_read text, fun h hf => hf.not_answers h, answers_of_not_firstSigned⟩

theorem read_signed_digit :
    let text := "+1111111111111111111111111111111"
    read text = .ok [0x7FFFFFFF] ∧ ¬ Answers IsWord text (read text) := by
  intro text
  have hbits : ∀ c ∈ List.replicate 31 '1', Numeral.IsBit c := by
    intro c hc
    rw [List.eq_of_mem_replicate hc]
    decide
  have hc : IsSigned (codeOf text.toList) := ⟨List.replicate 31 '1', by decide, by decide, hbits⟩
  exact ⟨by decide, FirstSigned.not_answers ⟨[], text.toList, [], by decide, by simp, exists_content.mpr hc⟩⟩

end PimAsm.Image
