import Mathlib
import PimAsm.Text

namespace PimAsm.Text

-- a carriage return right before the line feed belongs to it
lemma lines_line {l : List Char} (h : '\n' ∉ l) (rest : List Char) :
    ∃ l', lines (l ++ '\n' :: rest) = l' :: lines rest ∧ (l = l' ∨ l = l' ++ ['\r']) := by
  induction l with
  | nil => exact ⟨[], by rw [List.nil_append, lines], Or.inl rfl⟩
  | cons c l ih =>
    have hc : c ≠ '\n' := fun hc => h (by simp [hc])
    obtain ⟨l', hl, he⟩ := ih fun hm => h (by simp [hm])
    by_cases hr : c = '\r' ∧ l = []
    · obtain ⟨rfl, rfl⟩ := hr
      exact ⟨[], by rw [List.cons_append, List.nil_append, lines], Or.inr rfl⟩
    · refine ⟨c :: l', ?_, ?_⟩
      · rw [List.cons_append, lines, hl]
        · intro cs h1 h2
          cases l with
          | nil => exact hr ⟨h1, rfl⟩
          | cons d l =>
            simp only [List.cons_append, List.cons.injEq] at h2
            exact h (by simp [h2.1])
        · exact hc
      · rcases he with rfl | rfl
        · exact Or.inl rfl
        · exact Or.inr rfl

lemma lines_of_not_mem {l : List Char} (h : '\n' ∉ l) (hn : l ≠ []) : lines l = [l] := by
  induction l with
  | nil => exact absurd rfl hn
  | cons c l ih =>
    rw [lines]
    · cases l with
      | nil => rfl
      | cons d l => rw [ih (fun hm => h (by simp [hm])) (by simp)]
    · rintro cs rfl rfl
      simp at h
    · rintro rfl
      simp at h

lemma beforeComment_append {cs : List Char} (h : '/' ∉ cs) (t : List Char) :
    beforeComment (cs ++ t) = cs ++ beforeComment t := by
  induction cs with
  | nil => rfl
  | cons c cs ih =>
    have hc : c ≠ '/' := fun hc => h (by simp [hc])
    rw [List.cons_append, beforeComment, ih fun hm => h (by simp [hm]), List.cons_append]
    intro _ h1
    exact absurd h1 hc

lemma beforeComment_return (l : List Char) :
    beforeComment (l ++ ['\r']) = beforeComment l ∨ beforeComment (l ++ ['\r']) = beforeComment l ++ ['\r'] := by
  fun_induction beforeComment l with
  | case1 => exact Or.inr rfl
  | case2 cs => exact Or.inl (by simp [beforeComment])
  | case3 c cs hne ih =>
    have hc : beforeComment (c :: cs ++ ['\r']) = c :: beforeComment (cs ++ ['\r']) := by
      rw [List.cons_append, beforeComment]
      intro ds h1 h2
      cases cs with
      | nil => simp at h2
      | cons d cs => exact hne cs h1 (by rw [(List.cons.inj h2).1])
    rw [hc]
    rcases ih with ih | ih
    · exact Or.inl (by rw [ih])
    · exact Or.inr (by rw [ih, List.cons_append])

/-- A line as it is written and as it is read, when a carriage return at its end goes with the line feed. -/
def Same (written : String) (read : List Char) : Prop := written.toList = read ∨ written.toList = read ++ ['\r']

lemma Same.eq {l : String} {l' : List Char} (h : Same l l') (hr : '\r' ∉ l.toList) : l' = l.toList := by
  rcases h with h | h
  · exact h.symm
  · exact absurd (by simp [h]) hr

lemma Same.eq_map {ls : List String} {ls' : List (List Char)} (h : List.Forall₂ Same ls ls')
    (hr : ∀ l ∈ ls, '\r' ∉ l.toList) : ls' = ls.map String.toList := by
  induction h with
  | nil => rfl
  | cons hs _ ih =>
    rw [hs.eq (hr _ (by simp)), ih fun l hl => hr l (by simp [hl])]
    rfl

lemma Same.head? {l : String} {l' : List Char} (h : Same l l') {c : Char} (hc : c ∈ l'.head?) : c ∈ l.toList.head? := by
  rcases h with h | h
  · rwa [h]
  · rw [h, List.head?_append, hc]
    rfl

lemma Same.not_mem_head? {ls : List String} {ls' : List (List Char)} (h : List.Forall₂ Same ls ls') {c : Char}
    (hc : ∀ l ∈ ls, c ∉ l.toList.head?) : ∀ l ∈ ls', c ∉ l.head? := by
  induction h with
  | nil => simp
  | cons hs _ ih =>
    rw [List.forall_mem_cons] at hc ⊢
    exact ⟨fun hm => hc.1 (hs.head? hm), ih hc.2⟩

lemma Same.beforeComment {l : String} {l' : List Char} (h : Same l l') (hr : '\r' ∉ beforeComment l.toList) :
    Text.beforeComment l' = Text.beforeComment l.toList := by
  rcases h with h | h
  · rw [h]
  · rw [h] at hr ⊢
    rcases beforeComment_return l' with hb | hb
    · exact hb.symm
    · exact absurd (by simp [hb]) hr

lemma lines_join (ls : List String) (h : ∀ l ∈ ls, '\n' ∉ l.toList) (rest : List Char) :
    ∃ ls', lines ((String.join (ls.map (· ++ "\n"))).toList ++ rest) = ls' ++ lines rest ∧
      List.Forall₂ Same ls ls' := by
  induction ls with
  | nil => exact ⟨[], rfl, .nil⟩
  | cons l ls ih =>
    obtain ⟨ls', hls, hsame⟩ := ih fun l hl => h l (by simp [hl])
    have ht : (String.join ((l :: ls).map (· ++ "\n"))).toList ++ rest =
        l.toList ++ '\n' :: ((String.join (ls.map (· ++ "\n"))).toList ++ rest) := by
      simp
    obtain ⟨l', hl, hs⟩ := lines_line (h l (by simp)) ((String.join (ls.map (· ++ "\n"))).toList ++ rest)
    rw [ht, hl, hls]
    exact ⟨l' :: ls', rfl, .cons hs hsame⟩

def Uncommented (line part : List Char) : Prop :=
  ∃ comment, line = part ++ comment ∧ (comment = [] ∨ ['/', '/'] <+: comment) ∧
    ∀ n < part.length, ¬ ['/', '/'] <+: line.drop n

def Trimmed (part code : List Char) : Prop :=
  ∃ front back, part = front ++ code ++ back ∧ (∀ c ∈ front ++ back, isBlank c = true) ∧
    (∀ c ∈ code.head?, isBlank c = false) ∧ ∀ c ∈ code.getLast?, isBlank c = false

lemma uncommented_beforeComment (line : List Char) : Uncommented line (beforeComment line) := by
  fun_induction beforeComment line with
  | case1 => exact ⟨[], rfl, .inl rfl, by simp⟩
  | case2 cs => exact ⟨'/' :: '/' :: cs, rfl, .inr ⟨cs, rfl⟩, by simp⟩
  | case3 c cs hne ih =>
    obtain ⟨comment, hline, hcomment, hfirst⟩ := ih
    refine ⟨comment, by rw [List.cons_append, ← hline], hcomment, fun n hn => ?_⟩
    cases n with
    | zero =>
      rintro ⟨ds, hds⟩
      obtain ⟨h1, h2⟩ := List.cons.inj hds
      exact hne ds h1.symm h2.symm
    | succ n => exact hfirst n (by simpa using hn)

lemma Uncommented.length_le {line part part' : List Char} (h : Uncommented line part) (h' : Uncommented line part') :
    part.length ≤ part'.length := by
  obtain ⟨comment', hline', hcomment', -⟩ := h'
  obtain ⟨comment, hline, -, hfirst⟩ := h
  by_contra hlt
  push Not at hlt
  -- the shorter part would end at a mark inside the longer one
  apply hfirst part'.length hlt
  have hd : line.drop part'.length = comment' := by rw [hline', List.drop_left]
  rw [hd]
  refine hcomment'.resolve_left ?_
  rintro rfl
  have hl := congrArg List.length (hline.symm.trans hline')
  simp at hl
  omega

lemma beforeComment_eq_iff {line part : List Char} : beforeComment line = part ↔ Uncommented line part := by
  constructor
  · rintro rfl
    exact uncommented_beforeComment line
  · intro h
    have hb := uncommented_beforeComment line
    have hl := (hb.length_le h).antisymm (h.length_le hb)
    obtain ⟨comment, hline, -⟩ := h
    obtain ⟨comment', hline', -⟩ := hb
    exact (List.append_inj (hline'.symm.trans hline) hl).1

lemma dropWhile_eq_self {cs : List Char} (h : ∀ c ∈ cs.head?, isBlank c = false) : cs.dropWhile isBlank = cs := by
  cases cs with
  | nil => rfl
  | cons c cs => rw [List.dropWhile_cons_of_neg (by simp [h c (by simp)])]

lemma trim_of_trimmed {part code : List Char} (h : Trimmed part code) : trim part = code := by
  obtain ⟨front, back, rfl, hblank, hhead, hlast⟩ := h
  obtain ⟨hfront, hback⟩ := List.forall_mem_append.mp hblank
  have hd : (front ++ code ++ back).dropWhile isBlank = if code = [] then [] else code ++ back := by
    rw [List.append_assoc, List.dropWhile_append_of_pos hfront]
    cases code with
    | nil => simpa [List.dropWhile_eq_nil_iff] using hback
    | cons c cs => exact dropWhile_eq_self (by simpa using hhead)
  rw [trim, hd]
  split_ifs with hn
  · rw [hn]
    rfl
  · rw [List.reverse_append, List.dropWhile_append_of_pos (by simpa using hback),
      dropWhile_eq_self (by simpa using hlast), List.reverse_reverse]

lemma isBlank_of_head?_dropWhile (cs : List Char) : ∀ c ∈ (cs.dropWhile isBlank).head?, isBlank c = false := by
  intro c hc
  have h := List.head?_dropWhile_not isBlank cs
  rw [hc] at h
  simpa using h

lemma trimmed_trim (part : List Char) : Trimmed part (trim part) := by
  set rest := part.dropWhile isBlank with hrest
  have hr : rest = trim part ++ (rest.reverse.takeWhile isBlank).reverse := by
    rw [trim, ← hrest, ← List.reverse_append, List.takeWhile_append_dropWhile, List.reverse_reverse]
  refine ⟨part.takeWhile isBlank, (rest.reverse.takeWhile isBlank).reverse, ?_, ?_, ?_, ?_⟩
  · rw [List.append_assoc, ← hr, hrest, List.takeWhile_append_dropWhile]
  · rw [List.forall_mem_append]
    refine ⟨fun c hc => List.mem_takeWhile_imp hc, fun c hc => List.mem_takeWhile_imp (List.mem_reverse.mp hc)⟩
  · intro c hc
    apply isBlank_of_head?_dropWhile part
    rw [← hrest, hr, List.head?_append, hc]
    rfl
  · rw [trim, List.getLast?_reverse]
    exact isBlank_of_head?_dropWhile _

lemma trim_eq_iff {part code : List Char} : trim part = code ↔ Trimmed part code := by
  refine ⟨?_, trim_of_trimmed⟩
  rintro rfl
  exact trimmed_trim part

lemma trim_return (l : List Char) : trim (l ++ ['\r']) = trim l := by
  obtain ⟨front, back, hl, hblank, hhead, hlast⟩ := trimmed_trim l
  refine trim_of_trimmed ⟨front, back ++ ['\r'], ?_, ?_, hhead, hlast⟩
  · rw [← List.append_assoc, ← hl]
  · rw [← List.append_assoc, List.forall_mem_append]
    exact ⟨hblank, List.forall_mem_singleton.mpr (by decide)⟩

end PimAsm.Text
