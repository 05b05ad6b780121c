import Mathlib
import PimAsm.Image
import PimAsm.Proofs.Binary
import PimAsm.Proofs.Lines
import PimAsm.Proofs.Word

namespace PimAsm

namespace Image

open Text

def IsCode (c : Char) : Prop := c = '0' ∨ c = '1' ∨ c = '_'

instance (c : Char) : Decidable (IsCode c) := inferInstanceAs (Decidable (_ ∨ _))

/-- A line with the binary text `code`, and possibly a comment after it. -/
def Holds (code line : List Char) : Prop :=
  ∃ pad t, (∀ c ∈ pad, c = ' ') ∧ (t = [] ∨ ∃ u, t = '/' :: '/' :: u) ∧ line = code ++ pad ++ t

variable {code line : List Char}

lemma not_mem_code (hc : ∀ c ∈ code, IsCode c) {d : Char} (hd : ¬ IsCode d) : d ∉ code := fun hm => hd (hc d hm)

lemma codeOf_holds (hc : ∀ c ∈ code, IsCode c) (h : Holds code line) : codeOf line = code := by
  obtain ⟨pad, t, hp, ht, rfl⟩ := h
  have hs : '/' ∉ code ++ pad := by
    rw [List.mem_append, not_or]
    exact ⟨not_mem_code hc (by decide), fun hm => absurd (hp _ hm) (by decide)⟩
  have hb : beforeComment t = [] := by
    rcases ht with rfl | ⟨u, rfl⟩
    · rfl
    · rw [beforeComment]
  rw [codeOf, beforeComment_append hs, hb, List.append_nil]
  have hn : ∀ c ∈ code, isBlank c = false := by
    intro c hm
    rcases hc c hm with rfl | rfl | rfl <;> decide
  refine trim_of_trimmed ⟨[], pad, rfl, fun c hm => ?_, fun c hm => hn c (List.mem_of_mem_head? hm),
    fun c hm => hn c (List.mem_of_mem_getLast? hm)⟩
  rw [hp c hm]
  decide

lemma codeOf_return (l : List Char) : codeOf (l ++ ['\r']) = codeOf l := by
  rw [codeOf, codeOf]
  rcases beforeComment_return l with h | h
  · rw [h]
  · rw [h, trim_return]

lemma exists_lines_line (h : '\n' ∉ line) (rest : List Char) :
    ∃ l, lines (line ++ '\n' :: rest) = l :: lines rest ∧ codeOf l = codeOf line := by
  obtain ⟨l, hl, rfl | rfl⟩ := lines_line h rest
  · exact ⟨line, hl, rfl⟩
  · exact ⟨l, hl, (codeOf_return l).symm⟩

def digits (code : List Char) : List Char := code.filter (· ≠ '_')

def IsWord (code : List Char) : Prop := (digits code).length = 32 ∧ ∀ c ∈ digits code, Numeral.IsBit c

/-- A plus sign in the place of the first of thirty-two binary digits. -/
def IsSigned (code : List Char) : Prop :=
  ∃ ds, digits code = '+' :: ds ∧ ds.length = 31 ∧ ∀ c ∈ ds, Numeral.IsBit c

def value (code : List Char) : Word := BitVec.ofNat 32 (Nat.ofDigitChars 2 (digits code) 0)

lemma octets_bits {cs : List Char} (h : ∀ c ∈ cs, Numeral.IsBit c) : octets cs = cs.length := by
  induction cs with
  | nil => rfl
  | cons c cs ih =>
    have hc : c.utf8Size = 1 := by rcases h c (by simp) with rfl | rfl <;> decide
    rw [octets, hc, ih fun c hm => h c (by simp [hm]), List.length_cons, add_comm]

lemma octets_signed {cs : List Char} (h : ∀ c ∈ cs, Numeral.IsBit c) : octets ('+' :: cs) = cs.length + 1 := by
  rw [octets, octets_bits h, add_comm]
  rfl

lemma wordOf_eq_ok_iff {w : Word} : wordOf code = .ok w ↔
    octets (digits code) = 32 ∧ ∃ n, Numeral.plussed? 2 (digits code) = some n ∧ BitVec.ofNat 32 n = w := by
  rw [wordOf, ← digits]
  by_cases h : octets (digits code) = 32
  · cases hn : Numeral.plussed? 2 (digits code) <;> simp [h]
  · simp [h]

lemma value_signed {ds : List Char} (h : digits code = '+' :: ds) :
    value code = BitVec.ofNat 32 (Nat.ofDigitChars 2 ds 0) := by
  rw [value, h, Nat.ofDigitChars_cons]
  rfl

lemma wordOf_eq_ok {w : Word} : wordOf code = .ok w ↔ (IsWord code ∨ IsSigned code) ∧ value code = w := by
  rw [wordOf_eq_ok_iff]
  simp only [Numeral.plussed?_eq_some, Numeral.unsigned?_eq_some]
  constructor
  · rintro ⟨ho, n, ⟨-, hb, rfl⟩ | ⟨ds, hd, -, hb, rfl⟩, rfl⟩
    · rw [octets_bits hb] at ho
      exact ⟨.inl ⟨ho, hb⟩, rfl⟩
    · rw [hd, octets_signed hb] at ho
      exact ⟨.inr ⟨ds, hd, by omega, hb⟩, value_signed hd⟩
  · rintro ⟨⟨hl, hb⟩ | ⟨ds, hd, hl, hb⟩, rfl⟩
    · refine ⟨by rw [octets_bits hb, hl], _, .inl ⟨?_, hb, rfl⟩, rfl⟩
      rw [← List.length_pos_iff, hl]
      decide
    · refine ⟨by rw [hd, octets_signed hb, hl], _, .inr ⟨ds, hd, ?_, hb, rfl⟩, (value_signed hd).symm⟩
      rw [← List.length_pos_iff, hl]
      decide

variable {w : SubWord} {sep : String}

lemma wordOf_binaryText (h : w.Filled) (e : Engine) (hs : ∀ c ∈ sep.toList, c = '_') :
    wordOf (Segment.binaryText sep (w.fullSegments e)).toList = .ok (w.word e) := by
  have hd : digits (Segment.binaryText sep (w.fullSegments e)).toList = Segment.bits (w.fullSegments e) :=
    Segment.filter_binaryText hs _
  refine wordOf_eq_ok.mpr ⟨.inl ⟨?_, ?_⟩, ?_⟩
  · rw [hd, Segment.length_bits (h.full_fits e) (h.full_pos e), h.full_width]
  · rw [hd]
    exact fun _ => Segment.isBit_of_mem_bits
  · rw [value, hd, Segment.ofDigitChars_bits (h.full_fits e) (h.full_pos e), zero_mul, zero_add,
      ← Segment.pack_eq_number (h.full_fits e) (by rw [h.full_width]; decide), SubWord.word]

def Reads (code : List Char) (ws : List Word) : Prop :=
  (code = [] ∧ ws = []) ∨ (code ≠ [] ∧ ∃ w, wordOf code = .ok w ∧ ws = [w])

section Lines

variable {l : List Char} {ls : List (List Char)} {number : ℕ}

lemma readLines_empty (hc : codeOf l = []) : readLines number (l :: ls) = readLines (number + 1) ls := by
  simp [readLines, hc]

lemma readLines_word (hc : codeOf l ≠ []) {w : Word} (hw : wordOf (codeOf l) = .ok w) :
    readLines number (l :: ls) = (w :: ·) <$> readLines (number + 1) ls := by
  simp [readLines, hc, hw]
  rfl

lemma readLines_fault (hc : codeOf l ≠ []) {why : ImageFault} (hw : wordOf (codeOf l) = .error why) :
    readLines number (l :: ls) = Outcome.fail (.image number why) := by
  simp [readLines, hc, hw]

end Lines

lemma readLines_eq {ls : List (List Char)} {wss : List (List Word)}
    (h : List.Forall₂ (fun l ws => Reads (codeOf l) ws) ls wss) (number : ℕ) :
    readLines number ls = .ok wss.flatten := by
  induction h generalizing number with
  | nil => rfl
  | cons hr _ ih =>
    rcases hr with ⟨hc, rfl⟩ | ⟨hc, w, hw, rfl⟩
    · rw [readLines_empty hc, ih, List.flatten_cons, List.nil_append]
    · rw [readLines_word hc hw, ih, Outcome.map_ok, List.flatten_cons, List.singleton_append]

/-- A line of a text that stands for the words `ws`. -/
structure Shows (line : String) (ws : List Word) : Prop where
  oneLine : OneLine line
  holds : ∃ code, (∀ c ∈ code, IsCode c) ∧ Holds code line.toList ∧ Reads code ws

lemma lines_shows {ls : List String} {wss : List (List Word)} (h : List.Forall₂ Shows ls wss) :
    List.Forall₂ (fun l ws => Reads (codeOf l) ws) (lines (String.join (ls.map (· ++ "\n"))).toList) wss := by
  induction h with
  | nil => exact .nil
  | @cons line ws ls wss hs _ ih =>
    obtain ⟨code, hc, hh, hr⟩ := hs.holds
    have ht : (String.join ((line :: ls).map (· ++ "\n"))).toList =
        line.toList ++ '\n' :: (String.join (ls.map (· ++ "\n"))).toList := by
      simp [String.toList_join]
    obtain ⟨l, hl, hcode⟩ := exists_lines_line hs.oneLine (String.join (ls.map (· ++ "\n"))).toList
    rw [ht, hl]
    exact .cons (by rwa [hcode, codeOf_holds hc hh]) ih

lemma read_shows {ls : List String} {wss : List (List Word)} (h : List.Forall₂ Shows ls wss) :
    read (String.join (ls.map (· ++ "\n"))) = .ok wss.flatten :=
  readLines_eq (lines_shows h) 1

lemma shows_empty : Shows "" [] := ⟨by decide, [], by simp, ⟨[], [], by simp⟩, Or.inl ⟨rfl, rfl⟩⟩

lemma shows_comment {t : String} (ht : OneLine t) : Shows ("// " ++ t) [] := by
  have hl : ("// " ++ t).toList = [] ++ [] ++ '/' :: '/' :: ' ' :: t.toList := by simp
  exact ⟨by simpa +decide using ht, [], by simp, ⟨[], _, by simp, Or.inr ⟨_, rfl⟩, hl⟩, Or.inl ⟨rfl, rfl⟩⟩

lemma binaryText_isCode (hs : ∀ c ∈ sep.toList, c = '_') (segs : List Segment) :
    ∀ c ∈ (Segment.binaryText sep segs).toList, IsCode c := fun _ => Segment.mem_binaryText hs

lemma binaryText_oneLine (hs : ∀ c ∈ sep.toList, c = '_') (segs : List Segment) :
    OneLine (Segment.binaryText sep segs) :=
  not_mem_code (binaryText_isCode hs segs) (by decide)

lemma reads_binaryText (h : w.Filled) (e : Engine) (hs : ∀ c ∈ sep.toList, c = '_') :
    Reads (Segment.binaryText sep (w.fullSegments e)).toList [w.word e] := by
  have hw := wordOf_binaryText h e hs
  refine Or.inr ⟨fun h0 => ?_, _, hw, rfl⟩
  rw [h0] at hw
  cases hw

lemma shows_word (h : w.Filled) (e : Engine) (hs : ∀ c ∈ sep.toList, c = '_') :
    Shows (Segment.binaryText sep (w.fullSegments e)) [w.word e] :=
  ⟨binaryText_oneLine hs _, _, binaryText_isCode hs _, ⟨[], [], by simp⟩, reads_binaryText h e hs⟩

lemma shows_annotated (h : w.Filled) (e : Engine) (hs : ∀ c ∈ sep.toList, c = '_') {t : String} (ht : OneLine t) :
    Shows (Segment.binaryText sep (w.fullSegments e) ++ "  " ++ ("// " ++ t)) [w.word e] := by
  refine ⟨?_, _, binaryText_isCode hs _, ⟨[' ', ' '], _, by simp, Or.inr ⟨' ' :: t.toList, rfl⟩, ?_⟩,
    reads_binaryText h e hs⟩
  · simpa +decide [ht] using binaryText_oneLine hs _
  · simp

/-- The lines of a text that hold code, without what is around it. -/
def codes (text : List Char) : List (List Char) := ((lines text).map codeOf).filter (· ≠ [])

lemma codes_of_not_mem {l : List Char} (h : '\n' ∉ l) : codes l = [codeOf l].filter (· ≠ []) := by
  by_cases hn : l = []
  · rw [hn]
    rfl
  · rw [codes, lines_of_not_mem h hn, List.map_singleton]

lemma codes_line {l : List Char} (h : '\n' ∉ l) (rest : List Char) :
    codes (l ++ '\n' :: rest) = codes l ++ codes rest := by
  obtain ⟨l', hl, hc⟩ := exists_lines_line h rest
  rw [codes_of_not_mem h, ← hc, codes, hl, codes, ← List.filter_append, List.map_cons, List.singleton_append]

lemma codes_append (a b : List Char) : codes (a ++ '\n' :: b) = codes a ++ codes b := by
  induction hn : a.length using Nat.strong_induction_on generalizing a with
  | _ n ih =>
    by_cases h : '\n' ∈ a
    · obtain ⟨l, rest, rfl, hl⟩ := List.eq_append_cons_of_mem h
      have hr := ih rest.length (by simp at hn; omega) rest rfl
      rw [List.append_assoc, List.cons_append, codes_line hl, hr, codes_line hl, List.append_assoc]
    · exact codes_line h b

lemma readLines_eq_ok {ls : List (List Char)} {ws : List Word} {number : ℕ} :
    readLines number ls = .ok ws ↔
      List.Forall₂ (fun code w => wordOf code = .ok w) ((ls.map codeOf).filter (· ≠ [])) ws := by
  induction ls generalizing ws number with
  | nil => simp [readLines, eq_comm]
  | cons l ls ih =>
    by_cases hc : codeOf l = []
    · rw [readLines_empty hc, ih, List.map_cons, List.filter_cons_of_neg (by simpa using hc)]
    · rw [List.map_cons, List.filter_cons_of_pos (by simpa using hc), List.forall₂_cons_left_iff]
      cases hw : wordOf (codeOf l) with
      | error why => simp [readLines_fault hc hw]
      | ok w =>
        rw [readLines_word hc hw, Outcome.map_eq_ok]
        constructor
        · rintro ⟨vs, hv, rfl⟩
          exact ⟨w, vs, rfl, ih.mp hv, rfl⟩
        · rintro ⟨v, vs, hv, hs, rfl⟩
          cases hv
          exact ⟨vs, ih.mpr hs, rfl⟩

lemma read_eq_ok {text : String} {ws : List Word} :
    read text = .ok ws ↔ List.Forall₂ (fun code w => wordOf code = .ok w) (codes text.toList) ws :=
  readLines_eq_ok

end Image

end PimAsm
