import Mathlib
import PimAsm.Proofs.OneLine
import PimAsm.Proofs.Segment

namespace PimAsm

namespace Numeral

def IsBit (c : Char) : Prop := c = '0' ∨ c = '1'

instance (c : Char) : Decidable (IsBit c) := inferInstanceAs (Decidable (_ ∨ _))

lemma isBit_of_mem_binary {width n : ℕ} {c : Char} (h : c ∈ (binary width n).toList) : IsBit c := by
  rw [binary, String.toList_ofList, List.leftpad, List.mem_append] at h
  rcases h with h | h
  · exact Or.inl (List.eq_of_mem_replicate h)
  · obtain ⟨d, hd, rfl⟩ := mem_toDigits (by decide) h
    interval_cases d <;> decide

lemma length_binary {width n : ℕ} (hw : 0 < width) (hn : n < 2 ^ width) : (binary width n).toList.length = width := by
  rw [binary, String.toList_ofList, List.length_leftpad]
  exact max_eq_left ((Nat.length_toDigits_le_iff (by decide) hw).mpr hn)

lemma ofDigitChars_eq (b : ℕ) (cs : List Char) (init : ℕ) :
    Nat.ofDigitChars b cs init = init * b ^ cs.length + Nat.ofDigitChars b cs 0 := by
  induction cs generalizing init with
  | nil => simp
  | cons c cs ih =>
    rw [Nat.ofDigitChars_cons, Nat.ofDigitChars_cons, ih, ih (b * 0 + _), List.length_cons, pow_succ]
    ring

lemma ofDigitChars_binary {width n : ℕ} (hw : 0 < width) (hn : n < 2 ^ width) (init : ℕ) :
    Nat.ofDigitChars 2 (binary width n).toList init = init * 2 ^ width + n := by
  have h0 : Nat.ofDigitChars 2 (binary width n).toList 0 = n := by
    rw [binary, String.toList_ofList, List.leftpad, Nat.ofDigitChars_append, Nat.ofDigitChars_replicate_zero, mul_zero,
      Nat.ofDigitChars_toDigits (by decide) (by decide)]
  rw [ofDigitChars_eq, length_binary hw hn, h0]

lemma readDigits?_of_digits {b : ℕ} {cs : List Char} (h : ∀ c ∈ cs, digit? b c = some (c.toNat - '0'.toNat)) :
    readDigits? b cs = some (Nat.ofDigitChars b cs 0) := by
  have hf : ∀ n, cs.foldlM (fun n c => (digit? b c).map (b * n + ·)) n = some (Nat.ofDigitChars b cs n) := by
    induction cs with
    | nil => exact fun n => rfl
    | cons c cs ih =>
      intro n
      rw [List.foldlM_cons, h c (by simp), Nat.ofDigitChars_cons]
      exact ih (fun c hc => h c (by simp [hc])) _
  exact hf 0

lemma readDigits?_eq {cs : List Char} (h : ∀ c ∈ cs, IsBit c) : readDigits? 2 cs = some (Nat.ofDigitChars 2 cs 0) := by
  refine readDigits?_of_digits fun c hc => ?_
  rcases h c hc with rfl | rfl <;> decide

lemma isBit_of_digit? {c : Char} {d : ℕ} (h : digit? 2 c = some d) : IsBit c := by
  rw [digit?, Option.ite_none_right_eq_some] at h
  obtain ⟨⟨hl, hu⟩, -⟩ := h
  have hl' : '0'.toNat ≤ c.toNat := hl
  have hc : c.toNat = '0'.toNat ∨ c.toNat = '1'.toNat := by
    have h0 : '0'.toNat = 48 := rfl
    have h1 : '1'.toNat = 49 := rfl
    omega
  exact hc.imp Char.toNat_inj.mp Char.toNat_inj.mp

lemma isBit_of_readDigits? {cs : List Char} {n : ℕ} (h : readDigits? 2 cs = some n) : ∀ c ∈ cs, IsBit c := by
  have hf : ∀ k, cs.foldlM (fun n c => (digit? 2 c).map (2 * n + ·)) k = some n → ∀ c ∈ cs, IsBit c := by
    clear h
    induction cs with
    | nil => simp
    | cons c cs ih =>
      intro k hk
      rw [List.foldlM_cons] at hk
      obtain ⟨m, hm, hrest⟩ := Option.bind_eq_some_iff.mp hk
      obtain ⟨d, hd, -⟩ := Option.map_eq_some_iff.mp hm
      exact List.forall_mem_cons.mpr ⟨isBit_of_digit? hd, ih m hrest⟩
  exact hf 0 h

lemma unsigned?_eq_some {cs : List Char} {n : ℕ} :
    unsigned? 2 cs = some n ↔ cs ≠ [] ∧ (∀ c ∈ cs, IsBit c) ∧ Nat.ofDigitChars 2 cs 0 = n := by
  rw [unsigned?, Option.ite_none_left_eq_some, List.isEmpty_iff]
  refine and_congr_right fun _ => ⟨fun h => ?_, fun ⟨hb, hn⟩ => by rw [readDigits?_eq hb, hn]⟩
  have hb := isBit_of_readDigits? h
  rw [readDigits?_eq hb] at h
  exact ⟨hb, Option.some.inj h⟩

lemma plussed?_eq_some {cs : List Char} {n : ℕ} :
    plussed? 2 cs = some n ↔ unsigned? 2 cs = some n ∨ ∃ ds, cs = '+' :: ds ∧ unsigned? 2 ds = some n := by
  by_cases hp : ∃ ds, cs = '+' :: ds
  · obtain ⟨ds, rfl⟩ := hp
    have hn : unsigned? 2 ('+' :: ds) ≠ some n := by
      intro h
      exact absurd ((unsigned?_eq_some.mp h).2.1 '+' (by simp)) (by decide)
    rw [plussed?]
    simp [hn]
  · rw [plussed?]
    · simp only [not_exists.mp hp _, false_and, exists_false, or_false]
    · intro ds h
      exact hp ⟨ds, h⟩

end Numeral

namespace Segment

def bits (segs : List Segment) : List Char := segs.flatMap fun s => s.binary.toList

lemma isBit_of_mem_bits {segs : List Segment} {c : Char} (h : c ∈ bits segs) : Numeral.IsBit c := by
  obtain ⟨s, _, hc⟩ := List.mem_flatMap.mp h
  exact Numeral.isBit_of_mem_binary hc

variable {segs : List Segment}

lemma length_bits (hf : ∀ s ∈ segs, s.Fits) (hp : ∀ s ∈ segs, 0 < s.width) : (bits segs).length = totalWidth segs := by
  induction segs with
  | nil => rfl
  | cons s segs ih =>
    have hs : s.binary.toList.length = s.width := Numeral.length_binary (hp s (by simp)) (hf s (by simp))
    rw [bits, List.flatMap_cons, List.length_append, ← bits, hs, totalWidth_cons,
      ih (fun t ht => hf t (by simp [ht])) fun t ht => hp t (by simp [ht])]

lemma ofDigitChars_bits (hf : ∀ s ∈ segs, s.Fits) (hp : ∀ s ∈ segs, 0 < s.width) (init : ℕ) :
    Nat.ofDigitChars 2 (bits segs) init = init * 2 ^ totalWidth segs + number segs := by
  induction segs generalizing init with
  | nil => simp [bits, number]
  | cons s segs ih =>
    rw [bits, List.flatMap_cons, Nat.ofDigitChars_append, ← bits, binary,
      Numeral.ofDigitChars_binary (hp s (by simp)) (hf s (by simp)),
      ih (fun t ht => hf t (by simp [ht])) (fun t ht => hp t (by simp [ht])), totalWidth_cons, number, pow_add]
    ring

lemma isBit_ne_underscore {c : Char} (h : Numeral.IsBit c) : c ≠ '_' := by
  rcases h with rfl | rfl <;> decide

lemma filter_binaryText {sep : String} (hs : ∀ c ∈ sep.toList, c = '_') (segs : List Segment) :
    (binaryText sep segs).toList.filter (· ≠ '_') = bits segs := by
  have hsep : sep.toList.filter (· ≠ '_') = [] := List.filter_eq_nil_iff.mpr (by simpa using hs)
  have hb (s : Segment) : s.binary.toList.filter (· ≠ '_') = s.binary.toList :=
    List.filter_eq_self.mpr fun c hc => by simpa using isBit_ne_underscore (Numeral.isBit_of_mem_binary hc)
  induction segs with
  | nil => rfl
  | cons s segs ih =>
    cases segs with
    | nil => simpa [binaryText, bits] using hb s
    | cons t segs =>
      rw [binaryText] at ih ⊢
      rw [List.map_cons, List.map_cons, String.intercalate_cons_cons, ← List.map_cons]
      simp only [String.toList_append, List.filter_append, hsep, hb, ih, List.append_nil]
      rfl

lemma mem_binaryText {sep : String} (hs : ∀ c ∈ sep.toList, c = '_') {c : Char} (h : c ∈ (binaryText sep segs).toList) :
    c = '0' ∨ c = '1' ∨ c = '_' := by
  by_cases hc : c = '_'
  · exact Or.inr (Or.inr hc)
  · have hm : c ∈ bits segs := by
      rw [← filter_binaryText hs]
      exact List.mem_filter.mpr ⟨h, by simpa using hc⟩
    rcases isBit_of_mem_bits hm with h | h
    · exact Or.inl h
    · exact Or.inr (Or.inl h)

end Segment

end PimAsm
