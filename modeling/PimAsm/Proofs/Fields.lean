import Mathlib
import PimAsm.Proofs.Binary

/-! Fields of a word: packing and splitting undo each other, and the binary text of the fields is the packed word in
base two. -/

namespace PimAsm.Segment

variable {segs : List Segment}

lemma make_eq_ok_of_lt {v w : ℕ} {s : Segment} (hv : v < 2 ^ 32) :
    make v w = .ok s ↔ w ≤ 32 ∧ v < 2 ^ w ∧ s = ⟨v, w⟩ := by
  rcases lt_trichotomy w 32 with hw | rfl | hw
  · simp [make_eq_ok hw, hw.le]
  · simpa [make, eq_comm (b := s)] using fun _ => hv
  · simp [make, hw.not_ge]

lemma unpack_number (h : ∀ s ∈ segs, s.Fits) (above : ℕ) :
    unpack (above * 2 ^ totalWidth segs + number segs) (segs.map width) = segs.map value := by
  -- the number above the fields grows by one field at a time
  induction segs generalizing above with
  | nil => rfl
  | cons s segs ih =>
    have hs : s.value < 2 ^ s.width := h s (by simp)
    have ht : ∀ t ∈ segs, t.Fits := fun t ht => h t (by simp [ht])
    have hw : above * 2 ^ totalWidth (s :: segs) + number (s :: segs) =
        (above * 2 ^ s.width + s.value) * 2 ^ totalWidth segs + number segs := by
      rw [totalWidth_cons, number, pow_add]
      ring
    rw [hw, List.map_cons, List.map_cons, unpack, ih ht, ← totalWidth, Nat.shiftRight_eq_div_pow,
      div_field (number_lt ht), Nat.one_shiftLeft, Nat.mul_add_mod_self_right, Nat.mod_eq_of_lt hs]

lemma unpack_pack (h : ∀ s ∈ segs, s.Fits) (hw : totalWidth segs ≤ 64) :
    unpack (pack segs) (segs.map width) = segs.map value := by
  have hu := unpack_number h 0
  rwa [zero_mul, zero_add, ← pack_eq_number h hw] at hu

def split (word : ℕ) (widths : List ℕ) : List Segment := ((unpack word widths).zip widths).map fun f => ⟨f.1, f.2⟩

lemma split_cons (word w : ℕ) (widths : List ℕ) :
    split word (w :: widths) = ⟨word >>> widthSum widths % 1 <<< w, w⟩ :: split word widths := rfl

lemma totalWidth_split (word : ℕ) (widths : List ℕ) : totalWidth (split word widths) = widthSum widths := by
  induction widths with
  | nil => rfl
  | cons w widths ih => rw [split_cons, totalWidth_cons, ih, widthSum]

lemma of_mem_split {word : ℕ} {widths : List ℕ} {s : Segment} (h : s ∈ split word widths) :
    s.width ∈ widths ∧ s.Fits := by
  induction widths with
  | nil => simp [split, unpack] at h
  | cons w widths ih =>
    rcases List.mem_cons.mp h with rfl | h
    · rw [Fits, Nat.one_shiftLeft]
      exact ⟨List.mem_cons_self, Nat.mod_lt _ (by positivity)⟩
    · exact ⟨List.mem_cons_of_mem w (ih h).1, (ih h).2⟩

lemma number_split (word : ℕ) (widths : List ℕ) : number (split word widths) = word % 2 ^ widthSum widths := by
  induction widths with
  | nil => simp [split, unpack, number, widthSum, Nat.mod_one]
  | cons w widths ih =>
    rw [split_cons, number, ih, totalWidth_split, Nat.shiftRight_eq_div_pow, Nat.one_shiftLeft, widthSum, add_comm w,
      pow_add, Nat.mod_mul, add_comm, mul_comm]

lemma pack_split {word : ℕ} {widths : List ℕ} (hw : widthSum widths ≤ 64) (h : word < 2 ^ widthSum widths) :
    pack (split word widths) = word := by
  rw [pack_eq_number (fun s hs => (of_mem_split hs).2) (by rwa [totalWidth_split]), number_split, Nat.mod_eq_of_lt h]

lemma readable_of_le {widths : List ℕ} (h : ∀ w ∈ widths, w ≤ 32) (hw : widthSum widths ≤ 64) :
    readable widths = true := by
  induction widths with
  | nil => rfl
  | cons w widths ih =>
    rw [widthSum] at hw
    simp [readable, h w (by simp), hw, ih (fun w hm => h w (by simp [hm])) (by omega)]

lemma packChecked_eq (h : ∀ s ∈ segs, s.width ≤ 32) : packChecked segs = .ok (pack segs) := by
  have hl : ∀ s ∈ segs, s.width < 64 := fun s hs => (h s hs).trans_lt (by decide)
  simp [packChecked, Outcome.within, if_pos hl]

lemma unpackChecked_eq {widths : List ℕ} (h : ∀ w ∈ widths, w ≤ 32) (hw : widthSum widths ≤ 64) (word : ℕ) :
    unpackChecked word widths = .ok (unpack word widths) := by
  simp [unpackChecked, Outcome.within, readable_of_le h hw]

lemma toList_binaryText_empty (segs : List Segment) : (binaryText "" segs).toList = bits segs := by
  induction segs with
  | nil => rfl
  | cons s segs ih =>
    cases segs with
    | nil => simp [binaryText, bits]
    | cons t segs =>
      rw [binaryText] at ih ⊢
      rw [List.map_cons, List.map_cons, String.intercalate_cons_cons, ← List.map_cons, String.append_empty,
        String.toList_append, ih]
      rfl

lemma mapM_make_unpack {word : ℕ} {widths : List ℕ} (h : ∀ w ∈ widths, w ≤ 32) :
    ((unpack word widths).zip widths).mapM (fun f => make f.1 f.2) = .ok (split word widths) := by
  refine Outcome.mapM_of_forall fun f hf => ?_
  obtain ⟨hm, hv⟩ := of_mem_split (List.mem_map_of_mem (f := fun f => mk f.1 f.2) hf)
  have hw : f.2 ≤ 32 := h f.2 hm
  have hlt : f.1 < 2 ^ 32 := Nat.lt_of_lt_of_le hv (Nat.pow_le_pow_right two_pos hw)
  exact (make_eq_ok_of_lt hlt).mpr ⟨hw, hv, rfl⟩

theorem fields_inverse :
    (∀ segs : List Segment, (∀ s ∈ segs, 1 ≤ s.width ∧ ∃ v : BitVec 32, make v.toNat s.width = .ok s) →
      totalWidth segs ≤ 64 →
        packChecked segs = .ok (pack segs) ∧ unpackChecked (pack segs) (segs.map width) = .ok (segs.map value) ∧
        (binaryText "" segs).length = totalWidth segs ∧
        Numeral.readDigits? 2 (binaryText "" segs).toList = some (pack segs)) ∧
    ∀ (widths : List ℕ) (word : ℕ), (∀ w ∈ widths, w ≤ 32) → widthSum widths ≤ 64 → word < 2 ^ widthSum widths →
      ∃ values segs, unpackChecked word widths = .ok values ∧
        (values.zip widths).mapM (fun f => make f.1 f.2) = .ok segs ∧ packChecked segs = .ok word := by
  refine ⟨fun segs h hw => ?_, fun widths word h hw hl => ?_⟩
  · have hp : ∀ s ∈ segs, 0 < s.width := fun s hs => (h s hs).1
    have hmade : ∀ s ∈ segs, s.width ≤ 32 ∧ s.Fits := by
      intro s hs
      obtain ⟨-, v, hv⟩ := h s hs
      obtain ⟨h32, hlt, he⟩ := (make_eq_ok_of_lt v.isLt).mp hv
      refine ⟨h32, ?_⟩
      rw [he]
      exact hlt
    have hf : ∀ s ∈ segs, s.Fits := fun s hs => (hmade s hs).2
    have h32 : ∀ s ∈ segs, s.width ≤ 32 := fun s hs => (hmade s hs).1
    refine ⟨packChecked_eq h32, ?_, ?_, ?_⟩
    · rw [unpackChecked_eq (by simpa using h32) hw, unpack_pack hf hw]
    · rw [← String.length_toList, toList_binaryText_empty, length_bits hf hp]
    · rw [toList_binaryText_empty, Numeral.readDigits?_eq fun _ => isBit_of_mem_bits, ofDigitChars_bits hf hp,
        zero_mul, zero_add, pack_eq_number hf hw]
  · refine ⟨_, _, unpackChecked_eq h hw word, mapM_make_unpack h, ?_⟩
    rw [packChecked_eq fun s hs => h s.width (of_mem_split hs).1, pack_split hw hl]

theorem fields_inverse_full_word :
    let segs : List Segment := [⟨2, 2⟩, ⟨0, 14⟩, ⟨4294967295, 32⟩, ⟨48879, 16⟩]
    (unpackChecked (pack segs) [2, 14, 32, 16] = .ok [2, 0, 4294967295, 48879] ∧ (binaryText "" segs).length = 64 ∧
      Numeral.readDigits? 2 (binaryText "" segs).toList = some (pack segs)) ∧
    ∃ values fields, unpackChecked 18446744073709551614 [0, 32, 0, 32] = .ok values ∧
      (values.zip [0, 32, 0, 32]).mapM (fun f => make f.1 f.2) = .ok fields ∧
      packChecked fields = .ok 18446744073709551614 := by
  intro segs
  have hm : ∀ s ∈ segs, 1 ≤ s.width ∧ ∃ v : BitVec 32, make v.toNat s.width = .ok s := by
    simp only [segs, List.forall_mem_cons]
    exact ⟨⟨by decide, 2, rfl⟩, ⟨by decide, 0, rfl⟩, ⟨by decide, 4294967295, rfl⟩, ⟨by decide, 48879, rfl⟩, by simp⟩
  obtain ⟨-, hu, hl, hr⟩ := fields_inverse.1 segs hm (by decide)
  exact ⟨⟨hu, hl, hr⟩, fields_inverse.2 [0, 32, 0, 32] 18446744073709551614 (by decide) (by decide) (by decide)⟩

end PimAsm.Segment
