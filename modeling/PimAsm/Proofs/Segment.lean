import Mathlib
import PimAsm.Bits.Segment
import PimAsm.Proofs.Outcome

/-! Packing is positional notation: segments that fit their widths add up without carries. -/

namespace PimAsm

namespace Segment

def Fits (s : Segment) : Prop := s.value < 2 ^ s.width

def number : List Segment → ℕ
  | [] => 0
  | s :: segs => s.value * 2 ^ totalWidth segs + number segs

@[simp] lemma totalWidth_nil : totalWidth [] = 0 := rfl

@[simp] lemma totalWidth_cons (s : Segment) (segs : List Segment) :
    totalWidth (s :: segs) = s.width + totalWidth segs := rfl

lemma greatest_eq {w : ℕ} (hw : w ≤ 64) : greatest w = 2 ^ w - 1 := by
  rw [greatest, Nat.min_eq_left hw, Nat.shiftLeft_eq, one_mul]

lemma make_eq_ok {v w : ℕ} {s : Segment} (hw : w < 32) : make v w = .ok s ↔ v < 2 ^ w ∧ s = ⟨v, w⟩ := by
  have hp : 0 < 2 ^ w := by positivity
  have hv : v ≤ greatest w ↔ v < 2 ^ w := by
    rw [greatest_eq (by omega)]
    omega
  simp [make, hw, hv, hw.le, eq_comm (b := s)]

lemma fit_eq_ok {v w n : ℕ} (hw : w < 32) : fit v w = .ok n ↔ v < 2 ^ w ∧ n = v := by
  simp only [fit, bind_pure_comp, Outcome.map_eq_ok, make_eq_ok hw]
  constructor
  · rintro ⟨s, ⟨hv, rfl⟩, rfl⟩
    exact ⟨hv, rfl⟩
  · rintro ⟨hv, rfl⟩
    exact ⟨_, ⟨hv, rfl⟩, rfl⟩

lemma div_field {a b n : ℕ} (h : a < n) : (b * n + a) / n = b := by
  rw [Nat.mul_comm, Nat.mul_add_div (by omega), Nat.div_eq_of_lt h, add_zero]

lemma number_lt {segs : List Segment} (h : ∀ s ∈ segs, s.Fits) : number segs < 2 ^ totalWidth segs := by
  induction segs with
  | nil => simp [number]
  | cons s segs ih =>
    have hs : s.value + 1 ≤ 2 ^ s.width := h s (by simp)
    have hi := ih fun t ht => h t (by simp [ht])
    calc number (s :: segs) < s.value * 2 ^ totalWidth segs + 2 ^ totalWidth segs := by
          simpa [number] using hi
      _ = (s.value + 1) * 2 ^ totalWidth segs := by ring
      _ ≤ 2 ^ s.width * 2 ^ totalWidth segs := Nat.mul_le_mul_right _ hs
      _ = 2 ^ totalWidth (s :: segs) := by rw [totalWidth_cons, pow_add]

lemma shift_or {acc v k w : ℕ} (ha : acc < 2 ^ k) (hv : v < 2 ^ w) (hk : k + w ≤ 64) :
    (acc <<< w % 18446744073709551616 ||| v) = acc * 2 ^ w + v := by
  have hlt : acc * 2 ^ w < 18446744073709551616 := by
    calc acc * 2 ^ w < 2 ^ k * 2 ^ w := Nat.mul_lt_mul_of_pos_right ha (by positivity)
      _ = 2 ^ (k + w) := (pow_add 2 k w).symm
      _ ≤ 2 ^ 64 := Nat.pow_le_pow_right (by omega) hk
  rw [Nat.shiftLeft_eq, Nat.mod_eq_of_lt hlt, Nat.mul_comm, Nat.two_pow_add_eq_or_of_lt hv]

lemma pack_from {segs : List Segment} (h : ∀ s ∈ segs, s.Fits) {acc k : ℕ} (ha : acc < 2 ^ k)
    (hk : k + totalWidth segs ≤ 64) :
    segs.foldl (fun word s => word <<< s.width % 18446744073709551616 ||| s.value) acc =
      acc * 2 ^ totalWidth segs + number segs := by
  -- `k` is the width already filled, which bounds the accumulator
  induction segs generalizing acc k with
  | nil => simp [number]
  | cons s segs ih =>
    have hs : s.value < 2 ^ s.width := h s (by simp)
    rw [totalWidth_cons] at hk
    have hn : acc * 2 ^ s.width + s.value < 2 ^ (k + s.width) := by
      have hm : (acc + 1) * 2 ^ s.width ≤ 2 ^ k * 2 ^ s.width := Nat.mul_le_mul_right _ ha
      rw [pow_add]
      linarith
    rw [List.foldl_cons, shift_or ha hs (by omega),
      ih (fun t ht => h t (by simp [ht])) hn (by omega), totalWidth_cons, number, pow_add]
    ring

lemma pack_eq_number {segs : List Segment} (h : ∀ s ∈ segs, s.Fits) (hw : totalWidth segs ≤ 64) :
    pack segs = number segs := by
  have hp := pack_from h (show 0 < 2 ^ 0 by simp) (by simpa using hw)
  rwa [zero_mul, zero_add] at hp

end Segment

namespace SubWord

/-- Three segments that fill the thirty bits of a payload. -/
structure Filled (w : SubWord) : Prop where
  fits : ∀ s ∈ w.segments, s.Fits
  pos : ∀ s ∈ w.segments, 0 < s.width
  width : Segment.totalWidth w.segments = 30

lemma Filled.payload_eq {w : SubWord} (h : w.Filled) : w.payload = Segment.number w.segments :=
  Segment.pack_eq_number h.fits (by rw [h.width]; decide)

lemma Filled.payload_lt {w : SubWord} (h : w.Filled) : w.payload < 1073741824 := by
  have hn := Segment.number_lt h.fits
  rwa [← h.payload_eq, h.width] at hn

end SubWord

end PimAsm
