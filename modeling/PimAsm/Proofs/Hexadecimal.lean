import Mathlib
import PimAsm.Proofs.OneLine

namespace PimAsm.Numeral

def hexDigit? (c : Char) : Option ℕ :=
  if '0' ≤ c ∧ c ≤ '9' then some (c.toNat - '0'.toNat)
  else if 'A' ≤ c ∧ c ≤ 'F' then some (c.toNat - 'A'.toNat + 10)
  else if 'a' ≤ c ∧ c ≤ 'f' then some (c.toNat - 'a'.toNat + 10)
  else none

def readHex? (cs : List Char) : Option ℕ := cs.foldlM (fun n c => (hexDigit? c).map (16 * n + ·)) 0

def upperDigits : List Char := "0123456789ABCDEF".toList

lemma hexDigit?_toUpper : ∀ d < 16, hexDigit? (Nat.digitChar d).toUpper = some d := by decide

lemma toUpper_mem_upperDigits : ∀ d < 16, (Nat.digitChar d).toUpper ∈ upperDigits := by decide

lemma mem_hexUpper {width n : ℕ} {c : Char} (h : c ∈ (hexUpper width n).toList) : c ∈ upperDigits := by
  rw [hexUpper, String.toList_ofList, List.leftpad, List.mem_append] at h
  rcases h with h | h
  · rw [List.eq_of_mem_replicate h]
    decide
  · obtain ⟨e, he, rfl⟩ := List.mem_map.mp h
    obtain ⟨d, hd, rfl⟩ := mem_toDigits (by decide) he
    exact toUpper_mem_upperDigits d hd

lemma length_hexUpper {width n : ℕ} (hw : 0 < width) (hn : n < 16 ^ width) :
    (hexUpper width n).toList.length = width := by
  rw [hexUpper, String.toList_ofList, List.length_leftpad, List.length_map]
  exact max_eq_left ((Nat.length_toDigits_le_iff (by decide) hw).mpr hn)

lemma readHex?_concat {cs : List Char} {n : ℕ} (h : readHex? cs = some n) {c : Char} {d : ℕ}
    (hd : hexDigit? c = some d) : readHex? (cs ++ [c]) = some (16 * n + d) := by
  rw [readHex?] at h ⊢
  simp [List.foldlM_append, h, hd]

lemma readHex?_toDigits (n : ℕ) : readHex? ((Nat.toDigits 16 n).map Char.toUpper) = some n := by
  induction n using Nat.strong_induction_on with
  | _ n ih =>
    rw [Nat.toDigits_eq_if (by decide)]
    split_ifs with hn
    · simp [readHex?, hexDigit?_toUpper n hn]
    · have hd := hexDigit?_toUpper (n % 16) (Nat.mod_lt _ (by decide))
      rw [List.map_append, List.map_singleton, readHex?_concat (ih (n / 16) (by omega)) hd, Nat.div_add_mod]

lemma readHex?_hexUpper (width n : ℕ) : readHex? (hexUpper width n).toList = some n := by
  have hz (k : ℕ) (cs : List Char) : readHex? (List.replicate k '0' ++ cs) = readHex? cs := by
    induction k with
    | zero => rfl
    | succ k ih => exact ih
  rw [hexUpper, String.toList_ofList, List.leftpad, hz, readHex?_toDigits]

end PimAsm.Numeral
