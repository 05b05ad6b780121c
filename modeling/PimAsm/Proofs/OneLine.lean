import Mathlib
import PimAsm.Gemv.Macro
import PimAsm.Vv.Macro
import PimAsm.Word

namespace PimAsm

namespace Text

def OneLine (s : String) : Prop := '\n' ∉ s.toList

instance (s : String) : Decidable (OneLine s) := inferInstanceAs (Decidable (¬ _))

@[simp] lemma oneLine_append {a b : String} : OneLine (a ++ b) ↔ OneLine a ∧ OneLine b := by
  simp only [OneLine, String.toList_append, List.mem_append, not_or]

lemma OneLine.intercalate {sep : String} {ss : List String} (hs : OneLine sep) (h : ∀ s ∈ ss, OneLine s) :
    OneLine (sep.intercalate ss) := by
  induction ss with
  | nil => simp [OneLine]
  | cons s ss ih =>
    cases ss with
    | nil => simpa using h
    | cons t ss =>
      rw [String.intercalate_cons_cons]
      simp only [oneLine_append]
      exact ⟨⟨h s (by simp), hs⟩, ih fun u hu => h u (by simp [hu])⟩

end Text

open Text

namespace Numeral

lemma mem_toDigits {b n : ℕ} (hb : 1 < b) {c : Char} (h : c ∈ Nat.toDigits b n) :
    ∃ d < b, c = Nat.digitChar d := by
  induction n using Nat.strong_induction_on with
  | _ n ih =>
    rw [Nat.toDigits_eq_if hb] at h
    split_ifs at h with hn
    · exact ⟨n, hn, by simpa using h⟩
    · rcases List.mem_append.mp h with h | h
      · exact ih (n / b) (Nat.div_lt_self (by omega) hb) h
      · exact ⟨n % b, Nat.mod_lt _ (by omega), by simpa using h⟩

lemma digitChar_ne : ∀ d, Nat.digitChar d ≠ '\n' ∧ (Nat.digitChar d).toUpper ≠ '\n'
  | 0 | 1 | 2 | 3 | 4 | 5 | 6 | 7 | 8 | 9 | 10 | 11 | 12 | 13 | 14 | 15 => by decide
  | _ + 16 => by simp [Nat.digitChar]

@[simp] lemma decimal_oneLine (n : ℕ) : OneLine (decimal n) := by
  simp only [OneLine, decimal, Nat.toString_eq_repr, Nat.toList_repr]
  intro h
  obtain ⟨d, _, hd⟩ := mem_toDigits (by decide) h
  exact (digitChar_ne d).1 hd.symm

@[simp] lemma decimalOf_oneLine {w : ℕ} (v : BitVec w) : OneLine (decimalOf v) := decimal_oneLine _

@[simp] lemma signed_oneLine (n : ℤ) : OneLine (signed n) := by
  rw [signed]
  split <;> simp +decide

@[simp] lemma hexUpper_oneLine (n : ℕ) : OneLine (hexUpper 0 n) := by
  simp only [OneLine, hexUpper, String.toList_ofList, List.leftpad, List.mem_append, List.mem_map]
  rintro (h | ⟨c, h, hc⟩)
  · simp at h
  · obtain ⟨d, _, rfl⟩ := mem_toDigits (by decide) h
    exact (digitChar_ne d).2 hc

end Numeral

open Numeral

lemma Listing.render_oneLine {l : Listing} (hn : OneLine l.name)
    (ho : ∀ o ∈ l.operands, OneLine o.1 ∧ OneLine o.2) : OneLine l.render := by
  rw [render]
  split
  · exact hn
  · have hi : OneLine (", ".intercalate (l.operands.map fun o => o.1 ++ "=" ++ o.2)) := by
      refine OneLine.intercalate (by decide) fun s hs => ?_
      obtain ⟨o, hm, rfl⟩ := List.mem_map.mp hs
      simpa +decide using ho o hm
    simpa +decide [hn] using hi

lemma Gemv.Op.text_oneLine (op : Gemv.Op) : OneLine op.text := by
  have hl : OneLine op.listing.name ∧ ∀ o ∈ op.listing.operands, OneLine o.1 ∧ OneLine o.2 := by
    cases op with
    | alu fn => cases fn <;> simp +decide [listing, AluFn.name]
    | select fn => cases fn <;> simp +decide [listing]
    | movOffset offset =>
      rw [listing]
      split <;> simp +decide
    | _ => simp +decide [listing]
  exact Listing.render_oneLine hl.1 hl.2

lemma Vv.Op.text_oneLine (op : Vv.Op) : OneLine op.text := by
  have hl : OneLine op.listing.name ∧ ∀ o ∈ op.listing.operands, OneLine o.1 ∧ OneLine o.2 := by
    cases op with
    | xy fn | xsreg fn => cases fn <;> simp +decide [listing, ArithFn.name]
    | _ => simp +decide [listing]
  exact Listing.render_oneLine hl.1 hl.2

lemma Instr.text_oneLine (i : Instr) : OneLine i.text := by
  cases i with
  | gemv op => simpa +decide [text] using Gemv.Op.text_oneLine op
  | vv op => simpa +decide [text] using Vv.Op.text_oneLine op

lemma Gemv.Macro.text_oneLine (m : Gemv.Macro) : OneLine m.text := by
  unfold text
  cases m <;> simp only [oneLine_append, decimal_oneLine, and_true] <;> decide

lemma Vv.Macro.text_oneLine (m : Vv.Macro) : OneLine m.text := by
  unfold text
  cases m <;> simp only [oneLine_append, decimal_oneLine, and_true] <;> decide

end PimAsm
