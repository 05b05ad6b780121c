import Mathlib
import PimAsm.Proofs.Binary
import PimAsm.Proofs.Hexadecimal

/-! Listings are unambiguous: the marks between names, labels and values tell where each ends, the name tells the kind
of an instruction, and the numerals tell its operands. What a text does not tell are the identifiers that a selection
ignores. -/

namespace PimAsm

namespace Text

variable {c : Char} {a a' t t' : List Char}

lemma append_mark_inj (ha : c ∉ a) (ha' : c ∉ a') (h : a ++ c :: t = a' ++ c :: t') : a = a' ∧ t = t' := by
  have hne {b : List Char} (hb : c ∉ b) : ∀ x ∈ b, x ≠ c := fun x hx => ne_of_mem_of_not_mem hx hb
  obtain ⟨rfl, -⟩ := Outcome.first_not_unique (P := (· ≠ c)) h (hne ha) (by simp) (hne ha') (by simp)
  exact ⟨rfl, by simpa using h⟩

lemma append_last_mark_inj (ht : c ∉ t) (ht' : c ∉ t') (h : a ++ c :: t = a' ++ c :: t') : a = a' ∧ t = t' := by
  have hr : t.reverse ++ c :: a.reverse = t'.reverse ++ c :: a'.reverse := by
    simpa using congrArg List.reverse h
  obtain ⟨h1, h2⟩ := append_mark_inj (by simpa using ht) (by simpa using ht') hr
  exact ⟨List.reverse_injective h2, List.reverse_injective h1⟩

end Text

open Text

namespace Listing

/-- An operand whose label and value are free of the marks that end them. The value may hold commas, since the label
after it does not. -/
@[mk_iff]
structure Marked (o : String × String) : Prop where
  label : '=' ∉ o.1.toList
  comma : ',' ∉ o.1.toList
  value : '=' ∉ o.2.toList

@[mk_iff]
structure Legible (l : Listing) : Prop where
  name : ' ' ∉ l.name.toList
  operands : ∀ o ∈ l.operands, Marked o

def operandText (os : List (String × String)) : List Char :=
  (", ".intercalate (os.map fun o => o.1 ++ "=" ++ o.2)).toList

def valueText (o : String × String) (os : List (String × String)) : List Char :=
  o.2.toList ++ if os = [] then [] else ',' :: ' ' :: operandText os

lemma operandText_cons (o : String × String) (os : List (String × String)) :
    operandText (o :: os) = o.1.toList ++ '=' :: valueText o os := by
  cases os with
  | nil => simp [operandText, valueText]
  | cons p os =>
    rw [operandText, List.map_cons, List.map_cons, String.intercalate_cons_cons]
    simp [operandText, valueText]

lemma valueText_cons (o p : String × String) (os : List (String × String)) :
    valueText o (p :: os) = (o.2.toList ++ ',' :: ' ' :: p.1.toList) ++ '=' :: valueText p os := by
  rw [valueText, if_neg (by simp), operandText_cons]
  simp

lemma mark_mem_valueText (o p : String × String) (os : List (String × String)) : '=' ∈ valueText o (p :: os) := by
  rw [valueText_cons]
  simp

-- a value ends where the label of the next operand begins, at the last comma before the next mark
lemma valueText_inj {o o' : String × String} {os os' : List (String × String)} (hm : ∀ q ∈ o :: os, Marked q)
    (hm' : ∀ q ∈ o' :: os', Marked q) (h : valueText o os = valueText o' os') : o.2 = o'.2 ∧ os = os' := by
  induction os generalizing o o' os' with
  | nil =>
    cases os' with
    | nil => exact ⟨String.toList_injective (by simpa [valueText] using h), rfl⟩
    | cons q os' =>
      have hq : '=' ∈ valueText o [] := h ▸ mark_mem_valueText o' q os'
      exact absurd (by simpa [valueText] using hq) (hm o (by simp)).value
  | cons p os ih =>
    cases os' with
    | nil =>
      have hp : '=' ∈ valueText o' [] := h ▸ mark_mem_valueText o p os
      exact absurd (by simpa [valueText] using hp) (hm' o' (by simp)).value
    | cons q os' =>
      have hp := hm p (by simp)
      have hq := hm' q (by simp)
      rw [valueText_cons, valueText_cons] at h
      obtain ⟨h1, h2⟩ := append_mark_inj (by simp [(hm o (by simp)).value, hp.label])
        (by simp [(hm' o' (by simp)).value, hq.label]) h
      obtain ⟨hvalue, hlabel⟩ := append_last_mark_inj (by simp [hp.comma]) (by simp [hq.comma]) h1
      obtain ⟨h3, rfl⟩ := ih (fun x hx => hm x (by simp [hx])) (fun x hx => hm' x (by simp [hx])) h2
      have h4 : p.1 = q.1 := String.toList_injective (by simpa using hlabel)
      exact ⟨String.toList_injective hvalue, by rw [Prod.ext h4 h3]⟩

lemma operandText_inj {o o' : String × String} {os os' : List (String × String)} (hm : ∀ q ∈ o :: os, Marked q)
    (hm' : ∀ q ∈ o' :: os', Marked q) (h : operandText (o :: os) = operandText (o' :: os')) : o :: os = o' :: os' := by
  rw [operandText_cons, operandText_cons] at h
  obtain ⟨h1, h2⟩ := append_mark_inj (hm o (by simp)).label (hm' o' (by simp)).label h
  obtain ⟨h3, rfl⟩ := valueText_inj hm hm' h2
  rw [Prod.ext (String.toList_injective h1) h3]

lemma toList_render_cons (name : String) (o : String × String) (os : List (String × String)) :
    (render ⟨name, o :: os⟩).toList = name.toList ++ ' ' :: operandText (o :: os) := by
  simp [render, operandText]

lemma render_inj {l l' : Listing} (hl : l.Legible) (hl' : l'.Legible) (h : l.render = l'.render) : l = l' := by
  obtain ⟨name, os⟩ := l
  obtain ⟨name', os'⟩ := l'
  have ht := congrArg String.toList h
  cases os with
  | nil =>
    cases os' with
    | nil => exact congrArg (Listing.mk · []) h
    | cons o' os' =>
      rw [toList_render_cons] at ht
      have hs : ' ' ∈ name.toList := ht.symm ▸ by simp
      exact absurd hs hl.name
  | cons o os =>
    cases os' with
    | nil =>
      rw [toList_render_cons] at ht
      have hs : ' ' ∈ name'.toList := ht ▸ by simp
      exact absurd hs hl'.name
    | cons o' os' =>
      rw [toList_render_cons, toList_render_cons] at ht
      obtain ⟨h1, h2⟩ := append_mark_inj hl.name hl'.name ht
      rw [show name = name' from String.toList_injective h1, operandText_inj hl.operands hl'.operands h2]

lemma eq_of_render_eq {α : Type} {read : Listing → Option α} {l l' : Listing} {a a' : α} (hl : l.Legible)
    (hl' : l'.Legible) (ha : read l = some a) (ha' : read l' = some a') (h : l.render = l'.render) : a = a' := by
  rw [render_inj hl hl' h, ha'] at ha
  exact (Option.some.inj ha).symm

end Listing

namespace Numeral

lemma isDigit_of_mem_decimal {n : ℕ} {c : Char} (h : c ∈ (decimal n).toList) : c.isDigit = true := by
  rw [decimal, Nat.toString_eq_repr, Nat.toList_repr] at h
  exact Nat.isDigit_of_mem_toDigits (by decide) (by decide) h

lemma not_mem_decimal {n : ℕ} {c : Char} (hc : c.isDigit = false) : c ∉ (decimal n).toList := by
  intro h
  simp [isDigit_of_mem_decimal h] at hc

lemma digit?_of_isDigit {c : Char} (h : c.isDigit = true) : digit? 10 c = some (c.toNat - '0'.toNat) := by
  obtain ⟨hl, hu⟩ := Char.isDigit_iff_toNat.mp h
  have h9 : '9'.toNat = '0'.toNat + 9 := rfl
  rw [digit?, if_pos ⟨hl, by omega⟩]

lemma unsigned?_decimal (n : ℕ) : unsigned? 10 (decimal n).toList = some n := by
  have hd : (decimal n).toList = Nat.toDigits 10 n := by rw [decimal, Nat.toString_eq_repr, Nat.toList_repr]
  have hn : (decimal n).toList.isEmpty = false := by simp [hd, Nat.toDigits_ne_nil]
  have hv := readDigits?_of_digits fun c hc => digit?_of_isDigit (isDigit_of_mem_decimal (n := n) (c := c) hc)
  rw [unsigned?, hn, if_neg (by decide), hv, hd, Nat.ofDigitChars_toDigits (by decide) (by decide)]

lemma signed?_signed (n : ℤ) : signed? (signed n).toList = some n := by
  rw [signed]
  split_ifs with hn
  · have hl : ("-" ++ decimal n.natAbs).toList = '-' :: (decimal n.natAbs).toList := by simp
    rw [hl, signed?, unsigned?_decimal]
    show some (-(n.natAbs : ℤ)) = some n
    rw [Int.ofNat_natAbs_of_nonpos hn.le, neg_neg]
  · have hd (c : Char) (cs : List Char) (hc : c.isDigit = false) : ¬ (decimal n.natAbs).toList = c :: cs :=
      fun h => not_mem_decimal (n := n.natAbs) hc (by simp [h])
    rw [signed?, plussed?, unsigned?_decimal, Option.map_some]
    · exact congrArg some (Int.natAbs_of_nonneg (not_lt.mp hn))
    · exact fun cs => hd '+' cs (by decide)
    · exact fun cs => hd '-' cs (by decide)

lemma mark_not_mem_decimal (n : ℕ) : '=' ∉ (decimal n).toList := not_mem_decimal (by decide)

lemma mark_not_mem_signed (n : ℤ) : '=' ∉ (signed n).toList := by
  rw [signed]
  split_ifs
  · simp [mark_not_mem_decimal]
  · exact mark_not_mem_decimal _

def bits? (w : ℕ) (s : String) : Option (BitVec w) := (unsigned? 10 s.toList).map (BitVec.ofNat w)

lemma bits?_decimal {w : ℕ} (v : BitVec w) : bits? w (decimal v.toNat) = some v := by
  simp [bits?, unsigned?_decimal]

end Numeral

open Numeral Listing

namespace Gemv.Op

/-- The instruction as its text shows it: zero for the identifiers that a selection ignores. -/
def shown : Op → Op
  | .select .row rowId _ => .select .row rowId 0
  | .select .col _ colId => .select .col 0 colId
  | .select .all _ _ => .select .all 0 0
  | op => op

def namedFn? (name : String) : Option AluFn := [.add, .cpx, .cpy, .sub].find? (·.name = name)

def ofListing? (l : Listing) : Option Op :=
  match l.name, l.operands.map Prod.snd with
  | "NOP", [] => some .nop
  | "WRITE", [addr, data] => do some (.write (← bits? 16 addr) (BitVec.ofNat 16 (← readHex? (data.toList.drop 2))))
  | "UPDATEPP", [pp, multiplicand, multiplier, offset] => do
    let pp := String.ofList ((pp.toList.drop 1).takeWhile Char.isDigit)
    some (.updatePp (← bits? 8 offset) (← bits? 8 pp) (← bits? 8 multiplicand) (← bits? 8 multiplier))
  | "BLOCK_FOLD", [fold, rd, rs] => do some (.accumBlk (← bits? 8 fold) (← bits? 8 rd) (← bits? 8 rs))
  | "ACCUM_ROW", [level, reg] => do some (.accumRow (← bits? 8 level) (← bits? 8 reg))
  | "SELECT_BLOCK", [rowId, colId] => do some (.select .block (← bits? 8 rowId) (← bits? 8 colId))
  | "SELECT_ROW", [rowId] => do some (.select .row (← bits? 8 rowId) 0)
  | "SELECT_COL", [colId] => do some (.select .col 0 (← bits? 8 colId))
  | "SELECT_ALL", [] => some (.select .all 0 0)
  | "MOV", [rd, rs] => do some (.movOffset 0 (← bits? 8 rd) (← bits? 8 rs))
  | "MOV_OFFSET", [offset, rd, rs] => do some (.movOffset (← bits? 8 offset) (← bits? 8 rd) (← bits? 8 rs))
  | "CLRMBIT", [] => some .clrMbit
  | name, [rd, rs1, rs2] => do some (.alu (← namedFn? name) (← bits? 8 rd) (← bits? 8 rs1) (← bits? 8 rs2))
  | _, _ => none

lemma takeWhile_pair (m n : ℕ) :
    (("\x7b" ++ decimal m ++ ", " ++ decimal n ++ "\x7d").toList.drop 1).takeWhile Char.isDigit =
      (decimal m).toList := by
  have hl : ("\x7b" ++ decimal m ++ ", " ++ decimal n ++ "\x7d").toList.drop 1 =
      (decimal m).toList ++ ',' :: (" " ++ decimal n ++ "\x7d").toList := by simp
  have hd : ∀ c ∈ (decimal m).toList, c.isDigit = true := fun c hc => isDigit_of_mem_decimal hc
  rw [hl, List.takeWhile_append_of_pos hd, List.takeWhile_cons_of_neg (by decide), List.append_nil]

lemma ofListing?_listing (op : Op) : ofListing? op.listing = some op.shown := by
  cases op with
  | nop | clrMbit => rfl
  | write addr data => simp [listing, ofListing?, decimalOf, bits?_decimal, readHex?_hexUpper, shown]
  | alu fn rd rs1 rs2 => cases fn <;> simp [listing, AluFn.name, ofListing?, namedFn?, decimalOf, bits?_decimal, shown]
  | updatePp offset pp multiplicand multiplier =>
    simp only [listing, ofListing?, List.map_cons, List.map_nil, decimalOf, takeWhile_pair, String.ofList_toList,
      bits?_decimal]
    rfl
  | accumBlk | accumRow => simp [listing, ofListing?, decimalOf, bits?_decimal, shown]
  | select fn rowId colId => cases fn <;> simp [listing, ofListing?, decimalOf, bits?_decimal, shown]
  | movOffset offset rd rs =>
    rw [listing]
    split_ifs with ho
    · simp [ofListing?, decimalOf, bits?_decimal, shown, ho]
    · simp [ofListing?, decimalOf, bits?_decimal, shown]

lemma listing_shown (op : Op) : op.shown.listing = op.listing := by
  cases op with
  | select fn rowId colId => cases fn <;> rfl
  | _ => rfl

lemma mark_not_mem_hexUpper (n : ℕ) : '=' ∉ (hexUpper 0 n).toList := fun h => absurd (mem_hexUpper h) (by decide)

lemma listing_legible (op : Op) : op.listing.Legible := by
  cases op with
  | alu fn rd rs1 rs2 =>
    cases fn <;> simp [legible_iff, marked_iff, listing, AluFn.name, decimalOf, mark_not_mem_decimal]
  | select fn rowId colId => cases fn <;> simp [legible_iff, marked_iff, listing, decimalOf, mark_not_mem_decimal]
  | movOffset offset rd rs =>
    rw [listing]
    split_ifs <;> simp [legible_iff, marked_iff, decimalOf, mark_not_mem_decimal]
  | _ => simp [legible_iff, marked_iff, listing, decimalOf, mark_not_mem_decimal, mark_not_mem_hexUpper]

lemma text_eq_iff (op op' : Op) : op.text = op'.text ↔ op.shown = op'.shown := by
  constructor
  · exact eq_of_render_eq op.listing_legible op'.listing_legible op.ofListing?_listing op'.ofListing?_listing
  · intro h
    rw [text, text, ← listing_shown op, ← listing_shown op', h]

end Gemv.Op

namespace Vv.Op

def namedFn? (suffix name : String) : Option ArithFn := [.add, .sub, .mult].find? (·.name ++ suffix = name)

def ofListing? (l : Listing) : Option Op :=
  match l.name, l.operands.map Prod.snd with
  | "NOP", [] => some .nop
  | "RELU", [] => some .relu
  | "ACTLOOKUP", [table] => do some (.actLookup (← bits? 8 table))
  | "SHIFTOFF", [] => some .shiftOff
  | "SERIAL_EN", [] => some .serialEn
  | "PARALLEL_EN", [] => some .parallelEn
  | "SELECT_BLOCK", [id] => do some (.selectBlk (← bits? 8 id))
  | "SELECT_ALL", [] => some .selectAll
  | "MOV_O2SREG", [] => some .movO2Sreg
  | "MOV_Y2SREG", [ry] => do some (.movY2Sreg (← bits? 8 ry))
  | "MOV_SREG2R", [rd] => do some (.movSreg2R (← bits? 8 rd))
  | "MOV_OREG2R", [rd] => do some (.movOreg2R (← bits? 8 rd))
  | "MOV_Y2OREG", [ry] => do some (.movY2Oreg (← bits? 8 ry))
  | "MOV_OREG2ACT", [] => some .movOreg2Act
  | "MOV_X2ACT", [rx] => do some (.movX2Act (← bits? 8 rx))
  | "WRITE", [addr, data] => do some (.write (← bits? 16 addr) (BitVec.ofInt 16 (← signed? data.toList)))
  | name, [rx, ry] => do some (.xy (← namedFn? "_XY" name) (← bits? 8 rx) (← bits? 8 ry))
  | name, [rx] => do some (.xsreg (← namedFn? "_XSREG" name) (← bits? 8 rx))
  | _, _ => none

lemma ofListing?_listing (op : Op) : ofListing? op.listing = some op := by
  cases op with
  | xy fn rx ry => cases fn <;> simp [listing, ArithFn.name, ofListing?, namedFn?, decimalOf, bits?_decimal]
  | xsreg fn rx => cases fn <;> simp [listing, ArithFn.name, ofListing?, namedFn?, decimalOf, bits?_decimal]
  | write addr data => simp [listing, ofListing?, decimalOf, bits?_decimal, signed?_signed]
  | _ => simp [listing, ofListing?, decimalOf, bits?_decimal]

lemma listing_legible (op : Op) : op.listing.Legible := by
  cases op with
  | xy fn rx ry => cases fn <;> simp [legible_iff, marked_iff, listing, ArithFn.name, decimalOf, mark_not_mem_decimal]
  | xsreg fn rx => cases fn <;> simp [legible_iff, marked_iff, listing, ArithFn.name, decimalOf, mark_not_mem_decimal]
  | _ => simp [legible_iff, marked_iff, listing, decimalOf, mark_not_mem_decimal, mark_not_mem_signed]

lemma text_inj {op op' : Op} (h : op.text = op'.text) : op = op' :=
  eq_of_render_eq op.listing_legible op'.listing_legible op.ofListing?_listing op'.ofListing?_listing h

end Vv.Op

namespace Instr

def shown : Instr → Instr
  | .gemv op => .gemv op.shown
  | .vv op => .vv op

lemma text_eq_iff (i j : Instr) : i.text = j.text ↔ i.shown = j.shown := by
  cases i with
  | gemv op =>
    cases j with
    | gemv op' => simp [text, shown, Gemv.Op.text_eq_iff]
    | vv op' => simp [text, shown, String.ext_iff]
  | vv op =>
    cases j with
    | gemv op' => simp [text, shown, String.ext_iff]
    | vv op' =>
      have ht : op.text = op'.text ↔ op = op' := ⟨Vv.Op.text_inj, congrArg Vv.Op.text⟩
      simp [text, shown, ht]

end Instr

end PimAsm
