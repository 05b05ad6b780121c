import Mathlib
import PimAsm.Gemv.Op
import PimAsm.Proofs.Segment

/-! GEMV instructions and their payloads. An instruction is encodable exactly when its operands fit their fields,
and its payload decodes to it. -/

namespace PimAsm.Gemv

lemma Opcode.ofCode_code (o : Opcode) : Opcode.ofCode? o.code = some o := by cases o <;> rfl

lemma Opcode.code_lt (o : Opcode) : o.code < 16 := by cases o <;> decide

lemma AluFn.ofCode_code (f : AluFn) : AluFn.ofCode? f.code = some f := by cases f <;> rfl

lemma AluFn.code_lt (f : AluFn) : f.code < 4 := by cases f <;> decide

lemma SelectFn.ofCode_code (f : SelectFn) : SelectFn.ofCode? f.code = some f := by cases f <;> rfl

lemma SelectFn.code_lt (f : SelectFn) : f.code < 4 := by cases f <;> decide

namespace Op

/-- Every operand is below the size of its field. -/
def Fits : Op → Prop
  | .nop | .select .. | .clrMbit => True
  | .write addr _ => addr.toNat < 1024
  | .alu _ rd rs1 rs2 => rd.toNat < 64 ∧ rs2.toNat < 64 ∧ rs1.toNat < 64
  | .updatePp offset pp multiplicand multiplier =>
    offset.toNat < 16 ∧ pp.toNat < 64 ∧ multiplicand.toNat < 64 ∧ multiplier.toNat < 64
  | .accumBlk fold rd rs => fold.toNat < 64 ∧ rd.toNat < 64 ∧ rs.toNat < 64
  | .accumRow level reg => level.toNat < 64 ∧ reg.toNat < 64
  | .movOffset offset rd rs => offset.toNat < 16 ∧ rd.toNat < 64 ∧ rs.toNat < 64

def fields : Op → ℕ × ℕ
  | .nop | .clrMbit => (0, 0)
  | .write addr data => (addr.toNat, data.toNat)
  | .alu fn rd rs1 rs2 => (fn.code * 64 + rd.toNat, rs2.toNat * 64 + rs1.toNat)
  | .updatePp offset pp multiplicand multiplier =>
    (offset.toNat * 64 + pp.toNat, multiplicand.toNat * 64 + multiplier.toNat)
  | .accumBlk fold rd rs => (fold.toNat, rd.toNat * 64 + rs.toNat)
  | .accumRow level reg => (64 + level.toNat, reg.toNat)
  | .select fn rowId colId => (fn.code * 64, rowId.toNat * 256 + colId.toNat)
  | .movOffset offset rd rs => (offset.toNat, rd.toNat * 64 + rs.toNat)

def subWord (op : Op) : SubWord := ⟨⟨op.opcode.code, 4⟩, ⟨op.fields.1, 10⟩, ⟨op.fields.2, 16⟩⟩

lemma field6_eq_ok {v : BitVec 8} {n : ℕ} : field6 v = .ok n ↔ v.toNat < 64 ∧ n = v.toNat := by
  simp [field6, Segment.fit_eq_ok]

lemma field4_eq_ok {v : BitVec 8} {n : ℕ} : field4 v = .ok n ↔ v.toNat < 16 ∧ n = v.toNat := by
  simp [field4, Segment.fit_eq_ok]

lemma fields_lt {op : Op} (h : op.Fits) : op.fields.1 < 1024 ∧ op.fields.2 < 65536 := by
  cases op with
  | nop | clrMbit => simp [fields]
  | write addr data => exact ⟨h, data.isLt⟩
  | alu fn rd rs1 rs2 =>
    have hf := fn.code_lt
    simp only [Fits, fields] at *
    omega
  | select fn rowId colId =>
    have hf := fn.code_lt
    simp only [fields]
    omega
  | updatePp | accumBlk | accumRow | movOffset =>
    simp only [Fits, fields] at *
    omega

lemma operands_of_fits {op : Op} (h : op.Fits) : op.operands = .ok op.fields := by
  cases op with
  | nop | clrMbit | write | select => rfl
  | alu | updatePp | accumBlk | accumRow | movOffset => simp_all [operands, Fits, fields, field6_eq_ok, field4_eq_ok]

lemma fits_of_operands {op : Op} {x : ℕ × ℕ} (h : op.operands = .ok x) (hx : x.1 < 1024) : op.Fits := by
  cases op with
  | nop | clrMbit | select => trivial
  | write addr data =>
    cases h
    exact hx
  | alu | updatePp | accumBlk | accumRow | movOffset =>
    simp only [operands, Outcome.bind_eq_ok, field6_eq_ok, field4_eq_ok] at h
    simp only [Fits]
    tauto

lemma encode_eq_ok {op : Op} {w : SubWord} : op.encode = .ok w ↔ op.Fits ∧ w = op.subWord := by
  have hm (x : ℕ × ℕ) : SubWord.make op.opcode.code x.1 x.2 4 10 16 = .ok w ↔
      x.1 < 1024 ∧ x.2 < 65536 ∧ w = ⟨⟨op.opcode.code, 4⟩, ⟨x.1, 10⟩, ⟨x.2, 16⟩⟩ := by
    simp [SubWord.make, Segment.make_eq_ok, op.opcode.code_lt, eq_comm (b := w)]
  simp only [encode, Outcome.bind_eq_ok, hm]
  constructor
  · rintro ⟨x, hx, h1, h2, rfl⟩
    have hf := fits_of_operands hx h1
    rw [operands_of_fits hf] at hx
    cases hx
    exact ⟨hf, rfl⟩
  · rintro ⟨hf, rfl⟩
    exact ⟨op.fields, operands_of_fits hf, (fields_lt hf).1, (fields_lt hf).2, rfl⟩

lemma ofSegments_fields {op : Op} (h : op.Fits) : ofSegments? op.opcode op.fields.1 op.fields.2 = some op := by
  cases op with
  | nop | clrMbit => rfl
  | write addr data => simp [ofSegments?, opcode, fields]
  | alu fn rd rs1 rs2 =>
    obtain ⟨hd, h2, h1⟩ := h
    simp [ofSegments?, opcode, fields, Segment.div_field, Nat.mod_eq_of_lt, hd, h1, h2, AluFn.ofCode_code]
  | updatePp offset pp multiplicand multiplier =>
    obtain ⟨_, hp, hm, hq⟩ := h
    simp [ofSegments?, opcode, fields, Segment.div_field, Nat.mod_eq_of_lt, hp, hm, hq]
  | accumBlk fold rd rs =>
    obtain ⟨hf, hd, hs⟩ := h
    simp [ofSegments?, opcode, fields, Segment.div_field, Nat.mod_eq_of_lt, Nat.div_eq_of_lt, hf, hd, hs]
  | accumRow level reg =>
    obtain ⟨hl, hr⟩ := h
    simp [ofSegments?, opcode, fields, Nat.add_div_left, Nat.mod_eq_of_lt, Nat.div_eq_of_lt, hl, hr]
  | select fn rowId colId =>
    simp [ofSegments?, opcode, fields, Segment.div_field, colId.isLt, Nat.mod_eq_of_lt, SelectFn.ofCode_code]
  | movOffset offset rd rs =>
    obtain ⟨ho, hd, hs⟩ := h
    have ho' : offset.toNat < 64 := by omega
    simp [ofSegments?, opcode, fields, Segment.div_field, Nat.mod_eq_of_lt, Nat.div_eq_of_lt, ho', hd, hs]

lemma subWord_filled {op : Op} (h : op.Fits) : op.subWord.Filled where
  fits := by simp [SubWord.segments, subWord, Segment.Fits, fields_lt h, op.opcode.code_lt]
  pos := by simp [SubWord.segments, subWord]
  width := rfl

lemma payload_subWord {op : Op} (h : op.Fits) :
    op.subWord.payload = op.opcode.code * 67108864 + op.fields.1 * 65536 + op.fields.2 := by
  rw [(subWord_filled h).payload_eq]
  simp [SubWord.segments, subWord, Segment.number]
  ring

lemma decode_payload {op : Op} (h : op.Fits) : decode op.subWord.payload = .ok op := by
  have hl := fields_lt h
  have ho := op.opcode.code_lt
  have hp := payload_subWord h
  have h0 := (subWord_filled h).payload_lt
  have h1 : op.subWord.payload / 67108864 = op.opcode.code := by omega
  have h2 : op.subWord.payload / 65536 % 1024 = op.fields.1 := by omega
  have h3 : op.subWord.payload % 65536 = op.fields.2 := by omega
  simp [decode, decode?, h0, h1, h2, h3, Opcode.ofCode_code, ofSegments_fields h]

end Op

end PimAsm.Gemv
