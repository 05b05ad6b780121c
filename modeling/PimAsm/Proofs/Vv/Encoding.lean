import Mathlib
import PimAsm.Proofs.Segment
import PimAsm.Vv.Op

/-! Vector instructions and their payloads. Only the table of an activation and the address of a write can be too
large to encode; the payload of every other instruction decodes to it. -/

namespace PimAsm.Vv

lemma Opcode.ofCode_code (o : Opcode) : Opcode.ofCode? o.code = some o := by cases o <;> rfl

lemma Opcode.code_lt (o : Opcode) : o.code < 32 := by cases o <;> decide

namespace Op

def Fits : Op → Prop
  | .actLookup table => table.toNat < 4
  | .write addr _ => addr.toNat < 1024
  | _ => True

def fields : Op → ℕ × ℕ
  | .xy _ rx ry => (0, rx.toNat * 256 + ry.toNat)
  | .xsreg _ rx | .movX2Act rx => (0, rx.toNat * 256)
  | .actLookup table => (0, table.toNat)
  | .selectBlk id => (0, id.toNat * 256)
  | .movY2Sreg r | .movSreg2R r | .movOreg2R r | .movY2Oreg r => (0, r.toNat)
  | .write addr data => (addr.toNat % 512, data.toNat)
  | _ => (0, 0)

def subWord (op : Op) : SubWord := ⟨⟨op.opcode.code, 5⟩, ⟨op.fields.1, 9⟩, ⟨op.fields.2, 16⟩⟩

lemma fields_lt (op : Op) : op.fields.1 < 512 ∧ op.fields.2 < 65536 := by
  cases op <;> simp only [fields] <;> omega

lemma operands_eq_ok {op : Op} {x : ℕ × ℕ} : op.operands = .ok x ↔ op.Fits ∧ x = op.fields := by
  cases op with
  | actLookup table => simp [operands, Fits, fields, Segment.fit_eq_ok, eq_comm (b := x)]
  | write addr data => simp [operands, Fits, fields, Segment.fit_eq_ok, eq_comm (b := x)]
  | _ => simp [operands, Fits, fields, eq_comm (b := x)]

lemma encode_eq_ok {op : Op} {w : SubWord} : op.encode = .ok w ↔ op.Fits ∧ w = op.subWord := by
  have hm (x : ℕ × ℕ) : SubWord.make op.opcode.code x.1 x.2 5 9 16 = .ok w ↔
      x.1 < 512 ∧ x.2 < 65536 ∧ w = ⟨⟨op.opcode.code, 5⟩, ⟨x.1, 9⟩, ⟨x.2, 16⟩⟩ := by
    simp [SubWord.make, Segment.make_eq_ok, op.opcode.code_lt, eq_comm (b := w)]
  simp only [encode, Outcome.bind_eq_ok, hm, operands_eq_ok]
  constructor
  · rintro ⟨_, ⟨hf, rfl⟩, _, _, rfl⟩
    exact ⟨hf, rfl⟩
  · rintro ⟨hf, rfl⟩
    exact ⟨op.fields, ⟨hf, rfl⟩, (fields_lt op).1, (fields_lt op).2, rfl⟩

lemma ofSegments_fields {op : Op} (h : op.Fits) : ofSegments op.opcode op.fields.1 op.fields.2 = op := by
  have hb (r : BitVec 8) : r.toNat % 256 = r.toNat := Nat.mod_eq_of_lt r.isLt
  cases op with
  | xy fn rx ry =>
    cases fn <;> simp [ofSegments, opcode, fields, Segment.div_field, ry.isLt, hb]
  | xsreg fn rx => cases fn <;> simp [ofSegments, opcode, fields]
  | actLookup table => simp [ofSegments, opcode, fields, Nat.mod_eq_of_lt, show table.toNat < 4 from h]
  | write addr data =>
    have ha : addr.toNat < 1024 := h
    by_cases hl : addr.toNat < 512
    · simp [ofSegments, opcode, fields, hl, Nat.mod_eq_of_lt]
    · have hm : 512 + addr.toNat % 512 = addr.toNat := by omega
      simp [ofSegments, opcode, fields, hl, hm]
  | _ => simp [ofSegments, opcode, fields, hb]

lemma subWord_filled (op : Op) : op.subWord.Filled where
  fits := by simp [SubWord.segments, subWord, Segment.Fits, fields_lt op, op.opcode.code_lt]
  pos := by simp [SubWord.segments, subWord]
  width := rfl

lemma payload_subWord (op : Op) :
    op.subWord.payload = op.opcode.code * 33554432 + op.fields.1 * 65536 + op.fields.2 := by
  rw [(subWord_filled op).payload_eq]
  simp [SubWord.segments, subWord, Segment.number]
  ring

lemma decode_payload {op : Op} (h : op.Fits) : decode op.subWord.payload = .ok op := by
  have hl := fields_lt op
  have ho := op.opcode.code_lt
  have hp := payload_subWord op
  have h0 := (subWord_filled op).payload_lt
  have h1 : op.subWord.payload / 33554432 = op.opcode.code := by omega
  have h2 : op.subWord.payload / 65536 % 512 = op.fields.1 := by omega
  have h3 : op.subWord.payload % 65536 = op.fields.2 := by omega
  simp [decode, decode?, h0, h1, h2, h3, Opcode.ofCode_code, ofSegments_fields h]

end Op

end PimAsm.Vv
