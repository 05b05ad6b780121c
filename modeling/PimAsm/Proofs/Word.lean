import Mathlib
import PimAsm.Proofs.Gemv.Encoding
import PimAsm.Proofs.Vv.Encoding
import PimAsm.Word

namespace PimAsm

lemma Engine.code_lt (e : Engine) : e.code < 4 := by cases e <;> decide

namespace SubWord

lemma Filled.full_fits {w : SubWord} (h : w.Filled) (e : Engine) : ∀ s ∈ w.fullSegments e, s.Fits := by
  rintro s (_ | ⟨_, hs⟩)
  · exact e.code_lt
  · exact h.fits s hs

lemma Filled.full_pos {w : SubWord} (h : w.Filled) (e : Engine) : ∀ s ∈ w.fullSegments e, 0 < s.width := by
  rintro s (_ | ⟨_, hs⟩)
  · exact two_pos
  · exact h.pos s hs

lemma Filled.full_width {w : SubWord} (h : w.Filled) (e : Engine) : Segment.totalWidth (w.fullSegments e) = 32 := by
  rw [fullSegments, Segment.totalWidth_cons, h.width]

lemma Filled.pack_full {w : SubWord} (h : w.Filled) (e : Engine) :
    Segment.pack (w.fullSegments e) = e.code * 1073741824 + w.payload := by
  rw [Segment.pack_eq_number (h.full_fits e) (by rw [h.full_width]; decide), h.payload_eq, fullSegments,
    Segment.number, h.width]
  norm_num

lemma Filled.toNat_word {w : SubWord} (h : w.Filled) (e : Engine) :
    (w.word e).toNat = e.code * 1073741824 + w.payload := by
  have hc := e.code_lt
  have hp := h.payload_lt
  rw [word, BitVec.toNat_ofNat, h.pack_full, Nat.mod_eq_of_lt (by omega)]

end SubWord

namespace Instr

def Fits : Instr → Prop
  | .gemv op => op.Fits
  | .vv op => op.Fits

def subWord : Instr → SubWord
  | .gemv op => op.subWord
  | .vv op => op.subWord

def word (i : Instr) : Word := i.subWord.word i.engine

lemma encode_eq_ok {i : Instr} {w : SubWord} : i.encode = .ok w ↔ i.Fits ∧ w = i.subWord := by
  cases i with
  | gemv op => exact Gemv.Op.encode_eq_ok
  | vv op => exact Vv.Op.encode_eq_ok

lemma subWord_filled {i : Instr} (h : i.Fits) : i.subWord.Filled := by
  cases i with
  | gemv op => exact Gemv.Op.subWord_filled h
  | vv op => exact Vv.Op.subWord_filled op

lemma decode_word {i : Instr} (h : i.Fits) : i.word.decode = .ok i := by
  have hf := subWord_filled h
  have hp := hf.payload_lt
  have hw := hf.toNat_word i.engine
  have h1 : i.word.toNat / 1073741824 = i.engine.code := by
    rw [word, hw]
    omega
  have h2 : i.word.toNat % 1073741824 = i.subWord.payload := by
    rw [word, hw]
    omega
  cases i with
  | gemv op =>
    rw [Word.decode, h1, h2]
    exact congrArg (Instr.gemv <$> ·) (Gemv.Op.decode_payload h)
  | vv op =>
    rw [Word.decode, h1, h2]
    exact congrArg (Instr.vv <$> ·) (Vv.Op.decode_payload h)

end Instr

end PimAsm
