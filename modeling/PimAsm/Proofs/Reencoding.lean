import Mathlib
import PimAsm.Proofs.Word

/-! Encoding a decoded word again. The format has bits that an instruction does not use: they are cleared and all
others are kept. Only a move can be decoded and not encoded, since its offset is read from a field of six bits and
written to one of four. -/

namespace PimAsm

def SubBits (a b : ℕ) : Prop := a &&& b = a

namespace SubBits

variable {a b k : ℕ}

lemma refl (a : ℕ) : SubBits a a := Nat.and_self a

lemma zero (b : ℕ) : SubBits 0 b := Nat.zero_and b

lemma field {x y : ℕ} (h : SubBits a b) (hxy : SubBits x y) (hx : x < 2 ^ k) (hy : y < 2 ^ k) :
    SubBits (a * 2 ^ k + x) (b * 2 ^ k + y) := by
  apply Nat.eq_of_testBit_eq
  intro j
  rw [Nat.testBit_and, mul_comm a, mul_comm b, Nat.testBit_two_pow_mul_add a hx, Nat.testBit_two_pow_mul_add b hy]
  split_ifs
  · rw [← Nat.testBit_and, hxy]
  · rw [← Nat.testBit_and, h]

lemma mod (b k : ℕ) : SubBits (b % 2 ^ k) b := by
  have hb : b % 2 ^ k < 2 ^ k := Nat.mod_lt _ (by positivity)
  have h := (zero (b / 2 ^ k)).field (refl (b % 2 ^ k)) hb hb
  rwa [zero_mul, zero_add, mul_comm, Nat.div_add_mod] at h

lemma high (b k : ℕ) : SubBits (b / 2 ^ k * 2 ^ k) b := by
  have hb : b % 2 ^ k < 2 ^ k := Nat.mod_lt _ (by positivity)
  have h := (refl (b / 2 ^ k)).field (zero (b % 2 ^ k)) (by positivity) hb
  rwa [add_zero, mul_comm (b / 2 ^ k), Nat.div_add_mod, mul_comm] at h

end SubBits

namespace Gemv

lemma Opcode.code_of_ofCode {n : ℕ} {o : Opcode} (h : Opcode.ofCode? n = some o) : o.code = n := by
  unfold Opcode.ofCode? at h
  split at h <;> cases h <;> rfl

lemma AluFn.code_of_ofCode {n : ℕ} {f : AluFn} (h : AluFn.ofCode? n = some f) : f.code = n := by
  unfold AluFn.ofCode? at h
  split at h <;> cases h <;> rfl

lemma SelectFn.code_of_ofCode {n : ℕ} {f : SelectFn} (h : SelectFn.ofCode? n = some f) : f.code = n := by
  unfold SelectFn.ofCode? at h
  split at h <;> cases h <;> rfl

namespace Op

/-- A move by more than the encoder's field of an offset holds. -/
def FarMove (op : Op) : Prop := ∃ offset rd rs, op = .movOffset offset rd rs ∧ 15 < offset.toNat

variable {op : Op} {o : Opcode} {mid low : ℕ}

lemma fields_of_ofSegments (hm : mid < 1024) (hl : low < 65536) (h : ofSegments? o mid low = some op) :
    op.opcode = o ∧ SubBits op.fields.1 mid ∧ SubBits op.fields.2 low := by
  have hp : mid % 64 % 256 = mid % 64 := by omega
  have hlo : low % 64 % 256 = low % 64 := by omega
  have hhi : low / 64 % 64 % 256 = low / 64 % 64 := by omega
  have hregs : low / 64 % 64 * 64 + low % 64 = low % 2 ^ 12 := by omega
  have hsplit : mid / 64 * 64 + mid % 64 = mid := by omega
  cases o with
  | nop =>
    cases h
    exact ⟨rfl, .zero _, .zero _⟩
  | write =>
    cases h
    refine ⟨rfl, ?_⟩
    simp only [fields, BitVec.toNat_ofNat, Nat.mod_eq_of_lt (show mid < 2 ^ 16 by omega), Nat.mod_eq_of_lt hl]
    exact ⟨.refl _, .refl _⟩
  | read => simp [ofSegments?] at h
  | updatePp =>
    cases h
    have hf : mid / 64 % 256 = mid / 64 := by omega
    refine ⟨rfl, ?_⟩
    simp only [fields, BitVec.toNat_ofNat, Nat.reducePow, hp, hlo, hhi, hf, hsplit, hregs]
    exact ⟨.refl _, .mod _ 12⟩
  | accum =>
    rcases hf : mid / 64 with _ | _ | n
    · simp only [ofSegments?, hf] at h
      cases h
      have hmid : mid % 64 = mid := by omega
      refine ⟨rfl, ?_⟩
      simp only [fields, BitVec.toNat_ofNat, Nat.reducePow, hp, hlo, hhi, hregs]
      rw [hmid]
      exact ⟨.refl _, .mod _ 12⟩
    · simp only [ofSegments?, hf] at h
      cases h
      have hmid : 64 + mid % 64 = mid := by omega
      refine ⟨rfl, ?_⟩
      simp only [fields, BitVec.toNat_ofNat, Nat.reducePow, hp, hlo, hmid]
      exact ⟨.refl _, .mod _ 6⟩
    · simp [ofSegments?, hf] at h
  | alu =>
    obtain ⟨fn, hf, rfl⟩ := Option.map_eq_some_iff.mp h
    refine ⟨rfl, ?_⟩
    simp only [fields, BitVec.toNat_ofNat, Nat.reducePow, hp, hlo, hhi, AluFn.code_of_ofCode hf, hsplit, hregs]
    exact ⟨.refl _, .mod _ 12⟩
  | select =>
    obtain ⟨fn, hf, rfl⟩ := Option.map_eq_some_iff.mp h
    have hids : low / 256 % 256 * 256 + low % 256 % 256 = low := by omega
    refine ⟨rfl, ?_⟩
    simp only [fields, BitVec.toNat_ofNat, Nat.reducePow, SelectFn.code_of_ofCode hf, hids]
    exact ⟨.high _ 6, .refl _⟩
  | mov =>
    simp only [ofSegments?] at h
    split_ifs at h with h0
    cases h
    have hmid : mid % 64 = mid := by omega
    refine ⟨rfl, ?_⟩
    simp only [fields, BitVec.toNat_ofNat, Nat.reducePow, hp, hlo, hhi, hregs]
    rw [hmid]
    exact ⟨.refl _, .mod _ 12⟩
  | super =>
    simp only [ofSegments?] at h
    split_ifs at h with h0
    cases h
    exact ⟨rfl, .zero _, .zero _⟩

lemma fits_of_ofSegments (hm : mid < 1024) (h : ofSegments? o mid low = some op) (hf : ¬ op.FarMove) : op.Fits := by
  have h6 (n : ℕ) : (BitVec.ofNat 8 (n % 64)).toNat < 64 := by
    rw [BitVec.toNat_ofNat]
    omega
  cases o with
  | nop =>
    cases h
    trivial
  | read => simp [ofSegments?] at h
  | write =>
    cases h
    rw [Fits, BitVec.toNat_ofNat]
    omega
  | updatePp =>
    cases h
    refine ⟨?_, h6 _, h6 _, h6 _⟩
    rw [BitVec.toNat_ofNat]
    omega
  | accum =>
    rcases hn : mid / 64 with _ | _ | n
    · simp only [ofSegments?, hn] at h
      cases h
      exact ⟨h6 _, h6 _, h6 _⟩
    · simp only [ofSegments?, hn] at h
      cases h
      exact ⟨h6 _, h6 _⟩
    · simp [ofSegments?, hn] at h
  | alu =>
    obtain ⟨fn, _, rfl⟩ := Option.map_eq_some_iff.mp h
    exact ⟨h6 _, h6 _, h6 _⟩
  | mov =>
    simp only [ofSegments?] at h
    split_ifs at h with h0
    cases h
    exact ⟨by_contra fun ho => hf ⟨_, _, _, rfl, not_lt.mp ho⟩, h6 _, h6 _⟩
  | select =>
    obtain ⟨fn, _, rfl⟩ := Option.map_eq_some_iff.mp h
    trivial
  | super =>
    simp only [ofSegments?] at h
    split_ifs at h with h0
    cases h
    trivial

lemma decode_eq_ok {payload : ℕ} (h : decode payload = .ok op) :
    payload < 1073741824 ∧ ofSegments? op.opcode (payload / 65536 % 1024) (payload % 65536) = some op ∧
      op.opcode.code = payload / 67108864 := by
  unfold decode decode? at h
  split at h
  case h_2 => simp at h
  case h_1 op' hd =>
    cases h
    split_ifs at hd with hp
    obtain ⟨o, ho, hs⟩ := Option.bind_eq_some_iff.mp hd
    obtain ⟨rfl, -⟩ := fields_of_ofSegments (Nat.mod_lt _ (by decide)) (Nat.mod_lt _ (by decide)) hs
    exact ⟨hp, hs, Opcode.code_of_ofCode ho⟩

lemma farMove_or_fits {payload : ℕ} (h : decode payload = .ok op) : op.FarMove ∨ op.Fits := by
  by_cases hf : op.FarMove
  · exact Or.inl hf
  · exact Or.inr (fits_of_ofSegments (Nat.mod_lt _ (by decide)) (decode_eq_ok h).2.1 hf)

lemma payload_sub {payload : ℕ} (h : decode payload = .ok op) (hf : op.Fits) : SubBits op.subWord.payload payload := by
  obtain ⟨hp, hs, ho⟩ := decode_eq_ok h
  obtain ⟨-, hm, hl⟩ := fields_of_ofSegments (Nat.mod_lt _ (by decide)) (Nat.mod_lt _ (by decide)) hs
  have hlt := fields_lt hf
  have hup := (SubBits.refl op.opcode.code).field hm (k := 10) hlt.1 (Nat.mod_lt _ (by decide))
  have hall := hup.field hl (k := 16) hlt.2 (Nat.mod_lt _ (by decide))
  rw [payload_subWord hf]
  convert hall using 1 <;> omega

lemma encode_farMove (h : op.FarMove) : ∃ f, op.encode = Outcome.fail f := by
  obtain ⟨offset, rd, rs, rfl, ho⟩ := h
  refine ⟨.field offset.toNat 4, ?_⟩
  have hg : ¬ offset.toNat ≤ Segment.greatest 4 := by
    rw [Segment.greatest_eq (by decide)]
    omega
  simp [encode, operands, field4, Segment.fit, Segment.make, Outcome.require, hg]
  rfl

end Op

end Gemv

namespace Vv

lemma Opcode.code_of_ofCode {n : ℕ} {o : Opcode} (h : Opcode.ofCode? n = some o) : o.code = n := by
  unfold Opcode.ofCode? at h
  split at h <;> cases h <;> rfl

namespace Op

variable {op : Op} {mid low : ℕ}

lemma opcode_ofSegments (hm : mid < 512) (o : Opcode) : (ofSegments o mid low).opcode = o := by
  cases o with
  | write0 =>
    have h : mid % 65536 < 512 := by omega
    simp [ofSegments, opcode, h]
  | write1 =>
    have h : ¬ (512 + mid) % 65536 < 512 := by omega
    simp [ofSegments, opcode, h]
  | _ => rfl

lemma fields_ofSegments (hm : mid < 512) (hl : low < 65536) (o : Opcode) :
    SubBits (ofSegments o mid low).fields.1 mid ∧ SubBits (ofSegments o mid low).fields.2 low := by
  have hhi : low / 256 % 256 = low / 256 := by omega
  have hlo : low % 256 % 256 = low % 256 := by omega
  have hboth : low / 256 * 256 + low % 256 = low := by omega
  cases o with
  | addXy | subXy | multXy =>
    simp only [ofSegments, fields, BitVec.toNat_ofNat, Nat.reducePow, hhi, hlo, hboth]
    exact ⟨.zero _, .refl _⟩
  | addXsreg | subXsreg | multXsreg | movX2Act | selectBlk =>
    simp only [ofSegments, fields, BitVec.toNat_ofNat, Nat.reducePow, hhi]
    exact ⟨.zero _, .high _ 8⟩
  | movY2Sreg | movSreg2R | movOreg2R | movY2Oreg =>
    simp only [ofSegments, fields, BitVec.toNat_ofNat, Nat.reducePow, hlo]
    exact ⟨.zero _, .mod _ 8⟩
  | actLookup =>
    have h4 : low % 4 % 256 = low % 4 := by omega
    simp only [ofSegments, fields, BitVec.toNat_ofNat, Nat.reducePow, h4]
    exact ⟨.zero _, .mod _ 2⟩
  | write0 =>
    have ha : mid % 65536 % 512 = mid := by omega
    simp only [ofSegments, fields, BitVec.toNat_ofNat, Nat.reducePow, ha, Nat.mod_eq_of_lt hl]
    exact ⟨.refl _, .refl _⟩
  | write1 =>
    have ha : (512 + mid) % 65536 % 512 = mid := by omega
    simp only [ofSegments, fields, BitVec.toNat_ofNat, Nat.reducePow, ha, Nat.mod_eq_of_lt hl]
    exact ⟨.refl _, .refl _⟩
  | _ => exact ⟨.zero _, .zero _⟩

lemma fits_ofSegments (hm : mid < 512) (o : Opcode) : (ofSegments o mid low).Fits := by
  cases o with
  | actLookup | write0 | write1 =>
    simp only [ofSegments, Fits, BitVec.toNat_ofNat]
    omega
  | _ => trivial

lemma decode_eq_ok {payload : ℕ} (h : decode payload = .ok op) :
    payload < 1073741824 ∧ op = ofSegments op.opcode (payload / 65536 % 512) (payload % 65536) ∧
      op.opcode.code = payload / 33554432 := by
  unfold decode decode? at h
  split at h
  case h_2 => simp at h
  case h_1 op' hd =>
    cases h
    split_ifs at hd with hp
    obtain ⟨o, ho, hs⟩ := Option.bind_eq_some_iff.mp hd
    cases hs
    have hm : payload / 65536 % 512 < 512 := Nat.mod_lt _ (by decide)
    rw [opcode_ofSegments hm]
    exact ⟨hp, rfl, Opcode.code_of_ofCode ho⟩

lemma fits_of_decode {payload : ℕ} (h : decode payload = .ok op) : op.Fits := by
  rw [(decode_eq_ok h).2.1]
  exact fits_ofSegments (Nat.mod_lt _ (by decide)) _

lemma payload_sub {payload : ℕ} (h : decode payload = .ok op) : SubBits op.subWord.payload payload := by
  obtain ⟨hp, hs, ho⟩ := decode_eq_ok h
  have hsub := fields_ofSegments (Nat.mod_lt (payload / 65536) (show 0 < 512 by decide))
    (Nat.mod_lt payload (show 0 < 65536 by decide)) op.opcode
  rw [← hs] at hsub
  have hlt := fields_lt op
  have hup := (SubBits.refl op.opcode.code).field hsub.1 (k := 9) hlt.1 (Nat.mod_lt _ (by decide))
  have hall := hup.field hsub.2 (k := 16) hlt.2 (Nat.mod_lt _ (by decide))
  rw [payload_subWord op]
  convert hall using 1 <;> omega

end Op

end Vv

namespace Instr

def FarMove : Instr → Prop
  | .gemv op => op.FarMove
  | .vv _ => False

variable {i : Instr} {w : Word}

lemma farMove_iff :
    i.FarMove ↔ ∃ offset rd rs, i = .gemv (.movOffset offset rd rs) ∧ 15 < offset.toNat := by
  cases i <;> simp [FarMove, Gemv.Op.FarMove]

lemma decode_eq_ok (h : w.decode = .ok i) :
    w.toNat = i.engine.code * 1073741824 + w.toNat % 1073741824 ∧ (i.FarMove ∨ i.Fits) ∧
      (i.Fits → SubBits i.subWord.payload (w.toNat % 1073741824)) := by
  simp only [Word.decode] at h
  split at h
  · rename_i hc
    obtain ⟨op, ho, rfl⟩ := Outcome.map_eq_ok.mp h
    exact ⟨by simp only [engine, Engine.code]; omega, Gemv.Op.farMove_or_fits ho, Gemv.Op.payload_sub ho⟩
  · rename_i hc
    obtain ⟨op, ho, rfl⟩ := Outcome.map_eq_ok.mp h
    exact ⟨by simp only [engine, Engine.code]; omega, Or.inr (Vv.Op.fits_of_decode ho), fun _ => Vv.Op.payload_sub ho⟩
  · simp at h

lemma encode_farMove (h : i.FarMove) : ∃ f, i.encode = Outcome.fail f := by
  cases i with
  | gemv op => exact Gemv.Op.encode_farMove h
  | vv op => exact h.elim

lemma word_and (h : w.decode = .ok i) (hf : i.Fits) : i.word &&& w = i.word := by
  obtain ⟨hw, -, hs⟩ := decode_eq_ok h
  have hp := (subWord_filled hf).payload_lt
  have hall := (SubBits.refl i.engine.code).field (hs hf) (k := 30) hp (Nat.mod_lt _ (by decide))
  apply BitVec.eq_of_toNat_eq
  rw [BitVec.toNat_and, word, (subWord_filled hf).toNat_word, hw]
  exact hall

end Instr

theorem codec_inverse :
    (∀ (op : Gemv.Op) (sw : SubWord), op.encode = .ok sw →
      Segment.totalWidth sw.segments = 30 ∧ Gemv.Op.decode sw.payload = .ok op) ∧
    (∀ (op : Vv.Op) (sw : SubWord), op.encode = .ok sw →
      Segment.totalWidth sw.segments = 30 ∧ Vv.Op.decode sw.payload = .ok op) ∧
    ∀ (w : Word) (i : Instr), w.decode = .ok i →
      ((∃ f, i.encode = Outcome.fail f) ↔ ∃ offset rd rs, i = .gemv (.movOffset offset rd rs) ∧ 15 < offset.toNat) ∧
      ((¬ ∃ offset rd rs, i = .gemv (.movOffset offset rd rs) ∧ 15 < offset.toNat) →
        ∃ sw, i.encode = .ok sw ∧ (sw.word i.engine).decode = .ok i ∧ sw.word i.engine &&& w = sw.word i.engine) := by
  refine ⟨fun op sw h => ?_, fun op sw h => ?_, fun w i h => ?_⟩
  · obtain ⟨hf, rfl⟩ := Gemv.Op.encode_eq_ok.mp h
    exact ⟨(Gemv.Op.subWord_filled hf).width, Gemv.Op.decode_payload hf⟩
  · obtain ⟨hf, rfl⟩ := Vv.Op.encode_eq_ok.mp h
    exact ⟨(Vv.Op.subWord_filled op).width, Vv.Op.decode_payload hf⟩
  · simp only [← Instr.farMove_iff]
    obtain ⟨-, hor, -⟩ := Instr.decode_eq_ok h
    have hfits (hf : ¬ i.FarMove) : i.Fits := hor.resolve_left hf
    have hok (hf : ¬ i.FarMove) : i.encode = .ok i.subWord := Instr.encode_eq_ok.mpr ⟨hfits hf, rfl⟩
    refine ⟨⟨?_, Instr.encode_farMove⟩, fun hf => ?_⟩
    · rintro ⟨f, hfail⟩
      by_contra hf
      simp [hok hf, Outcome.fail] at hfail
    · exact ⟨_, hok hf, Instr.decode_word (hfits hf), Instr.word_and h (hfits hf)⟩

/-- The unused bits of an addition across blocks are cleared, and a move by 63 cannot be encoded. -/
theorem codec_inverse_unused_bits :
    let i := Instr.gemv (.accumRow 3 7)
    let m := Instr.gemv (.movOffset 63 1 2)
    Word.decode 0x1043FFC7 = .ok i ∧ (∃ sw, i.encode = .ok sw ∧ (sw.word .gemv).decode = .ok i ∧
      sw.word .gemv &&& 0x1043FFC7 = sw.word .gemv) ∧
    Word.decode 0x1C3F0042 = .ok m ∧ ∃ f, m.encode = Outcome.fail f := by
  intro i m
  have hi : Word.decode 0x1043FFC7 = .ok i := by decide
  have hm : Word.decode 0x1C3F0042 = .ok m := by decide
  have h := codec_inverse.2.2
  exact ⟨hi, (h _ i hi).2 (by simp [i]), hm, (h _ m hm).1.mpr ⟨63, 1, 2, rfl, by decide⟩⟩

end PimAsm
