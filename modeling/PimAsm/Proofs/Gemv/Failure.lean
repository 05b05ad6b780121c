import Mathlib
import PimAsm.Proofs.Gemv.Robustness

/-! What a block keeps when an instruction stops it: everything, unless the instruction is a product that begins at the
last register. Such a product has already stored its low half and the multiplier bits. -/

namespace PimAsm.Gemv

namespace Block

variable {p : Limits} {b b' : Block} {op : Op} {e : Halt}

lemma exec_error (hp : p.Valid) (h : b.Sound p) (hf : op.FarMove ∨ op.Fits) (he : b.exec op = (b', .error e)) :
    op.Stops ∧ b' = b.halted op ∧ ∃ f, e = .fault f := by
  obtain ⟨-, hr⟩ | ⟨hs, f, hr⟩ := exec_cases hp h hf
  · cases hr.symm.trans he
  · cases hr.symm.trans he
    exact ⟨hs, rfl, f, rfl⟩

lemma halted_eq_self (hs : op.Stops) (hl : ¬ ∃ offset m q, op = .updatePp offset 63 m q) : b.halted op = b := by
  cases op with
  | updatePp offset pp m q =>
    have hpp : pp = 63 := BitVec.eq_of_toNat_eq hs
    exact absurd ⟨offset, m, q, by rw [hpp]⟩ hl
  | _ => rfl

lemma selected_halted (b : Block) (op : Op) : (b.halted op).selected = b.selected := by cases op <;> rfl

lemma getElem?_halted (hs : op.Stops) {addr : ℕ} (ha : addr / 16 ≠ 63) : (b.halted op).bram[addr]? = b.bram[addr]? := by
  cases op with
  | updatePp offset pp m q =>
    have hpp : pp.toNat = 63 := hs
    rw [halted, hpp]
    exact getElem?_store_of_ne ha _
  | _ => rfl

/-- The bits that a product stores, each of them turned around. -/
def opposed (b : Block) (offset q : BitVec 8) : Block :=
  b.remember ((List.range 16).map fun pe => !(b.value q.toNat pe).getLsbD offset.toNat)

lemma halted_opposed_ne (b : Block) (offset m q : BitVec 8) :
    (b.opposed offset q).halted (.updatePp offset 63 m q) ≠ b.opposed offset q := by
  intro h
  have hh : (List.range 16).map (fun pe => (b.value q.toNat pe).getLsbD offset.toNat) =
      (List.range 16).map fun pe => !(b.value q.toNat pe).getLsbD offset.toNat :=
    congrArg Block.history h
  have h0 := List.map_inj_left.mp hh 0 (by decide)
  exact absurd h0.symm (Bool.not_ne_self _)

end Block

open Block

theorem exec_keeps_unless_last {u : Params} {c : Config} (hu : u.validate = .ok c) {payload : ℕ} {op : Op}
    (hd : Op.decode payload = .ok op) :
    ((∀ b : Block, b.Sound c.gemv → ∀ b' e, b.exec op = (b', .error e) → b' = b) ↔
      ¬ ∃ offset m q, op = .updatePp offset 63 m q) ∧
    ∀ b : Block, b.Sound c.gemv → ∀ b' e, b.exec op = (b', .error e) →
      (∃ f, e = .fault f) ∧ b'.selected = b.selected ∧ ∀ addr, addr / 16 ≠ 63 → b'.bram[addr]? = b.bram[addr]? := by
  have hp := (Params.validate_valid hu).gemv
  have hf := Op.farMove_or_fits hd
  refine ⟨⟨?_, fun hl b hb b' e he => ?_⟩, fun b hb b' e he => ?_⟩
  · -- a product at the last register turns around a history that is the opposite of its multiplier's bits
    rintro hkeep ⟨offset, m, q, rfl⟩
    have hb : ((new c.gemv 0 0).opposed offset q).Sound c.gemv := (new_sound hp 0 0).remember (by simp)
    obtain ⟨f, he⟩ := exec_of_stops hp hb hf rfl
    exact halted_opposed_ne _ offset m q (hkeep _ hb _ _ he)
  · obtain ⟨hs, rfl, -⟩ := exec_error hp hb hf he
    exact halted_eq_self hs hl
  · obtain ⟨hs, rfl, hfault⟩ := exec_error hp hb hf he
    exact ⟨hfault, selected_halted b op, fun addr ha => getElem?_halted hs ha⟩

/-- A fifth fold is refused before anything is stored. -/
theorem exec_keeps_unless_last_misfold :
    let b := (Block.new {} 0 0).store 2 fun pe => BitVec.ofNat 16 pe
    ({} : Params).validate = .ok {} ∧ Op.decode 0x10050042 = .ok (.accumBlk 5 1 2) ∧ b.Sound {} ∧
      ∃ b' f, b.exec (.accumBlk 5 1 2) = (b', Outcome.fail f) ∧ b' = b := by
  intro b
  have hu : ({} : Params).validate = .ok {} := rfl
  have hd : Op.decode 0x10050042 = .ok (.accumBlk 5 1 2) := by decide
  have hp := Config.default_valid.gemv
  have hb : b.Sound {} := (new_sound hp 0 0).store _ _
  obtain ⟨f, he⟩ := exec_of_stops hp hb (Op.farMove_or_fits hd) (show ¬ (1 ≤ 5 ∧ 5 ≤ 4) by decide)
  exact ⟨hu, hd, hb, _, f, he, (exec_keeps_unless_last hu hd).1.mpr (by simp) b hb _ _ he⟩

/-- One times one into register 63: the low half of the first step is stored, and then the high half has no rows. -/
theorem failed_product_overwrites :
    let b := ((Block.new {} 0 0).store 1 fun _ => 1).store 2 fun _ => 1
    Op.decode 0x0C3F0042 = .ok (.updatePp 0 63 1 2) ∧ b.Sound {} ∧
      ∃ b' f, b.exec (.updatePp 0 63 1 2) = (b', Outcome.fail f) ∧
        b.reg 63 = .ok (List.replicate 16 0) ∧ b'.reg 63 = .ok (List.replicate 16 0xFFFF) ∧
        b.history = List.replicate 16 false ∧ b'.history = List.replicate 16 true := by
  intro b
  have hd : Op.decode 0x0C3F0042 = .ok (.updatePp 0 63 1 2) := by decide
  have hp := Config.default_valid.gemv
  have hn := new_sound hp 0 0
  have hn1 := hn.store 1 fun _ => 1
  have hb : b.Sound {} := hn1.store _ _
  have h1 (pe : ℕ) (hpe : pe < 16) : b.value 1 pe = 1 :=
    (value_store_of_ne (by decide) _).trans (value_store hn (by decide) hpe _)
  have h2 (pe : ℕ) (hpe : pe < 16) : b.value 2 pe = 1 := value_store hn1 (by decide) hpe _
  have h63 (pe : ℕ) (_ : pe < 16) : b.value 63 pe = 0 :=
    (value_store_of_ne (by decide) _).trans ((value_store_of_ne (by decide) _).trans (value_new _ _ _ _ _))
  have hh : b.history = List.replicate 16 false := rfl
  have hlow (pe : ℕ) (hpe : pe < 16) : shifted 0 (b.stepped 0 63 1 2 pe) = 0xFFFF := by
    rw [stepped, h1 pe hpe, h2 pe hpe, hh, List.getD_replicate _ hpe, if_pos rfl]
    decide
  obtain ⟨f, he⟩ := exec_of_stops hp hb (Op.farMove_or_fits hd) rfl
  refine ⟨hd, hb, _, f, he, reg_const hp hb (by decide) h63, ?_, hh, ?_⟩
  · have hr : (b.remember ((List.range 16).map fun pe => (b.value 2 pe).getLsbD 0)).Sound {} := hb.remember (by simp)
    exact reg_const hp (hb.halted _) (by decide) fun pe hpe => (value_store hr (by decide) hpe _).trans (hlow pe hpe)
  · have hm : (List.range 16).map (fun pe => (b.value 2 pe).getLsbD 0) = (List.range 16).map fun _ => true :=
      List.map_congr_left fun pe hpe => by
        rw [h2 pe (List.mem_range.mp hpe)]
        rfl
    exact hm

end PimAsm.Gemv
