import Mathlib
import PimAsm.Proofs.Gemv.Memory
import PimAsm.Proofs.Transposition

/-! Setting and reading a register of a block are the two halves of one view of the rows: the rows that are set are
those that a transposition of the values gives, and the other registers read as before. -/

namespace PimAsm.Gemv

namespace Block

variable {p : Limits} {b : Block} {reg : ℕ}

lemma store_value (h : b.Sound p) (reg : ℕ) : b.store reg (b.value reg) = b := by
  refine update_eq_self h fun addr _ => ?_
  by_cases ha : addr / 16 = reg
  · rw [if_pos ha]
    apply BitVec.eq_of_getLsbD_eq
    intro pe hpe
    have hrow : 16 * reg + addr % 16 = addr := by omega
    rw [Plane.getLsbD_ofBits, value, Plane.getLsbD_ofBits, hrow]
    simp [hpe, Nat.mod_lt]
  · rw [if_neg ha]

lemma setReg_reg (hp : p.Valid) (h : b.Sound p) (hr : reg < 64) :
    ∃ old, b.reg reg = .ok old ∧ b.setReg reg old = b.done :=
  ⟨_, reg_eq hp h hr, by rw [setReg_map hp h hr, store_value h]⟩

lemma readRow_store_of_ne {addr : ℕ} (ha : addr / 16 ≠ reg) (f : ℕ → Value) :
    (b.store reg f).readRow addr = b.readRow addr := by
  have hs : (b.store reg f).bram.size = b.bram.size := by simp [store, update]
  rw [readRow, readRow, getElem?_store_of_ne ha, badAddr, badAddr, hs]

lemma regRow_store_of_ne (hp : p.Valid) (h : b.Sound p) {r bit : ℕ} (hr : r ≠ reg) (hb : bit < 16) (f : ℕ → Value) :
    (b.store reg f).regRow r bit = b.regRow r bit := by
  have hread : (b.store reg f).readRow (r * 16 + bit) = b.readRow (r * 16 + bit) :=
    readRow_store_of_ne (by omega) f
  have hl : (b.store reg f).limits = b.limits := rfl
  rw [regRow, regRow, hl, h.limits, Limits.regAddr, hp.regWidth, checkedCount]
  split_ifs with hc
  · rw [Outcome.ok_bind, Outcome.ok_bind, hread]
    rfl
  · rfl

lemma reg_store_of_ne (hp : p.Valid) (h : b.Sound p) {r : ℕ} (hr : r ≠ reg) (f : ℕ → Value) :
    (b.store reg f).reg r = b.reg r := by
  -- row by row, since a register past the last row has no values and fails as before
  have hrows : Outcome.collect 16 ((b.store reg f).regRow r) = Outcome.collect 16 (b.regRow r) := by
    rw [Outcome.collect_eq_mapM, Outcome.collect_eq_mapM]
    exact Outcome.mapM_congr fun bit hb => regRow_store_of_ne hp h hr (List.mem_range.mp hb) f
  have hl : (b.store reg f).limits = p := h.limits
  rw [Block.reg, Block.reg, hl, h.limits, hp.regWidth, hrows]
  rfl

lemma getElem?_store_rows (h : b.Sound p) (hr : reg < 64) {bit : ℕ} (hb : bit < 16) (values : List Value) :
    (b.store reg fun pe => values.getD pe 0).bram[16 * reg + bit]? =
      (Plane.rows 16 (Plane.unsigned values))[bit]? := by
  have hm : (16 * reg + bit) % 16 = bit := by omega
  rw [getElem?_store_self h (by omega), if_pos (by omega), hm, Plane.rows_unsigned]
  simp [Plane.elements, hb]

end Block

theorem setReg_lawful {q : Params} {c : Config} (hc : q.validate = .ok c) {b : Block} (hb : b.Sound c.gemv) {reg : ℕ}
    (hr : reg < 64) {values : List Value} (hv : values.length ≤ 16) :
    (∃ b' image, b.setReg reg values = (b', .ok ()) ∧ b' = { b with bram := b'.bram } ∧
      Plane.block 16 16 (Plane.unsigned values) = .ok image ∧ image.length = 16 ∧
      (∀ bit < 16, b'.bram[16 * reg + bit]? = image[bit]?) ∧
      (∀ addr, addr < 16 * reg ∨ 16 * reg + 16 ≤ addr → b'.bram[addr]? = b.bram[addr]?) ∧
      b'.reg reg = .ok (values.rightpad 16 0) ∧ ∀ r, r ≠ reg → b'.reg r = b.reg r) ∧
    ∃ old, b.reg reg = .ok old ∧ b.setReg reg old = (b, .ok ()) := by
  have hp := (Params.validate_valid hc).gemv
  have hlen : (Plane.unsigned values).length ≤ 16 := by rwa [Plane.unsigned, List.length_map]
  refine ⟨⟨_, _, Block.setReg_eq hp hb hr hv, rfl, Plane.block_eq hlen le_rfl (by decide), Plane.length_rows _ _,
    ?_, ?_, ?_, ?_⟩, Block.setReg_reg hp hb hr⟩
  · exact fun bit hbit => Block.getElem?_store_rows hb hr hbit values
  · exact fun addr ha => Block.getElem?_store_of_ne (by omega) _
  · rw [Block.reg_store hp hb hr, Plane.map_getD_range hv]
  · exact fun r hne => Block.reg_store_of_ne hp hb hne _

theorem setReg_lawful_last_register :
    let b : Block := { Block.new {} 3 5 with selected := true, bram := Array.replicate 1024 0xAAAA }
    ({} : Params).validate = .ok {} ∧ b.Sound {} ∧
    (∃ b', b.setReg 63 [1, 0xFFFF, 0x8000] = (b', .ok ()) ∧
      b'.bram[1008]? = some 3 ∧ b'.bram[1022]? = some 2 ∧ b'.bram[1023]? = some 6 ∧ b'.bram[1007]? = some 0xAAAA ∧
      b'.reg 63 = .ok ([1, 0xFFFF, 0x8000] ++ List.replicate 13 0) ∧ b'.reg 62 = b.reg 62) ∧
    ∃ old, b.reg 63 = .ok old ∧ b.setReg 63 old = (b, .ok ()) := by
  intro b
  have hq : ({} : Params).validate = .ok {} := rfl
  have hb : b.Sound {} := ⟨rfl, rfl, by simp [b]⟩
  have hv : [1, 0xFFFF, (0x8000 : Value)].length ≤ 16 := by decide
  obtain ⟨⟨b', image, hset, -, himage, -, hrow, hkeep, hreg, hother⟩, hback⟩ :=
    setReg_lawful hq hb (show 63 < 64 by decide) hv
  have hrows : Plane.block 16 16 (Plane.unsigned [1, 0xFFFF, 0x8000#16]) = .ok ([3] ++ List.replicate 14 2 ++ [6]) := by
    decide
  obtain rfl := Except.ok.inj (himage.symm.trans hrows)
  refine ⟨hq, hb, ⟨b', hset, hrow 0 (by decide), hrow 14 (by decide), hrow 15 (by decide), ?_, hreg,
    hother 62 (by decide)⟩, hback⟩
  rw [hkeep 1007 (by decide)]
  simp [b]

end PimAsm.Gemv
