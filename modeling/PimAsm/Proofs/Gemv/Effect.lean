import Mathlib
import PimAsm.Proofs.Gemv.Accumulation
import PimAsm.Proofs.Gemv.Product

/-! What an instruction inside the limits makes of a block. Only a fold that a block of sixteen elements does not have
stops a run, and it stops it with a fault. -/

namespace PimAsm.Gemv

/-- A fold past the fourth, after which one element is left. -/
def Op.Overfolds : Op → Prop
  | .accumBlk fold _ _ => 4 < fold.toNat
  | _ => False

lemma Op.overfolds_iff {op : Op} : op.Overfolds ↔ ∃ fold rd rs, op = .accumBlk fold rd rs ∧ 4 < fold.toNat := by
  cases op <;> simp [Overfolds]

/-- What stops a block of sixteen elements: a fold that it does not have, a shift by a register or more, and a product
whose high half is past the last row. -/
def Op.Stops : Op → Prop
  | .accumBlk fold _ _ => ¬ (1 ≤ fold.toNat ∧ fold.toNat ≤ 4)
  | .movOffset offset _ _ => 16 ≤ offset.toNat
  | .updatePp _ pp _ _ => pp.toNat = 63
  | _ => False

lemma Op.Within.not_stops {p : Limits} {op : Op} {n : ℕ} (h : op.Within p n) (hn : n < 64) (hf : ¬ op.Overfolds) :
    ¬ op.Stops := by
  cases op with
  | accumBlk | movOffset | updatePp =>
    simp only [Within, Overfolds, Stops] at *
    omega
  | _ => exact id

namespace Block

def effect (b : Block) : Op → Block
  | .nop | .accumRow .. => b
  | .write addr data => if b.selected then b.update fun a row => if a = addr.toNat then data else row else b
  | .select fn rowId colId => b.select (b.selects fn rowId colId)
  | .clrMbit => b.remember (b.history.map fun _ => false)
  | .alu fn rd rs1 rs2 => b.store rd.toNat fun pe => aluResult fn (b.value rs1.toNat pe) (b.value rs2.toNat pe)
  | .updatePp offset pp m q =>
    (b.remember ((List.range 16).map fun pe => (b.value q.toNat pe).getLsbD offset.toNat)).storePair pp.toNat
      (b.stepped offset.toNat pp.toNat m.toNat q.toNat)
  | .movOffset offset rd rs => b.store rd.toNat fun pe => shifted offset.toNat (b.wide rs.toNat pe)
  | .accumBlk fold rd rs => b.store rd.toNat (b.foldedValue (16 / 2 ^ fold.toNat) rd.toNat rs.toNat)

/-- The block after an instruction that stops it. A product has stored its multiplier bits and its low half by then. -/
def halted (b : Block) : Op → Block
  | .updatePp offset pp m q =>
    (b.remember ((List.range 16).map fun pe => (b.value q.toNat pe).getLsbD offset.toNat)).store pp.toNat
      fun pe => shifted 0 (b.stepped offset.toNat pp.toNat m.toNat q.toNat pe)
  | _ => b

variable {p : Limits} {b : Block} {op : Op} {ops : List Op} {n : ℕ}

lemma Sound.halted (h : b.Sound p) (op : Op) : (b.halted op).Sound p := by
  cases op with
  | updatePp => exact (h.remember (by simp)).store _ _
  | _ => exact h

lemma Sound.effect (h : b.Sound p) (op : Op) : (b.effect op).Sound p := by
  cases op with
  | nop | accumRow => exact h
  | write addr data =>
    unfold Block.effect
    split_ifs
    · exact h.update _
    · exact h
  | select => exact h.select _
  | clrMbit => exact h.remember (by simp [h.history])
  | alu | movOffset | accumBlk => exact h.store _ _
  | updatePp => exact (h.remember (by simp)).storePair _ _

lemma exec_of_fits (hp : p.Valid) (h : b.Sound p) (hf : op.Fits) (hs : ¬ op.Stops) :
    b.exec op = (b.effect op).done := by
  cases op with
  | nop | accumRow | select | clrMbit => rfl
  | write addr data =>
    unfold exec effect
    split_ifs
    · exact writeRow_eq h hf data
    · rfl
  | alu fn rd rs1 rs2 =>
    obtain ⟨hd, h2, h1⟩ := hf
    rw [exec, reg_eq hp h h1, attempt_ok, reg_eq hp h h2, attempt_ok, List.zipWith_map, List.zipWith_self,
      setReg_map hp h hd, effect]
  | updatePp offset pp m q =>
    obtain ⟨hk, hpp, hm, hq⟩ := hf
    have hl : pp.toNat ≠ 63 := hs
    exact execUpdatePp_eq hp h hk (by omega) hm hq
  | movOffset offset rd rs =>
    obtain ⟨hk, hd, hr⟩ := hf
    have hc : b.limits.checkOffset offset.toNat = .ok () := by
      rwa [h.limits, Limits.checkOffset_eq_ok, hp.regWidth]
    rw [exec, hc, attempt_ok, pair_eq hp h hr, attempt_ok, List.map_map, setReg_map hp h hd, effect]
    rfl
  | accumBlk fold rd rs =>
    obtain ⟨-, hd, hr⟩ := hf
    obtain ⟨h1, h4⟩ := not_not.mp hs
    exact execAccumBlk_eq hp h h1 h4 hd hr

lemma exec_eq (hp : p.Valid) (h : b.Sound p) (hn : n < 64) (ho : op.Within p n) (hf : ¬ op.Overfolds) :
    b.exec op = (b.effect op).done :=
  exec_of_fits hp h (ho.fits hp hn.le) (ho.not_stops hn hf)

lemma exec_misfolds (hp : p.Valid) (h : b.Sound p) {fold rd rs : BitVec 8} (hd : rd.toNat < 64) (hs : rs.toNat < 64)
    (hf : ¬ (1 ≤ fold.toNat ∧ fold.toNat ≤ 4)) : ∃ f, b.exec (.accumBlk fold rd rs) = (b, Outcome.fail f) := by
  have hm : halvings 16 = 4 := by decide
  refine ⟨.range .fold fold.toNat 1 4, ?_⟩
  rw [exec, execAccumBlk, reg_eq hp h hs, attempt_ok, reg_eq hp h hd, attempt_ok]
  simp only [peCount, h.limits, hp.peCount, hm, Outcome.require, hf, if_false]
  rfl

lemma exec_overfolds (hp : p.Valid) (h : b.Sound p) (hn : n < 64) (ho : op.Within p n) (hf : op.Overfolds) :
    ∃ f, b.exec op = (b, Outcome.fail f) := by
  obtain ⟨fold, rd, rs, rfl, h4⟩ := Op.overfolds_iff.mp hf
  obtain ⟨-, hd, hs⟩ := ho
  exact exec_misfolds hp h (hd.trans hn) (hs.trans hn) (by omega)

lemma run_eq (hp : p.Valid) (hn : n < 64) (h : b.Sound p) (ho : ∀ op ∈ ops, op.Within p n)
    (hf : ∀ op ∈ ops, ¬ op.Overfolds) : run ops b = (ops.foldl effect b).done := by
  induction ops generalizing b with
  | nil => rfl
  | cons op ops ih =>
    rw [run, exec_eq hp h hn (ho op (by simp)) (hf op (by simp)), andThen_done, List.foldl_cons]
    exact ih (h.effect op) (fun o hm => ho o (by simp [hm])) fun o hm => hf o (by simp [hm])

lemma run_overfolds (hp : p.Valid) (hn : n < 64) (h : b.Sound p) (ho : ∀ op ∈ ops, op.Within p n)
    (hf : ∃ op ∈ ops, op.Overfolds) : ∃ b' f, run ops b = (b', Outcome.fail f) := by
  induction ops generalizing b with
  | nil => simp at hf
  | cons op ops ih =>
    by_cases hop : op.Overfolds
    · obtain ⟨f, he⟩ := exec_overfolds hp h hn (ho op (by simp)) hop
      exact ⟨b, f, by rw [run, he]; rfl⟩
    · obtain ⟨o, hm, hfo⟩ := hf
      have ht : o ∈ ops := (List.mem_cons.mp hm).resolve_left fun he => hop (he ▸ hfo)
      obtain ⟨b', f, hr⟩ := ih (h.effect op) (fun o hm => ho o (by simp [hm])) ⟨o, ht, hfo⟩
      exact ⟨b', f, by rw [run, exec_eq hp h hn (ho op (by simp)) hop, andThen_done, hr]⟩

end Block

end PimAsm.Gemv
