import Mathlib
import PimAsm.Proofs.Gemv.Effect
import PimAsm.Proofs.Program.Execution
import PimAsm.Proofs.Program.Replay

/-! The checks of the assembler are enough for the blocks: what calls append stays inside the memory, so a program runs
to its end on every block unless it holds a fold that the block does not have. -/

namespace PimAsm

open Gemv

lemma Instr.mem_gemvOps {is : List Instr} {op : Op} : op ∈ gemvOps is ↔ .gemv op ∈ is := by
  rw [gemvOps, List.mem_filterMap]
  constructor
  · rintro ⟨i | i, hi, he⟩ <;> cases he
    exact hi
  · exact fun h => ⟨.gemv op, h, rfl⟩

namespace Call

def ops (c : Config) (call : Call) : List Op := Instr.gemvOps ((call.emitted c).flatMap Body.instrs)

variable {c : Config} {call : Call}

lemma ops_eq {rs : List Record} (h : call.records c none = .ok rs) :
    call.ops c = Instr.gemvOps (rs.flatMap (·.body.instrs)) := by
  rw [ops, ← bodies_of_records h, List.flatMap_map]

lemma ops_of_error {e : Halt} (h : call.records c none = .error e) : call.ops c = [] := by
  rw [ops, emitted_of_error h]
  rfl

lemma ops_within (hc : c.Valid) (call : Call) : ∀ op ∈ call.ops c, op.Within c.gemv (call.reach c.gemv) := by
  intro op ho
  cases hr : call.records c none with
  | error e => simp [ops_of_error hr] at ho
  | ok rs =>
    rw [ops_eq hr, Instr.mem_gemvOps] at ho
    obtain ⟨r, hm, hi⟩ := List.mem_flatMap.mp ho
    exact ((records_appends hc hr r hm).issued hc).within (.gemv op) hi

end Call

namespace Session

lemma Reachable.faithful {s : Session} (h : s.Reachable) : ∃ calls, History.Faithful ⟨s, calls⟩ := by
  induction h with
  | fresh => exact ⟨[], .start _⟩
  | params h =>
    obtain ⟨c, -, hc⟩ := Outcome.bind_eq_ok.mp h
    cases hc
    exact ⟨[], .start c⟩
  | perform _ a ih =>
    obtain ⟨calls, hf⟩ := ih
    exact ⟨_, hf.perform a⟩

variable {h : History}

lemma History.Faithful.gemvOps_eq (hf : h.Faithful) :
    Instr.gemvOps (h.session.records.flatMap (·.body.instrs)) = h.calls.flatMap (Call.ops h.session.config) := by
  have hb : h.session.records.flatMap (·.body.instrs) =
      (h.calls.flatMap (Call.emitted h.session.config)).flatMap Body.instrs := by
    rw [← hf.bodies, List.flatMap_map]
  rw [hb, List.flatMap_assoc, Instr.gemvOps, List.filterMap_flatMap]
  rfl

lemma History.Faithful.within (hf : h.Faithful) (hc : h.session.config.Valid) :
    ∀ op ∈ Instr.gemvOps (h.session.records.flatMap (·.body.instrs)), op.Within h.session.config.gemv 62 := by
  intro op ho
  rw [hf.gemvOps_eq] at ho
  obtain ⟨call, -, ho⟩ := List.mem_flatMap.mp ho
  exact (Call.ops_within hc call op ho).mono (call.reach_le hc.gemv)

end Session

lemma Instr.exists_overfolds {is : List Instr} : (∃ op ∈ gemvOps is, op.Overfolds) ↔
    ∃ fold rd rs, .gemv (.accumBlk fold rd rs) ∈ is ∧ 4 < fold.toNat := by
  simp only [mem_gemvOps, Op.overfolds_iff]
  constructor
  · rintro ⟨_, hm, fold, rd, rs, rfl, hf⟩
    exact ⟨fold, rd, rs, hm, hf⟩
  · rintro ⟨fold, rd, rs, hm, hf⟩
    exact ⟨_, hm, fold, rd, rs, rfl, hf⟩

theorem run_unless_overfolded {s : Session} (h : s.Reachable) :
    ∃ ws, s.words.2 = .ok ws ∧ ∀ b : Block, b.Sound s.config.gemv →
      (Block.runWords ws b).2 ≠ Outcome.trap ∧
      ((∃ f, (Block.runWords ws b).2 = Outcome.fail f) ↔ ∃ fold rd rs,
        .gemv (.accumBlk fold rd rs) ∈ s.records.flatMap (·.body.instrs) ∧ 4 < fold.toNat) ∧
      (s.config.gemv.maxFold ≤ 4 → (Block.runWords ws b).2 = .ok ()) := by
  have hs := h.sound
  have hp := hs.config.gemv
  obtain ⟨calls, hf⟩ := h.faithful
  have ho := hf.within hs.config
  refine ⟨_, by rw [hs.words_eq], fun b hb => ?_⟩
  rw [Block.runWords_word hs.fits, ← Instr.exists_overfolds]
  by_cases hov : ∃ op ∈ Instr.gemvOps (s.records.flatMap (·.body.instrs)), op.Overfolds
  · obtain ⟨b', f, hr⟩ := Block.run_overfolds hp (by decide) hb ho hov
    rw [hr]
    refine ⟨nofun, ⟨fun _ => hov, fun _ => ⟨f, rfl⟩⟩, fun h4 => ?_⟩
    obtain ⟨op, hm, hop⟩ := hov
    obtain ⟨fold, rd, rs, rfl, hfold⟩ := Op.overfolds_iff.mp hop
    have hle : fold.toNat ≤ s.config.gemv.maxFold := (ho _ hm).1.2
    omega
  · rw [Block.run_eq hp (by decide) hb ho fun op hm hop => hov ⟨op, hm, hop⟩]
    refine ⟨nofun, ⟨?_, fun h => absurd h hov⟩, fun _ => rfl⟩
    rintro ⟨f, hr⟩
    cases hr

/-- A session whose limits allow a fifth fold, with an accumulation over the block. -/
def fiveFolds : Session := ((Session.new { gemv := { maxFold := 5 } }).perform (.call (.mvBlockAccum 1 0))).1

theorem run_unless_overfolded_five :
    fiveFolds.Reachable ∧ ∃ ws, fiveFolds.words.2 = .ok ws ∧
      ∃ f, (Block.runWords ws (.new fiveFolds.config.gemv 0 0)).2 = Outcome.fail f := by
  have hr : fiveFolds.Reachable :=
    (Session.Reachable.params (p := { maxFold := 5 }) rfl).perform (.call (.mvBlockAccum 1 0))
  obtain ⟨ws, hw, hrun⟩ := run_unless_overfolded hr
  refine ⟨hr, ws, hw, (hrun _ (Block.new_sound hr.sound.config.gemv 0 0)).2.1.mpr ⟨5, 1, 1, ?_, by decide⟩⟩
  decide

end PimAsm
