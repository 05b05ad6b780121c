import Mathlib
import PimAsm.Proofs.Gemv.Effect
import PimAsm.Proofs.Reencoding

/-! Blocks on words from anywhere: a run never traps, and it ends early at the first word that is no instruction or
that a block of sixteen elements cannot carry out. -/

namespace PimAsm

open Gemv

def Instr.Stops : Instr → Prop
  | .gemv op => op.Stops
  | .vv _ => False

/-- A word that is an instruction and does not stop a block. -/
def Word.Runs (w : Word) : Prop := ∃ i, w.decode = .ok i ∧ ¬ i.Stops

lemma Word.decode_error {w : Word} {e : Halt} (h : w.decode = .error e) : ∃ f, e = .fault f := by
  have hg {n : ℕ} (hg : Instr.gemv <$> Gemv.Op.decode n = .error e) : ∃ f, e = .fault f := by
    unfold Gemv.Op.decode at hg
    split at hg <;> cases hg
    exact ⟨_, rfl⟩
  have hv {n : ℕ} (hv : Instr.vv <$> Vv.Op.decode n = .error e) : ∃ f, e = .fault f := by
    unfold Vv.Op.decode at hv
    split at hv <;> cases hv
    exact ⟨_, rfl⟩
  unfold decode at h
  simp only at h
  split at h
  · exact hg h
  · exact hv h
  · cases h
    exact ⟨_, rfl⟩

namespace Gemv.Block

variable {p : Limits} {b : Block} {op : Op} {w : Word} {ws pre : List Word}

lemma exec_of_stops (hp : p.Valid) (h : b.Sound p) (hf : op.FarMove ∨ op.Fits) (hs : op.Stops) :
    ∃ f, b.exec op = (b.halted op, Outcome.fail f) := by
  cases op with
  | accumBlk fold rd rs =>
    obtain ⟨-, hd, hr⟩ := hf.resolve_left (by simp [Op.FarMove])
    exact exec_misfolds hp h hd hr hs
  | movOffset offset rd rs =>
    -- the offset is checked first, whatever the registers
    have hc : b.limits.checkOffset offset.toNat = Outcome.fail (.range .offset offset.toNat 0 15) := by
      have hk : ¬ offset.toNat < 16 := not_lt.mpr hs
      simp [Limits.checkOffset, h.limits, hp.regWidth, hk]
    exact ⟨_, by rw [exec, hc]; rfl⟩
  | updatePp offset pp m q =>
    obtain ⟨hk, -, hm, hq⟩ := hf.resolve_left (by simp [Op.FarMove])
    have hpp : pp.toNat = 63 := hs
    rw [exec, halted, hpp]
    exact execUpdatePp_last hp h hk hm hq
  | _ => exact hs.elim

lemma exec_cases (hp : p.Valid) (h : b.Sound p) (hf : op.FarMove ∨ op.Fits) :
    (¬ op.Stops ∧ b.exec op = (b.effect op).done) ∨ (op.Stops ∧ ∃ f, b.exec op = (b.halted op, Outcome.fail f)) := by
  by_cases hs : op.Stops
  · exact Or.inr ⟨hs, exec_of_stops hp h hf hs⟩
  · have hfar : ¬ op.FarMove := by
      rintro ⟨offset, rd, rs, rfl, ho⟩
      exact hs ho
    exact Or.inl ⟨hs, exec_of_fits hp h (hf.resolve_left hfar) hs⟩

lemma runWord_of_runs (hp : p.Valid) (h : b.Sound p) (hw : w.Runs) :
    ∃ b' : Block, b.runWord w = b'.done ∧ b'.Sound p := by
  obtain ⟨i, hi, hs⟩ := hw
  have hf := (Instr.decode_eq_ok hi).2.1
  rw [runWord, hi, attempt_ok]
  cases i with
  | gemv op =>
    obtain ⟨-, he⟩ | ⟨hstop, -⟩ := exec_cases hp h hf
    · exact ⟨_, he, h.effect op⟩
    · exact absurd hstop hs
  | vv op => exact ⟨b, rfl, h⟩

lemma runWord_of_not_runs (hp : p.Valid) (h : b.Sound p) (hw : ¬ w.Runs) :
    ∃ b' f, b.runWord w = (b', Outcome.fail f) ∧ b'.Sound p := by
  rw [runWord]
  cases hi : w.decode with
  | error e =>
    obtain ⟨f, rfl⟩ := Word.decode_error hi
    exact ⟨b, f, rfl, h⟩
  | ok i =>
    have hs : i.Stops := not_not.mp fun hs => hw ⟨i, hi, hs⟩
    have hf := (Instr.decode_eq_ok hi).2.1
    cases i with
    | gemv op =>
      obtain ⟨f, he⟩ := exec_of_stops hp h hf hs
      exact ⟨_, f, he, h.halted op⟩
    | vv op => exact hs.elim

lemma runWords_append (xs ys : List Word) (b : Block) :
    runWords (xs ++ ys) b = andThen (runWords xs b) (runWords ys) := by
  induction xs generalizing b with
  | nil => rfl
  | cons x xs ih =>
    rw [List.cons_append, runWords, runWords]
    rcases b.runWord x with ⟨b', _ | _⟩
    · rfl
    · exact ih b'

lemma runWords_of_runs (hp : p.Valid) (h : b.Sound p) (hw : ∀ w ∈ ws, w.Runs) :
    ∃ b' : Block, runWords ws b = b'.done ∧ b'.Sound p := by
  induction ws generalizing b with
  | nil => exact ⟨b, rfl, h⟩
  | cons w ws ih =>
    obtain ⟨b', hb', hs⟩ := runWord_of_runs hp h (hw w (by simp))
    rw [runWords, hb', andThen_done]
    exact ih hs fun v hv => hw v (by simp [hv])

lemma runWords_until (hp : p.Valid) (h : b.Sound p) (hpre : ∀ v ∈ pre, v.Runs) (hw : ¬ w.Runs) (post : List Word) :
    ∃ b' e f, runWords pre b = (b', .ok ()) ∧ runWords (pre ++ w :: post) b = b'.runWord w ∧
      b'.runWord w = (e, Outcome.fail f) ∧ e.Sound p := by
  obtain ⟨b', hb', hs⟩ := runWords_of_runs hp h hpre
  obtain ⟨e, f, he, hse⟩ := runWord_of_not_runs hp hs hw
  refine ⟨b', e, f, hb', ?_, he, hse⟩
  rw [runWords_append, hb', andThen_done, runWords, he]
  rfl

lemma runWords_of_not_runs (hp : p.Valid) (h : b.Sound p) (hw : ¬ ∀ w ∈ ws, w.Runs) :
    ∃ e f, runWords ws b = (e, Outcome.fail f) ∧ e.Sound p := by
  obtain ⟨pre, w, post, rfl, hpre, hn⟩ := Outcome.exists_first_not hw
  obtain ⟨b', e, f, -, hr, he, hs⟩ := runWords_until hp h hpre hn post
  exact ⟨e, f, hr.trans he, hs⟩

end Gemv.Block

theorem runWords_robust {q : Params} {c : Config} (hq : q.validate = .ok c) {b : Block} (hb : b.Sound c.gemv)
    (ws : List Word) :
    (Block.runWords ws b).2 ≠ Outcome.trap ∧ (Block.runWords ws b).1.Sound c.gemv ∧
    ((Block.runWords ws b).2 = .ok () ↔ ∀ w ∈ ws, w.Runs) ∧
    ∀ pre w post, ws = pre ++ w :: post → (∀ v ∈ pre, v.Runs) → ¬ w.Runs →
      ∃ b' e f, Block.runWords pre b = (b', .ok ()) ∧ Block.runWords ws b = b'.runWord w ∧
        b'.runWord w = (e, Outcome.fail f) := by
  have hp := (Params.validate_valid hq).gemv
  have hstop : ∀ pre w post, ws = pre ++ w :: post → (∀ v ∈ pre, v.Runs) → ¬ w.Runs →
      ∃ b' e f, Block.runWords pre b = (b', .ok ()) ∧ Block.runWords ws b = b'.runWord w ∧
        b'.runWord w = (e, Outcome.fail f) := by
    rintro pre w post rfl hpre hw
    obtain ⟨b', e, f, hr, hs, he, -⟩ := Block.runWords_until hp hb hpre hw post
    exact ⟨b', e, f, hr, hs, he⟩
  by_cases hall : ∀ w ∈ ws, w.Runs
  · obtain ⟨b', hb', hs⟩ := Block.runWords_of_runs hp hb hall
    refine ⟨?_, ?_, ⟨fun _ => hall, fun _ => ?_⟩, hstop⟩ <;> rw [hb']
    · exact nofun
    · exact hs
    · rfl
  · obtain ⟨e, f, he, hs⟩ := Block.runWords_of_not_runs hp hb hall
    refine ⟨?_, ?_, ⟨fun hok => ?_, fun h => absurd h hall⟩, hstop⟩
    · rw [he]
      exact nofun
    · rw [he]
      exact hs
    · rw [he] at hok
      cases hok

/-- A product into register 63 stops a block, after a word of each engine. -/
theorem runWords_robust_last_register :
    let b := Block.new {} 0 0
    ({} : Params).validate = .ok {} ∧ b.Sound {} ∧ (Block.runWords [0x18C00000, 0x40000000] b).2 = .ok () ∧
      ∃ b' e f, Block.runWords [0x18C00000, 0x40000000] b = (b', .ok ()) ∧
        Block.runWords [0x18C00000, 0x40000000, 0x0C3F0042] b = b'.runWord 0x0C3F0042 ∧
        b'.runWord 0x0C3F0042 = (e, Outcome.fail f) := by
  intro b
  have hq : ({} : Params).validate = .ok {} := rfl
  have hb : b.Sound {} := Block.new_sound Config.default_valid.gemv 0 0
  have hsel : Word.Runs 0x18C00000 := ⟨.gemv (.select .all 0 0), by decide, id⟩
  have hvv : Word.Runs 0x40000000 := ⟨.vv .nop, by decide, id⟩
  have hpre : ∀ v ∈ [(0x18C00000 : Word), 0x40000000], v.Runs := by simpa using ⟨hsel, hvv⟩
  have hpp : Word.decode 0x0C3F0042 = .ok (.gemv (.updatePp 0 63 1 2)) := by decide
  have hw : ¬ Word.Runs 0x0C3F0042 := by
    rintro ⟨i, hi, hs⟩
    cases hpp.symm.trans hi
    exact hs rfl
  obtain ⟨-, -, hok, -⟩ := runWords_robust hq hb [0x18C00000, 0x40000000]
  obtain ⟨-, -, -, hstop⟩ := runWords_robust hq hb [0x18C00000, 0x40000000, 0x0C3F0042]
  exact ⟨hq, hb, hok.mpr hpre, hstop _ _ [] rfl hpre hw⟩

end PimAsm
