import Mathlib
import PimAsm.Proofs.Gemv.Agreement
import PimAsm.Proofs.Program.Safety

/-! The registers past the user's do not show in the user's registers, unless a program shifts the last of these: such
a move takes bits of the register after its source, which no check asks about. -/

namespace PimAsm

open Gemv

/-- From states that differ only past the user's registers the words run to states that differ only there. -/
def Isolated (p : Limits) (ws : List Word) : Prop :=
  ∀ b b' : Block, b.Sound p → b'.Sound p → b.Agree p.regCnt b' →
    ∀ e, Block.runWords ws b = (e, .ok ()) → ∃ e', Block.runWords ws b' = (e', .ok ()) ∧ e.Agree p.regCnt e'

namespace Call

/-- A shifted move out of the last of the user's registers. -/
def Spills (p : Limits) : Call → Prop
  | .mvMovOffset offset _ rs => offset ≠ 0 ∧ rs + 1 = p.regCnt
  | _ => False

variable {c : Config} {call : Call} {b b' : Block}

lemma agree_multFxp (hc : c.Valid) {rd m q : ℕ} {rs : List Record} (hr : (mvMultFxp rd m q).records c none = .ok rs)
    (h : b.Agree c.gemv.regCnt b') (hb : b.Sound c.gemv) (hb' : b'.Sound c.gemv) :
    (((mvMultFxp rd m q).ops c).foldl Block.effect b).Agree c.gemv.regCnt
      (((mvMultFxp rd m q).ops c).foldl Block.effect b') := by
  have hw := ops_within hc (mvMultFxp rd m q)
  have hn := hc.gemv.regCnt_le
  obtain ⟨comment, -, hrs⟩ := multFxpRecords_eq_ok hc none rd m q
  obtain ⟨⟨-, ⟨-, hm, hq⟩, -⟩, mult, he, rfl⟩ := (hrs rs).mp hr
  have ho : (mvMultFxp rd m q).ops c = mult ++ [.movOffset (byte c.fracWidth) (byte rd) (byte c.gemv.regCnt)] := by
    rw [ops_eq hr, instrs_scaledRecords, Instr.gemvOps_map]
  rw [ho] at hw ⊢
  rw [List.foldl_append, List.foldl_append]
  -- the move reads the pair that the product has just written
  have hpair := h.product hb hb' hc.gemv (by omega) hm hq he
  have hmove := hw (.movOffset (byte c.fracWidth) (byte rd) (byte c.gemv.regCnt)) (by simp)
  exact (hpair.effect hmove).mono (Nat.le_add_right _ 2)

lemma reach_of_not_spills {rs : List Record} {offset rd src : ℕ}
    (hr : (mvMovOffset offset rd src).records c none = .ok rs) (hs : ¬ (mvMovOffset offset rd src).Spills c.gemv) :
    (mvMovOffset offset rd src).reach c.gemv = c.gemv.regCnt := by
  obtain ⟨op, ho, -⟩ := single_eq_ok.mp hr
  obtain ⟨⟨-, -, hsrc⟩, -⟩ := Limits.movOffset_eq_ok.mp ho
  simp only [Spills] at hs
  rw [reach, Limits.moveReach, if_pos (by omega)]

lemma agree (hc : c.Valid) (hs : ¬ call.Spills c.gemv) (h : b.Agree c.gemv.regCnt b') (hb : b.Sound c.gemv)
    (hb' : b'.Sound c.gemv) :
    ((call.ops c).foldl Block.effect b).Agree c.gemv.regCnt ((call.ops c).foldl Block.effect b') := by
  have hw := ops_within hc call
  cases hr : call.records c none with
  | error e =>
    rw [ops_of_error hr]
    exact h
  | ok rs =>
    cases call with
    | mvMultFxp => exact agree_multFxp hc hr h hb hb'
    | mvMovOffset =>
      rw [reach_of_not_spills hr hs] at hw
      exact h.foldl_effect hw
    | _ => exact h.foldl_effect hw

lemma agree_calls (hc : c.Valid) {calls : List Call} (hs : ∀ call ∈ calls, ¬ call.Spills c.gemv)
    (h : b.Agree c.gemv.regCnt b') (hb : b.Sound c.gemv) (hb' : b'.Sound c.gemv) :
    ((calls.flatMap (ops c)).foldl Block.effect b).Agree c.gemv.regCnt
      ((calls.flatMap (ops c)).foldl Block.effect b') := by
  induction calls generalizing b b' with
  | nil => exact h
  | cons call calls ih =>
    rw [List.flatMap_cons, List.foldl_append, List.foldl_append]
    have hcall := agree hc (hs call (by simp)) h hb hb'
    exact ih (fun k hk => hs k (by simp [hk])) hcall (hb.foldl_effect _) (hb'.foldl_effect _)

end Call

namespace Session.History

variable {h : History}

lemma run_sound (hs : h.session.Sound) (actions : List Action) : (h.run actions).session.Sound := by
  induction actions generalizing h with
  | nil => exact hs
  | cons a actions ih => exact ih (hs.perform a)

lemma Faithful.isolated (hf : h.Faithful) (hs : h.session.Sound)
    (hn : ∀ call ∈ h.calls, ¬ call.Spills h.session.config.gemv) :
    Isolated h.session.config.gemv ((h.session.records.flatMap (·.body.instrs)).map Instr.word) := by
  intro b b' hb hb' hab e he
  have hp := hs.config.gemv
  rw [Block.runWords_word hs.fits] at he ⊢
  have ho := hf.within hs.config
  -- whether a run goes through is read off the program, so the second run does as well
  have hov : ∀ op ∈ Instr.gemvOps (h.session.records.flatMap (·.body.instrs)), ¬ op.Overfolds := by
    intro op hm hop
    obtain ⟨_, f, hr⟩ := Block.run_overfolds hp (by decide) hb ho ⟨op, hm, hop⟩
    cases hr.symm.trans he
  rw [Block.run_eq hp (by decide) hb ho hov] at he
  cases he
  refine ⟨_, Block.run_eq hp (by decide) hb' ho hov, ?_⟩
  rw [hf.gemvOps_eq]
  exact Call.agree_calls hs.config hn hab hb hb'

end Session.History

lemma runWords_move {p : Limits} (hp : p.Valid) {offset rd rs : ℕ} {op : Op} (h : p.movOffset offset rd rs = .ok op)
    {b : Block} (hb : b.Sound p) : Block.runWords ([Instr.gemv op].map Instr.word) b = (b.effect op).done := by
  have hw := (Mnemonic.build_within hp (m := .movOffset offset rd rs) h).mono
    ((Call.mvMovOffset offset rd rs).reach_le hp)
  have hf : (Instr.gemv op).Fits := hw.fits hp (by decide)
  have hov : ¬ op.Overfolds := by
    rw [(Limits.movOffset_eq_ok.mp h).2]
    exact id
  rw [Block.runWords_word (by simpa using hf)]
  exact congrArg (Block.andThen · Block.done) (Block.exec_eq hp hb (by decide) hw hov)

lemma Call.Spills.not_isolated {c : Config} (hc : c.Valid) {call : Call} (h : call.Spills c.gemv) {s : Session} {k : ℕ}
    (hi : (Session.new c).issue call = (s, .ok k)) :
    ¬ Isolated c.gemv ((s.records.flatMap (·.body.instrs)).map Instr.word) := by
  have hp := hc.gemv
  cases call with
  | mvMovOffset offset rd rs =>
    obtain ⟨h0, hlast⟩ := h
    obtain ⟨_, hr, -, hrecs⟩ := Session.issue_eq_ok hi
    obtain ⟨op, ho, rfl⟩ := single_eq_ok.mp hr
    have hws : s.records.flatMap (·.body.instrs) = [.gemv op] := by rw [hrecs]; rfl
    obtain ⟨⟨hk, hd, -⟩, rfl⟩ := (Limits.movOffset_eq_ok (p := c.gemv)).mp ho
    have hn := hp.regCnt_le
    rw [hp.regWidth] at hk
    obtain ⟨b, b', hb, hb', hab, hne⟩ := Block.exists_not_agree_move hp (by omega) hk h0 hd hlast
    rw [hws]
    intro hiso
    obtain ⟨e', he', hag⟩ := hiso b b' hb hb' hab _ (runWords_move hp ho hb)
    cases (runWords_move hp ho hb').symm.trans he'
    exact hne hag
  | _ => exact h.elim

theorem isolated_unless_spilled {q : Params} {c : Config} (hq : q.validate = .ok c) :
    (∀ actions : List Session.Action,
      let h := (Session.History.start c).run actions
      (∀ call ∈ h.calls, ¬ call.Spills h.session.config.gemv) →
        ∃ ws, h.session.words.2 = .ok ws ∧ Isolated h.session.config.gemv ws) ∧
    ∀ (call : Call) (s : Session) (k : ℕ), call.Spills c.gemv → (Session.new c).issue call = (s, .ok k) →
      ∃ ws, s.words.2 = .ok ws ∧ ¬ Isolated c.gemv ws := by
  have hc := Params.validate_valid hq
  constructor
  · intro actions h hn
    have hs : h.session.Sound := Session.History.run_sound (Session.Sound.new hc) actions
    have hf : h.Faithful := (Session.History.Faithful.start c).run actions
    exact ⟨_, by rw [hs.words_eq], hf.isolated hs hn⟩
  · intro call s k hsp hi
    have hs : s.Sound := by
      have hn := (Session.Sound.new hc).issue call
      rwa [hi] at hn
    exact ⟨_, by rw [hs.words_eq], hsp.not_isolated hc hi⟩

theorem isolated_unless_spilled_product :
    let h := (Session.History.start { reserved := some ⟨16, 2⟩ }).run
      [.call (.mvMultFxp 2 0 1), .words, .call (.mvMovOffset 4 3 14)]
    ({ reservedRegs := 2 } : Params).validate = .ok { reserved := some ⟨16, 2⟩ } ∧ h.session.records.length = 3 ∧
      (∃ ws, h.session.words.2 = .ok ws ∧ Isolated h.session.config.gemv ws) ∧
      ∃ s ws, (Session.new { reserved := some ⟨16, 2⟩ }).issue (.mvMovOffset 4 0 15) = (s, .ok 1) ∧
        s.words.2 = .ok ws ∧ ¬ Isolated {} ws := by
  have hq : ({ reservedRegs := 2 } : Params).validate = .ok { reserved := some ⟨16, 2⟩ } := rfl
  have hns : ∀ call ∈ [Call.mvMultFxp 2 0 1, .mvMovOffset 4 3 14], ¬ call.Spills {} := by simp [Call.Spills]
  obtain ⟨hkeep, hbreak⟩ := isolated_unless_spilled hq
  refine ⟨hq, by decide, hkeep [.call (.mvMultFxp 2 0 1), .words, .call (.mvMovOffset 4 3 14)] hns, ?_⟩
  obtain ⟨ws, hw, hn⟩ := hbreak (.mvMovOffset 4 0 15) _ 1 ⟨by decide, by decide⟩ rfl
  exact ⟨_, ws, rfl, hw, hn⟩

/-- A shift by 4 out of register 15 takes its upper bits from register 16, which no call can name. -/
theorem shift_shows_next_register :
    let b := Block.new {} 0 0
    let b' := b.store 16 fun _ => 1
    (Session.new.issue (.mvMovOffset 4 0 15)).1.words.2 = .ok [0x1C04000F] ∧ b.Agree 16 b' ∧
      ∃ e e', Block.runWords [0x1C04000F] b = (e, .ok ()) ∧ Block.runWords [0x1C04000F] b' = (e', .ok ()) ∧
        (∀ pe < 16, e.value 0 pe = 0) ∧ ∀ pe < 16, e'.value 0 pe = 4096 := by
  intro b b'
  have hp := Config.default_valid.gemv
  have hb : b.Sound {} := Block.new_sound hp 0 0
  have hb' : b'.Sound {} := hb.store _ _
  have ho : ({} : Limits).movOffset 4 0 15 = .ok (.movOffset 4 0 15) := rfl
  have hw : [Instr.gemv (.movOffset 4 0 15)].map Instr.word = [0x1C04000F] := by decide
  have hr := runWords_move hp ho hb
  have hr' := runWords_move hp ho hb'
  rw [hw] at hr hr'
  refine ⟨by decide, Block.agree_store b le_rfl _, _, _, hr, hr', fun pe hpe => ?_, fun pe hpe => ?_⟩
  · have he : (b.effect (.movOffset 4 0 15)).value 0 pe = Block.shifted 4 (b.wide 15 pe) :=
      Block.value_store hb (by decide) hpe _
    rw [he, Block.wide, Block.value_new, Block.value_new]
    decide
  · have he : (b'.effect (.movOffset 4 0 15)).value 0 pe = Block.shifted 4 (b'.wide 15 pe) :=
      Block.value_store hb' (by decide) hpe _
    have h16 : b'.value 16 pe = 1 := Block.value_store hb (by decide) hpe _
    have h15 : b'.value 15 pe = 0 := (Block.value_store_of_ne (by decide) _).trans (Block.value_new _ _ _ _ _)
    rw [he, Block.wide, h16, h15]
    decide

end PimAsm
