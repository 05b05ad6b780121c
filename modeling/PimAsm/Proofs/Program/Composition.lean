import Mathlib
import PimAsm.Proofs.Program.Atomicity
import PimAsm.Proofs.Program.Execution

/-! A script is the sum of its steps: no step sees what the others leave behind. -/

namespace PimAsm.Session

def alone (c : Config) (st : Step) : Session × Outcome ℕ := (new c).step st

def holding (c : Config) (rs : List Record) : Session := { config := c, records := rs }

variable {c : Config} {st : Step} {steps pre : List Step} {rs : List Record} {n : ℕ} {e : Halt}

-- a comment takes no note, neither the one that waits nor its own
lemma step_holding (c : Config) (qs : List Record) (st : Step) :
    ∃ n, (holding c qs).step st = issue { holding c qs with note := n } st.call ∧
      st.call.records c n = st.call.records c st.note ∧ (st.call.keepsNote = true → n = none) := by
  cases hn : st.note with
  | none => exact ⟨none, by rw [step, hn]; rfl, rfl, fun _ => rfl⟩
  | some text =>
    cases hk : st.call.keepsNote with
    | true => exact ⟨none, by simp only [step, hn, hk, if_true]; rfl, Call.records_of_keepsNote hk _ _, fun _ => rfl⟩
    | false =>
      refine ⟨some text, ?_, rfl, nofun⟩
      simp only [step, hn, hk, Bool.false_eq_true, if_false]
      rfl

lemma step_of_ok (h : st.call.records c st.note = .ok rs) (qs : List Record) :
    (holding c qs).step st = (holding c (qs ++ rs), .ok rs.length) := by
  obtain ⟨n, hs, hr, hk⟩ := step_holding c qs st
  rw [hs, issue_of_ok (hr.trans h)]
  split_ifs with hkeep
  · rw [hk hkeep]
    rfl
  · rfl

lemma step_of_error (h : st.call.records c st.note = .error e) (qs : List Record) :
    (holding c qs).step st = (holding c qs, .error e) := by
  obtain ⟨n, hs, hr, -⟩ := step_holding c qs st
  rw [hs, issue_of_error (hr.trans h)]
  rfl

lemma alone_of_ok (h : st.call.records c st.note = .ok rs) : alone c st = (holding c rs, .ok rs.length) :=
  step_of_ok h []

lemma alone_of_error (h : st.call.records c st.note = .error e) : alone c st = (holding c [], .error e) :=
  step_of_error h []

lemma alone_eq_ok (h : (alone c st).2 = .ok n) :
    st.call.records c st.note = .ok (alone c st).1.records ∧ (alone c st).1.records.length = n := by
  cases hr : st.call.records c st.note with
  | error e =>
    rw [alone_of_error hr] at h
    cases h
  | ok rs =>
    rw [alone_of_ok hr] at h ⊢
    cases h
    exact ⟨rfl, rfl⟩

lemma alone_eq_error (h : (alone c st).2 = .error e) : st.call.records c st.note = .error e := by
  cases hr : st.call.records c st.note with
  | error e' =>
    rw [alone_of_error hr] at h
    cases h
    rfl
  | ok rs =>
    rw [alone_of_ok hr] at h
    cases h

lemma run_holding (h : ∀ st ∈ pre, ∃ n, (alone c st).2 = .ok n) (post : List Step) (qs : List Record) :
    ∃ ns, pre.mapM (fun st => (alone c st).2) = .ok ns ∧
      let rest := run post (holding c (qs ++ pre.flatMap fun st => (alone c st).1.records))
      run (pre ++ post) (holding c qs) = (rest.1, (ns.sum + ·) <$> rest.2) := by
  induction pre generalizing qs with
  | nil => exact ⟨[], rfl, by simp⟩
  | cons st pre ih =>
    obtain ⟨n, hn⟩ := h st (by simp)
    obtain ⟨hr, hl⟩ := alone_eq_ok hn
    obtain ⟨ns, hns, hrun⟩ := ih (fun t ht => h t (by simp [ht])) (qs ++ (alone c st).1.records)
    refine ⟨n :: ns, by rw [List.mapM_cons, hn, hns]; rfl, ?_⟩
    simp only [List.cons_append, run, step_of_ok hr, hl, hrun, List.flatMap_cons, List.append_assoc, List.sum_cons]
    simp [Nat.add_assoc]

lemma run_all (h : ∀ st ∈ steps, ∃ n, (alone c st).2 = .ok n) :
    ∃ ns, steps.mapM (fun st => (alone c st).2) = .ok ns ∧
      run steps (new c) = (holding c (steps.flatMap fun st => (alone c st).1.records), .ok ns.sum) := by
  obtain ⟨ns, hns, hrun⟩ := run_holding h [] []
  refine ⟨ns, hns, ?_⟩
  rw [List.append_nil] at hrun
  exact hrun

lemma run_until (h : ∀ st ∈ pre, ∃ n, (alone c st).2 = .ok n) (he : (alone c st).2 = .error e) (post : List Step) :
    run (pre ++ st :: post) (new c) = (holding c (pre.flatMap fun st => (alone c st).1.records), .error e) := by
  obtain ⟨ns, -, hrun⟩ := run_holding h (st :: post) []
  simp only [run, step_of_error (alone_eq_error he)] at hrun
  exact hrun

lemma words_holding (hc : c.Valid) (h : ∀ st ∈ steps, ∃ n, (alone c st).2 = .ok n) :
    ∃ wss, steps.mapM (fun st => (alone c st).1.words.2) = .ok wss ∧
      (holding c (steps.flatMap fun st => (alone c st).1.records)).words.2 = .ok wss.flatten := by
  have hs (st : Step) : (alone c st).1.Sound := (Sound.new hc).step st
  obtain ⟨ns, -, hrun⟩ := run_all h
  have ht : (holding c (steps.flatMap fun st => (alone c st).1.records)).Sound := by
    have hr := (Sound.new hc).run steps
    rwa [hrun] at hr
  refine ⟨_, Outcome.mapM_of_forall fun st _ => congrArg Prod.snd (hs st).words_eq, ?_⟩
  rw [ht.words_eq, ← List.flatMap_def, holding, List.flatMap_assoc, List.map_flatMap]

theorem run_compositional {p : Params} {c : Config} (hp : p.validate = .ok c) (steps : List Step) :
    let result := (new c).run steps
    ((∃ n, result.2 = .ok n) ↔ ∀ st ∈ steps, ∃ n, (alone c st).2 = .ok n) ∧
    (∀ n, result.2 = .ok n → result.1.records = (steps.flatMap fun st => (alone c st).1.records) ∧
      (∃ wss, steps.mapM (fun st => (alone c st).1.words.2) = .ok wss ∧ result.1.words.2 = .ok wss.flatten) ∧
      ∃ ns, steps.mapM (fun st => (alone c st).2) = .ok ns ∧ n = ns.sum) ∧
    ∀ pre st post e, steps = pre ++ st :: post → (∀ t ∈ pre, ∃ n, (alone c t).2 = .ok n) →
      (alone c st).2 = .error e →
        result.2 = .error e ∧ result.1.records = (pre.flatMap fun t => (alone c t).1.records) ∧
          result.1.note = none := by
  intro result
  have hiff : (∃ n, result.2 = .ok n) ↔ ∀ st ∈ steps, ∃ n, (alone c st).2 = .ok n := by
    constructor
    · rintro ⟨n, hn⟩
      by_contra hall
      obtain ⟨pre, st, post, rfl, hpre, hst⟩ := Outcome.exists_first_not hall
      cases he : (alone c st).2 with
      | ok m => exact hst ⟨m, he⟩
      | error e =>
        rw [show result = _ from run_until hpre he post] at hn
        cases hn
    · intro h
      obtain ⟨ns, -, hrun⟩ := run_all h
      exact ⟨ns.sum, congrArg Prod.snd hrun⟩
  refine ⟨hiff, fun n hn => ?_, ?_⟩
  · have hall := hiff.mp ⟨n, hn⟩
    obtain ⟨ns, hns, hrun⟩ := run_all hall
    have hres : result = _ := hrun
    rw [hres] at hn ⊢
    exact ⟨rfl, words_holding (Params.validate_valid hp) hall, ns, hns, (Except.ok.inj hn).symm⟩
  · rintro pre st post e rfl hpre he
    have hres : result = _ := run_until hpre he post
    rw [hres]
    exact ⟨rfl, rfl, rfl⟩

theorem run_compositional_noted :
    let good := [⟨.comment "a", some "b"⟩, ⟨.mvSync, some "c"⟩]
    let bad := good ++ ⟨.mvAdd 16 0 0, some "d"⟩ :: [⟨.vvNop, none⟩]
    ({} : Params).validate = .ok {} ∧ (∃ n, (new.run good).2 = .ok n) ∧
      (new.run bad).2 = Outcome.fail (.register .gemv 16 16) ∧
      (new.run bad).1.records = (good.flatMap fun st => (alone {} st).1.records) ∧ (new.run bad).1.note = none := by
  intro good bad
  have hp : ({} : Params).validate = .ok {} := rfl
  have hg : ∀ st ∈ good, ∃ n, (alone {} st).2 = .ok n := by
    intro st hst
    rcases List.mem_cons.mp hst with rfl | hst
    · exact ⟨1, rfl⟩
    · rw [List.mem_singleton.mp hst]
      exact ⟨1, rfl⟩
  exact ⟨hp, (run_compositional hp good).1.mpr hg, (run_compositional hp bad).2.2 good _ _ _ rfl hg rfl⟩

end PimAsm.Session
