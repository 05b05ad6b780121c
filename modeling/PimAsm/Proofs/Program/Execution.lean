import Mathlib
import PimAsm.Program.Script
import PimAsm.Proofs.Gemv.Memory
import PimAsm.Proofs.Program.Assembly
import PimAsm.Proofs.Program.Atomicity

namespace PimAsm

def Instr.gemvOps (is : List Instr) : List Gemv.Op :=
  is.filterMap fun
    | .gemv op => some op
    | .vv _ => none

@[simp] lemma Instr.gemvOps_append (is js : List Instr) : gemvOps (is ++ js) = gemvOps is ++ gemvOps js :=
  List.filterMap_append

@[simp] lemma Instr.gemvOps_map (ops : List Gemv.Op) : gemvOps (ops.map .gemv) = ops := by
  rw [gemvOps, List.filterMap_map]
  exact List.filterMap_some

lemma Gemv.Block.runWords_word {is : List Instr} (h : ∀ i ∈ is, i.Fits) (b : Block) :
    runWords (is.map Instr.word) b = run (Instr.gemvOps is) b := by
  induction is generalizing b with
  | nil => rfl
  | cons i is ih =>
    have ht := ih fun i hi => h i (by simp [hi])
    rw [List.map_cons, runWords, runWord, Instr.decode_word (h i (by simp)), attempt_ok]
    cases i with
    | gemv op => exact congrArg (andThen (b.exec op)) (funext ht)
    | vv op => exact ht b

namespace Session

variable {s s' : Session}

lemma Sound.step (h : s.Sound) (st : Step) : (s.step st).1.Sound := by
  unfold Session.step
  refine Sound.issue ?_ _
  split
  · split_ifs
    · exact h
    · exact ⟨h.config, h.records, h.assembled⟩
  · exact h

lemma Sound.run (h : s.Sound) (steps : List Step) : (s.run steps).1.Sound := by
  induction steps generalizing s with
  | nil => exact h
  | cons st steps ih =>
    have hs := h.step st
    rw [Session.run]
    rcases he : s.step st with ⟨s1, e | n⟩
    · rw [he] at hs
      exact hs
    · rw [he] at hs
      exact ih hs

lemma issue_eq_ok {call : Call} {n : ℕ} (h : s.issue call = (s', .ok n)) :
    ∃ rs, call.records s.config s.note = .ok rs ∧ s'.config = s.config ∧ s'.records = s.records ++ rs := by
  unfold issue at h
  cases hr : call.records s.config s.note with
  | error e => simp [hr] at h
  | ok rs =>
    simp only [hr, Prod.mk.injEq] at h
    obtain ⟨rfl, _⟩ := h
    exact ⟨rs, rfl, rfl, rfl⟩

lemma Sound.words_issue (h : s.Sound) {call : Call} {n : ℕ} (hi : s.issue call = (s', .ok n)) :
    ∃ rs before, call.records s.config s.note = .ok rs ∧ rs.length = n ∧ s.words.2 = .ok before ∧
      s'.words.2 = .ok (before ++ (rs.flatMap (·.body.instrs)).map Instr.word) ∧
      ∀ i ∈ rs.flatMap (·.body.instrs), i.Fits := by
  have hs' : s'.Sound := by simpa only [hi] using h.issue call
  cases hr : call.records s.config s.note with
  | error e =>
    rw [issue_of_error hr] at hi
    cases hi
  | ok rs =>
    rw [issue_of_ok hr] at hi
    cases hi
    refine ⟨rs, _, rfl, rfl, by rw [h.words_eq], ?_, fun i hm => hs'.fits i ?_⟩
    · rw [hs'.words_eq, List.flatMap_append, List.map_append]
    · rw [List.flatMap_append]
      exact List.mem_append_right _ hm

lemma step_eq_ok {st : Step} {n : ℕ} (h : s.step st = (s', .ok n)) :
    ∃ note rs, st.call.records s.config note = .ok rs ∧ s'.config = s.config ∧ s'.records = s.records ++ rs := by
  unfold step at h
  split at h
  · split_ifs at h
    · exact ⟨_, issue_eq_ok h⟩
    · exact ⟨_, issue_eq_ok (s := s.withNote _) h⟩
  · exact ⟨_, issue_eq_ok h⟩

lemma run_eq_ok {steps : List Step} {n : ℕ} (h : s.run steps = (s', .ok n)) :
    ∃ rss, List.Forall₂ (fun st rs => ∃ note, st.call.records s.config note = .ok rs) steps rss ∧
      s'.records = s.records ++ rss.flatten := by
  induction steps generalizing s n with
  | nil =>
    cases h
    exact ⟨[], .nil, by simp⟩
  | cons st steps ih =>
    rw [run] at h
    rcases he : s.step st with ⟨s1, e | k⟩
    · simp [he] at h
    · rcases hr : run steps s1 with ⟨s2, e | j⟩
      · simp [he, hr, Functor.map, Except.map] at h
      · simp only [he, hr, Prod.mk.injEq] at h
        obtain ⟨rfl, _⟩ := h
        obtain ⟨note, rs, hrs, hc, hrec⟩ := step_eq_ok he
        obtain ⟨rss, hf, hrecs⟩ := ih hr
        rw [hc] at hf
        exact ⟨rs :: rss, .cons ⟨note, hrs⟩ hf, by rw [hrecs, hrec, List.flatten_cons, List.append_assoc]⟩

end Session

end PimAsm
