import Mathlib
import PimAsm.Proofs.Acceptance
import PimAsm.Proofs.Program.Atomicity
import PimAsm.Proofs.Program.Records

/-! Accumulations over the blocks of a row: which column counts there are and which levels of the network each of them
takes. The largest one covers every array that the configuration allows. -/

namespace PimAsm

open Gemv

lemma ceilLog2_two_pow (i : ℕ) : ceilLog2 (2 ^ i) = i := by
  apply le_antisymm
  · exact ceilLog2_le_iff.mpr le_rfl
  · exact (Nat.pow_le_pow_iff_right one_lt_two).mp (ceilLog2_le_iff.mp le_rfl)

namespace Call

variable {c : Config} {p : Limits} {rd rs i n : ℕ}

lemma columnCounts_eq (hp : p.Valid) :
    columnCounts p = .ok ((List.range (p.maxLevel + 2)).map fun i => 16 * 2 ^ i) := by
  have hl := hp.maxLevel_le
  have hc : countLimit = 16 * 2 ^ 28 := rfl
  have htop : checkedCount (p.maxLevel + 1) = .ok (p.maxLevel + 1) := by
    rw [checkedCount, if_pos (by omega)]
  have hm : min (p.maxLevel + 1 + 1) 32 = p.maxLevel + 2 := by omega
  simp only [columnCounts, htop, Outcome.ok_bind, hm, hp.peCount, Nat.shiftLeft_eq, Outcome.pure_eq, Except.ok.injEq]
  -- the shifts stay below the limit of a count, so the list is not cut
  apply List.takeWhile_eq_self_iff.mpr
  intro k hk
  obtain ⟨i, hi, rfl⟩ := List.mem_map.mp hk
  have h2 : 2 ^ i < 2 ^ 28 := Nat.pow_lt_pow_right one_lt_two (by have := List.mem_range.mp hi; omega)
  simp only [decide_eq_true_eq, hc]
  omega

lemma levelsOf_eq (hp : p.Valid) (i : ℕ) : levelsOf p (16 * 2 ^ i) = .ok i := by
  simp [levelsOf, hp.peCount, Outcome.within, ceilLog2_two_pow]

def accumulation (c : Config) (comment : String) (rd rs levels : ℕ) : Outcome (List Record) := do
  c.gemv.checkRegs [rd, rs]
  accumRecords c comment rd rs (.ok levels)

lemma rangeAccum_eq (hp : c.gemv.Valid) (hi : i ≤ c.gemv.maxLevel + 1) (note : Option String) (rd rs : ℕ) :
    ∃ comment, (mvRangeAccum (16 * 2 ^ i) rd rs).records c note = accumulation c comment rd rs i := by
  have hm : 16 * 2 ^ i ∈ (List.range (c.gemv.maxLevel + 2)).map fun i => 16 * 2 ^ i :=
    List.mem_map_of_mem (List.mem_range.mpr (by omega))
  rw [records, rangeAccumRecords, columnCounts_eq hp, Outcome.ok_bind, Outcome.require, if_pos hm, Outcome.ok_bind,
    levelsOf_eq hp]
  exact ⟨_, rfl⟩

lemma rangeAccum_refused (hp : c.gemv.Valid) (hn : ¬ ∃ i ≤ c.gemv.maxLevel + 1, n = 16 * 2 ^ i)
    (note : Option String) (rd rs : ℕ) : ∃ f, (mvRangeAccum n rd rs).records c note = Outcome.fail f := by
  have hm : n ∉ (List.range (c.gemv.maxLevel + 2)).map fun i => 16 * 2 ^ i := by
    intro hm
    obtain ⟨i, hi, rfl⟩ := List.mem_map.mp hm
    exact hn ⟨i, Nat.lt_succ_iff.mp (List.mem_range.mp hi), rfl⟩
  rw [records, rangeAccumRecords, columnCounts_eq hp, Outcome.ok_bind, Outcome.require, if_neg hm]
  exact ⟨_, rfl⟩

lemma accumulation_refused (h : ¬ (rd < c.gemv.regCnt ∧ rs < c.gemv.regCnt)) :
    ∃ f, ∀ comment levels, accumulation c comment rd rs levels = Outcome.fail f := by
  obtain ⟨f, hf⟩ := Outcome.exists_fail (c.gemv.checkRegs_ne_trap [rd, rs]) fun u hu =>
    h (Limits.checkRegs_pair_eq_ok.mp hu)
  refine ⟨f, fun comment levels => ?_⟩
  rw [accumulation, hf]
  rfl

lemma accumulation_eq {ops : List Op} (hx : (Macro.blockAccum rd rs).expand c.gemv = .ok ops)
    (hd : rd < c.gemv.regCnt) (hs : rs < c.gemv.regCnt) (hi : i ≤ c.gemv.maxLevel + 1) (comment : String) :
    accumulation c comment rd rs i = .ok (treeRecords ops comment rd rs i) := by
  have hregs : c.gemv.checkRegs [rd, rs] = .ok () := Limits.checkRegs_pair_eq_ok.mpr ⟨hd, hs⟩
  rw [accumulation, hregs, Outcome.ok_bind]
  exact accumRecords_eq_ok.mpr ⟨ops, i, hx, rfl, fun level hl => ⟨by omega, hd⟩, rfl⟩

/-- The bodies of an accumulation of `rs` over `2 ^ levels` blocks in `rd`. -/
def Accumulates (p : Limits) (rd rs levels : ℕ) (bodies : List Body) : Prop :=
  ∃ ops rows, (Macro.blockAccum rd rs).expand p = .ok ops ∧ bodies = .gemvMacro (.blockAccum rd rs) ops :: rows ∧
    List.Forall₂ (fun level row => ∃ l r, row = .gemv (.accumRow l r) ∧ l.toNat = level ∧ r.toNat = rd)
      (List.range levels) rows

lemma accumulates_treeRecords {ops : List Op} (hx : (Macro.blockAccum rd rs).expand c.gemv = .ok ops)
    (hc : c.Valid) (hd : rd < c.gemv.regCnt) (hi : i ≤ c.gemv.maxLevel + 1) (comment : String) :
    Accumulates c.gemv rd rs i ((treeRecords ops comment rd rs i).map Record.body) := by
  have hl := hc.gemv.maxLevel_le
  have hr := hc.gemv.regCnt_le
  refine ⟨ops, _, hx, rfl, ?_⟩
  rw [List.map_map, List.forall₂_map_right_iff, List.forall₂_same]
  intro level hm
  have := List.mem_range.mp hm
  exact ⟨_, _, rfl, toNat_byte (by omega), toNat_byte (by omega)⟩

lemma bodies_treeRecords (ops : List Op) (comment comment' : String) (rd rs i : ℕ) :
    (treeRecords ops comment rd rs i).map Record.body = (treeRecords ops comment' rd rs i).map Record.body := by
  simp [treeRecords, gemvRecord]

lemma exists_blockAccum (hc : c.Valid) (hd : rd < c.gemv.regCnt) (hs : rs < c.gemv.regCnt) :
    ∃ ops, (Macro.blockAccum rd rs).expand c.gemv = .ok ops := by
  have hr := hc.gemv.regCnt_le
  exact ⟨_, Macro.expand_blockAccum (by omega) (by omega)⟩

lemma rangeAccum_cases (hc : c.Valid) (note : Option String) (n rd rs : ℕ) :
    (∃ i ops comment, i ≤ c.gemv.maxLevel + 1 ∧ n = 16 * 2 ^ i ∧ rd < c.gemv.regCnt ∧ rs < c.gemv.regCnt ∧
      (Macro.blockAccum rd rs).expand c.gemv = .ok ops ∧
      (mvRangeAccum n rd rs).records c note = .ok (treeRecords ops comment rd rs i)) ∨
    (¬ ((rd < c.gemv.regCnt ∧ rs < c.gemv.regCnt) ∧ ∃ i ≤ c.gemv.maxLevel + 1, n = 16 * 2 ^ i) ∧
      ∃ f, (mvRangeAccum n rd rs).records c note = Outcome.fail f) := by
  by_cases hn : ∃ i ≤ c.gemv.maxLevel + 1, n = 16 * 2 ^ i
  · obtain ⟨i, hi, rfl⟩ := hn
    obtain ⟨comment, he⟩ := rangeAccum_eq hc.gemv hi note rd rs
    by_cases hr : rd < c.gemv.regCnt ∧ rs < c.gemv.regCnt
    · obtain ⟨hd, hs⟩ := hr
      obtain ⟨ops, hx⟩ := exists_blockAccum hc hd hs
      exact Or.inl ⟨i, ops, comment, hi, rfl, hd, hs, hx, he.trans (accumulation_eq hx hd hs hi comment)⟩
    · obtain ⟨f, hf⟩ := accumulation_refused hr
      exact Or.inr ⟨fun h => hr h.1, f, he.trans (hf comment i)⟩
  · exact Or.inr ⟨fun h => hn h.2, rangeAccum_refused hc.gemv hn note rd rs⟩

end Call

namespace Session

variable {s : Session}

/-- Both calls check the registers and append the same tree, whose records differ in their comments. -/
lemma issue_allAccum (hc : s.config.Valid) (rd rs : ℕ) :
    (s.issue (.mvAllAccum rd rs)).2 = (s.issue (.mvRangeAccum (16 * 2 ^ (s.config.gemv.maxLevel + 1)) rd rs)).2 ∧
      Alike (s.issue (.mvRangeAccum (16 * 2 ^ (s.config.gemv.maxLevel + 1)) rd rs)).1
        (s.issue (.mvAllAccum rd rs)).1 := by
  obtain ⟨comment, he⟩ := Call.rangeAccum_eq hc.gemv le_rfl s.note rd rs
  obtain ⟨comment', he'⟩ : ∃ comment', (Call.mvAllAccum rd rs).records s.config s.note =
      Call.accumulation s.config comment' rd rs (s.config.gemv.maxLevel + 1) := ⟨_, rfl⟩
  by_cases hr : rd < s.config.gemv.regCnt ∧ rs < s.config.gemv.regCnt
  · obtain ⟨hd, hs⟩ := hr
    obtain ⟨ops, hx⟩ := Call.exists_blockAccum hc hd hs
    rw [issue_of_ok (he.trans (Call.accumulation_eq hx hd hs le_rfl comment)),
      issue_of_ok (he'.trans (Call.accumulation_eq hx hd hs le_rfl comment'))]
    refine ⟨by simp [Call.treeRecords], rfl, ?_⟩
    simp only [List.map_append]
    rw [Call.bodies_treeRecords ops comment comment']
  · obtain ⟨f, hf⟩ := Call.accumulation_refused hr
    rw [issue_of_error (he.trans (hf _ _)),
      issue_of_error (he'.trans (hf _ _))]
    exact ⟨rfl, rfl, rfl⟩

end Session

theorem rangeAccum_levels {u : Params} {c : Config} (hu : u.validate = .ok c) {s : Session} (hs : s.config = c)
    (rd rs : ℕ) :
    (∀ n, (s.issue (.mvRangeAccum n rd rs)).2 ≠ Outcome.trap ∧
      ((∃ s' k, s.issue (.mvRangeAccum n rd rs) = (s', .ok k)) ↔
        (rd < c.gemv.regCnt ∧ rs < c.gemv.regCnt) ∧ ∃ i ≤ c.gemv.maxLevel + 1, n = 16 * 2 ^ i)) ∧
    (∀ i s' k, s.issue (.mvRangeAccum (16 * 2 ^ i) rd rs) = (s', .ok k) → k = 1 + i ∧
      ∃ new, s'.records = s.records ++ new ∧ new.length = 1 + i ∧
        Call.Accumulates c.gemv rd rs i (new.map Record.body)) ∧
    ((s.issue (.mvAllAccum rd rs)).2 = (s.issue (.mvRangeAccum (16 * 2 ^ (c.gemv.maxLevel + 1)) rd rs)).2 ∧
      Session.Alike (s.issue (.mvRangeAccum (16 * 2 ^ (c.gemv.maxLevel + 1)) rd rs)).1
        (s.issue (.mvAllAccum rd rs)).1) ∧
    ∀ rows cols, u.blockDim = some (rows, cols) →
      c.maxCol = some (16 * cols) ∧ 16 * cols ≤ 16 * 2 ^ (c.gemv.maxLevel + 1) := by
  subst hs
  have hc := Params.validate_valid hu
  refine ⟨fun n => ?_, fun i s' k hi => ?_, Session.issue_allAccum hc rd rs, fun rows cols hd => ?_⟩
  · obtain ⟨i, ops, comment, hi, hn, hd, hs, -, he⟩ | ⟨hn, f, he⟩ := Call.rangeAccum_cases hc s.note n rd rs
    · rw [Session.issue_of_ok he]
      exact ⟨nofun, fun _ => ⟨⟨hd, hs⟩, i, hi, hn⟩, fun _ => ⟨_, _, rfl⟩⟩
    · rw [Session.issue_of_error he]
      refine ⟨nofun, ?_, fun h => absurd h hn⟩
      rintro ⟨s', k, hk⟩
      cases hk
  · obtain ⟨j, ops, comment, hj, hn, hd, hs, hx, he⟩ | ⟨-, f, he⟩ :=
      Call.rangeAccum_cases hc s.note (16 * 2 ^ i) rd rs
    · obtain rfl : i = j := Nat.pow_right_injective le_rfl (Nat.eq_of_mul_eq_mul_left (by decide) hn)
      rw [Session.issue_of_ok he] at hi
      cases hi
      have hl : (Call.treeRecords ops comment rd rs i).length = 1 + i := by simp [Call.treeRecords, add_comm]
      exact ⟨hl, _, rfl, hl, Call.accumulates_treeRecords hx hc hd hj comment⟩
    · rw [Session.issue_of_error he] at hi
      cases hi
  · obtain ⟨hl, hm⟩ := Params.validate_columns hu
    obtain ⟨hin, -⟩ := u.validate_settles.exists_ok_iff.mp ⟨_, hu⟩
    obtain ⟨-, -, -, hcols⟩ := hin.blockDim rows cols hd
    rw [hm, hd, hl]
    exact ⟨by simp [mul_comm], by gcongr⟩

/-- An array of as many columns as a count can hold, summed over all of the 27 levels that they take. -/
theorem rangeAccum_levels_deepest :
    let u : Params := { maxLevel := 26, blockDim := some (1, 134217728) }
    let c : Config := { gemv := { maxLevel := 26 }, maxRow := some 1, maxCol := some 2147483648 }
    u.validate = .ok c ∧ 2147483648 ≤ 16 * 2 ^ 27 ∧
      ∃ s' new, (Session.new c).issue (.mvRangeAccum 2147483648 1 2) = (s', .ok 28) ∧ s'.records = new ∧
        Call.Accumulates c.gemv 1 2 27 (new.map Record.body) := by
  intro u c
  have hu : u.validate = .ok c := by decide +kernel
  obtain ⟨hok, hnew, -, hcover⟩ := rangeAccum_levels hu (s := Session.new c) rfl 1 2
  obtain ⟨s', k, hi⟩ := (hok 2147483648).2.mpr ⟨by decide, 27, by decide, by decide⟩
  obtain ⟨rfl, new, hrecs, -, hacc⟩ := hnew 27 s' k hi
  exact ⟨hu, (hcover 1 134217728 rfl).2, s', new, hi, hrecs, hacc⟩

end PimAsm
