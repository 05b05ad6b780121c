import Mathlib
import PimAsm.Params
import PimAsm.Proofs.Outcome

namespace PimAsm

structure Gemv.Limits.Valid (p : Gemv.Limits) : Prop where
  regCnt_le : p.regCnt ≤ 60
  regWidth : p.regWidth = 16
  maxLevel_le : p.maxLevel ≤ 26
  maxFold_pos : 1 ≤ p.maxFold
  maxFold_le : p.maxFold ≤ 63
  idWidth_pos : 1 ≤ p.idWidth
  idWidth_le : p.idWidth ≤ 8
  peCount : p.peCount = 16
  pimDepth : p.pimDepth = 1024

structure Vv.Limits.Valid (p : Vv.Limits) : Prop where
  regCnt_le : p.regCnt ≤ 256
  idWidth_pos : 1 ≤ p.idWidth
  idWidth_le : p.idWidth ≤ 8

namespace Config

structure Valid (c : Config) : Prop where
  gemv : c.gemv.Valid
  vv : c.vv.Valid
  fracWidth_le : c.fracWidth ≤ 16
  /-- Reserved registers start after the user's and end inside the memory. -/
  reserved : ∀ r ∈ c.reserved, r.base = c.gemv.regCnt ∧ r.base + r.count ≤ 64

lemma default_valid : Valid {} where
  gemv := by constructor <;> decide
  vv := by constructor <;> decide
  fracWidth_le := by decide
  reserved := by simp

end Config

lemma Params.checkReserved_eq_ok {p : Params} {n : ℕ} {o : Option Reserved} (h : p.checkReserved n = .ok o) :
    ∀ r ∈ o, r.base = p.userRegs ∧ r.base + r.count ≤ n := by
  by_cases h0 : p.reservedRegs = 0
  · simp [checkReserved, h0] at h
    simp [← h]
  · simp [checkReserved, h0] at h
    obtain ⟨_, hn, rfl⟩ := h
    simpa using hn

lemma Params.validate_valid {p : Params} {c : Config} (h : p.validate = .ok c) : c.Valid := by
  simp only [validate, Outcome.bind_eq_ok, Outcome.require_eq_ok, exists_const, Outcome.pure_eq] at h
  obtain ⟨⟨_, hu⟩, hw, ⟨hi, hi'⟩, ⟨hf, hf'⟩, hl, h⟩ := h
  cases hd : p.blockDim with
  | none | some _ =>
    simp only [hd, Outcome.bind_eq_ok, Outcome.require_eq_ok, exists_const, Except.ok.injEq] at h
    obtain ⟨_, _, _, ⟨_, hv⟩, _, hr, _, ho, rfl⟩ := h
    have hres := checkReserved_eq_ok ho
    rw [hw] at hres hr
    exact {
      gemv := ⟨hu, hw, hl, hf, hf', hi, hi', rfl, rfl⟩
      vv := ⟨hv, hi, hi'⟩
      fracWidth_le := hr
      reserved := hres }

lemma Params.validate_columns {p : Params} {c : Config} (h : p.validate = .ok c) :
    c.gemv.maxLevel = p.maxLevel ∧ c.maxCol = p.blockDim.map fun d => d.2 * 16 := by
  simp only [validate, Outcome.bind_eq_ok, Outcome.require_eq_ok, exists_const, Outcome.pure_eq] at h
  obtain ⟨-, -, -, -, -, h⟩ := h
  cases hd : p.blockDim with
  | none =>
    simp only [hd, Outcome.bind_eq_ok, Outcome.require_eq_ok, exists_const, Except.ok.injEq, exists_eq_left'] at h
    obtain ⟨-, -, -, -, _, -, rfl⟩ := h
    exact ⟨rfl, rfl⟩
  | some d =>
    simp only [hd, checkBlockDim, Outcome.bind_eq_ok, Outcome.map_eq_ok, Outcome.require_eq_ok, exists_const,
      Outcome.pure_eq, Except.ok.injEq] at h
    obtain ⟨_, ⟨_, ⟨-, -, -, rfl⟩, rfl⟩, -, -, -, -, _, -, rfl⟩ := h
    exact ⟨rfl, rfl⟩

end PimAsm
