import Mathlib
import PimAsm.Proofs.Gemv.Accumulation
import PimAsm.Proofs.Gemv.Load
import PimAsm.Proofs.Gemv.Product
import PimAsm.Proofs.Program.Execution

/-! The product of a matrix and a vector: two loads, a product and a fold leave in the first element of every block
the sum of the products of its part of the data. -/

namespace PimAsm

namespace Gemv.Block

variable {p : Limits} {b : Block} {ra rx rp rd : ℕ}

lemma ofInt_sum_mul (f g : ℕ → ℤ) :
    ∑ i ∈ Finset.range 16, BitVec.ofInt 16 ((BitVec.ofInt 16 (f i)).toInt * (BitVec.ofInt 16 (g i)).toInt) =
      BitVec.ofInt 16 (∑ i ∈ Finset.range 16, f i * g i) := by
  have hs : BitVec.ofInt 16 (∑ i ∈ Finset.range 16, f i * g i) =
      ∑ i ∈ Finset.range 16, BitVec.ofInt 16 (f i * g i) :=
    Int.cast_sum (R := BitVec 16) _ _
  rw [hs]
  refine Finset.sum_congr rfl fun i _ => ?_
  rw [BitVec.ofInt_mul, BitVec.ofInt_toInt, BitVec.ofInt_toInt, ← BitVec.ofInt_mul]

lemma run_kernel (hp : p.Valid) (hf : p.maxFold = 4) (h : b.Sound p) (hne : ra ≠ rx) (hra : ra < 64) (hrx : rx < 64)
    (hrp : rp < 64) (hrd : rd < 64) {A : List (List ℤ)} {x : List ℤ} {clearA loadA clearX loadX mult accum : List Op}
    {u : Unit} (hcA : (Macro.clearReg ra).expand p = .ok clearA) (hlA : (Macro.loadMat ra A).expand p = .ok loadA)
    (hcX : (Macro.clearReg rx).expand p = .ok clearX) (hlX : (Macro.loadVecRow rx x).expand p = .ok loadX)
    (hk : p.checkProduct rp ra rx = .ok u) (hm : (Macro.mult rp ra rx).expand p = .ok mult)
    (ha : (Macro.blockAccum rd rp).expand p = .ok accum) :
    ∃ b' : Block, run ((clearA ++ loadA) ++ (clearX ++ loadX) ++ mult ++ accum) b = b'.done ∧ b'.Sound p ∧
      b'.value rd 0 = BitVec.ofInt 16 (∑ j ∈ Finset.range 16,
        (A.getD b.rowId.toNat []).getD (16 * b.colId.toNat + j) 0 * x.getD (16 * b.colId.toNat + j) 0) := by
  obtain ⟨s1, h1⟩ := run_load hp h hra rfl hcA hlA
  set b1 := (b.store ra fun pe =>
    BitVec.ofInt 16 ((Macro.loadMat ra A).loaded b.rowId.toNat b.colId.toNat pe)).select s1
  have hb1 : b1.Sound p := (h.store _ _).select _
  obtain ⟨s2, h2⟩ := run_load hp hb1 hrx rfl hcX hlX
  set b2 := (b1.store rx fun pe =>
    BitVec.ofInt 16 ((Macro.loadVecRow rx x).loaded b1.rowId.toNat b1.colId.toNat pe)).select s2
  have hb2 : b2.Sound p := (hb1.store _ _).select _
  obtain ⟨b3, h3, hprod⟩ := run_mult hp hb2 hk hm
  obtain ⟨b4, h4, hsum⟩ := run_blockAccum hp hprod.sound hrd hrp hf.le ha
  refine ⟨b4, ?_, hsum.sound, ?_⟩
  · rw [run_append, run_append, run_append, h1, andThen_done, h2, andThen_done, h3, andThen_done, h4]
  · have hva : ∀ pe < 16,
        b2.value ra pe = BitVec.ofInt 16 ((A.getD b.rowId.toNat []).getD (16 * b.colId.toNat + pe) 0) :=
      -- the load of the vector writes another register
      fun pe hpe => (value_store_of_ne hne _).trans (value_store h hra hpe _)
    have hvx : ∀ pe < 16, b2.value rx pe = BitVec.ofInt 16 (x.getD (16 * b.colId.toNat + pe) 0) :=
      fun pe hpe => value_store hb1 hrx hpe _
    rw [hf] at hsum
    rw [hsum.sums 0 (by decide), ← ofInt_sum_mul]
    refine Finset.sum_congr rfl fun i hi => ?_
    have hi16 : i < 16 := Finset.mem_range.mp hi
    rw [zero_add, show i * (16 / 2 ^ 4) = i by omega, hprod.value_product hi16, hva i hi16, hvx i hi16]

end Gemv.Block

lemma Call.gemvLoadRecords_instrs {c : Config} {note : Option String} {rs : List Record} {reg : ℕ} {name : String}
    {load : Gemv.Macro} (h : gemvLoadRecords c note reg name load = .ok rs) :
    ∃ clear ops, (Gemv.Macro.clearReg reg).expand c.gemv = .ok clear ∧ load.expand c.gemv = .ok ops ∧
      rs.flatMap (·.body.instrs) = (clear ++ ops).map .gemv := by
  obtain ⟨_, hl, _, hk, rfl⟩ := clearedRecords_eq_ok.mp h
  obtain ⟨ops, ho, rfl⟩ := macroRecord_eq_ok.mp hl
  obtain ⟨clear, hc, rfl⟩ := macroRecord_eq_ok.mp hk
  exact ⟨clear, ops, hc, ho, by simp⟩

open Gemv

theorem kernel_correct {q : Params} {c : Config} (hc : q.validate = .ok c) (hf : c.gemv.maxFold = 4)
    {mat : List (List Double)} {vec : List Double} {ra rx rp rd : ℕ} (hne : ra ≠ rx) {n1 n2 n3 n4 : Option String}
    {s : Session} {n : ℕ}
    (hs : (Session.new c).run [⟨.mvLoadMat ra mat, n1⟩, ⟨.mvLoadVecRow rx vec, n2⟩, ⟨.mvMult rp ra rx, n3⟩,
      ⟨.mvBlockAccum rd rp, n4⟩] = (s, .ok n)) :
    ∃ A x ws, mat.mapM (Call.toFixedRow c) = .ok A ∧ Call.toFixedRow c vec = .ok x ∧ s.words.2 = .ok ws ∧
      ∀ b : Block, b.Sound c.gemv → ∃ b' rest, Block.runWords ws b = (b', .ok ()) ∧
        b'.reg rd = .ok (BitVec.ofInt 16 (∑ j ∈ Finset.range 16,
          (A.getD b.rowId.toNat []).getD (16 * b.colId.toNat + j) 0 * x.getD (16 * b.colId.toNat + j) 0) :: rest) := by
  have hv := Params.validate_valid hc
  have hp := hv.gemv
  have hsound : s.Sound := by
    have := (Session.Sound.new hv).run [⟨.mvLoadMat ra mat, n1⟩, ⟨.mvLoadVecRow rx vec, n2⟩, ⟨.mvMult rp ra rx, n3⟩,
      ⟨.mvBlockAccum rd rp, n4⟩]
    rwa [hs] at this
  obtain ⟨rss, hrss, hrecs⟩ := Session.run_eq_ok hs
  simp only [List.forall₂_cons_left_iff, List.forall₂_nil_left_iff] at hrss
  obtain ⟨rs1, _, ⟨_, h1⟩, ⟨rs2, _, ⟨_, h2⟩, ⟨rs3, _, ⟨_, h3⟩, ⟨rs4, _, ⟨_, h4⟩, rfl, rfl⟩, rfl⟩, rfl⟩, rfl⟩ := hrss
  obtain ⟨hra, -, A, hA, hloadA⟩ := Call.loadMatRecords_eq_ok.mp h1
  obtain ⟨clearA, loadA, hcA, hlA, hi1⟩ := Call.gemvLoadRecords_instrs hloadA
  obtain ⟨hrx, x, hx, hloadX⟩ := Call.loadVecRowRecords_eq_ok.mp h2
  obtain ⟨clearX, loadX, hcX, hlX, hi2⟩ := Call.gemvLoadRecords_instrs hloadX
  obtain ⟨hk, _, hmult, rfl⟩ := Call.checked_eq_ok.mp h3
  obtain ⟨mult, hm, rfl⟩ := Call.macroRecord_eq_ok.mp hmult
  obtain ⟨hregs, _, haccum, rfl⟩ := Call.checked_eq_ok.mp h4
  obtain ⟨accum, ha, rfl⟩ := Call.macroRecord_eq_ok.mp haccum
  obtain ⟨hrd, hrp⟩ := Limits.checkRegs_pair_eq_ok.mp hregs
  have hops : Instr.gemvOps (s.records.flatMap (·.body.instrs)) =
      (clearA ++ loadA) ++ (clearX ++ loadX) ++ mult ++ accum := by
    rw [hrecs]
    simp [Session.new, hi1, hi2]
  refine ⟨A, x, _, hA, hx, by rw [hsound.words_eq], fun b hb => ?_⟩
  obtain ⟨b', hrun, hb', hval⟩ := Block.run_kernel hp hf hb hne (hp.reg_lt hra) (hp.reg_lt hrx)
    (hp.reg_lt hrp) (hp.reg_lt hrd) hcA hlA hcX hlX hk hm ha
  refine ⟨b', (List.range' 1 15).map (b'.value rd), ?_, ?_⟩
  · rw [Block.runWords_word hsound.fits, hops, hrun, Block.done]
  · rw [Block.reg_eq hp hb' (hp.reg_lt hrd), ← hval]
    rfl

def smallKernel : List Step :=
  [⟨.mvLoadMat 2 [[.finite false ⟨2, 0⟩, .finite true ⟨3, 0⟩]], none⟩,
    ⟨.mvLoadVecRow 3 [.finite false ⟨5, 0⟩, .finite false ⟨7, 0⟩], none⟩, ⟨.mvMult 4 2 3, none⟩, ⟨.mvBlockAccum 6 4, none⟩]

theorem kernel_correct_small :
    ∃ s ws b' rest, ({} : Params).validate = .ok {} ∧ (Session.new {}).run smallKernel = (s, .ok 6) ∧ s.words.2 = .ok ws ∧
      Block.runWords ws (.new {} 0 0) = (b', .ok ()) ∧ b'.reg 6 = .ok (-11 :: rest) := by
  have hs : (Session.new {}).run smallKernel = (((Session.new {}).run smallKernel).1, .ok 6) := Prod.ext rfl (by decide)
  obtain ⟨A, x, ws, hA, hx, hw, hrun⟩ := kernel_correct (q := {}) rfl rfl (by decide) hs
  cases hA
  cases hx
  obtain ⟨b', rest, hb, hr⟩ := hrun (.new {} 0 0) (Block.new_sound Config.default_valid.gemv 0 0)
  exact ⟨_, ws, b', rest, rfl, hs, hw, hb, hr.trans (congrArg (fun v => Except.ok (v :: rest)) (by decide))⟩

end PimAsm
