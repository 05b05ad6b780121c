import Mathlib
import PimAsm.Program.Call
import PimAsm.Proofs.Gemv.Expansion
import PimAsm.Proofs.Listing
import PimAsm.Proofs.Mnemonic
import PimAsm.Proofs.OneLine
import PimAsm.Proofs.Word

/-! The records of a call. What each helper of a call returns is said once, by its inversion; what a call can append
under a valid configuration is then one relation, from which the properties of records follow by its cases. -/

namespace PimAsm

open Text

namespace Body

def instrs : Body → List Instr
  | .gemv op => [.gemv op]
  | .vv op => [.vv op]
  | .gemvMacro _ ops => ops.map .gemv
  | .vvMacro _ ops => ops.map .vv
  | .comment => []

@[simp] lemma instrs_gemvMacro (mac : Gemv.Macro) (ops : List Gemv.Op) :
    (Body.gemvMacro mac ops).instrs = ops.map .gemv := rfl

lemma encode_eq_mapM (b : Body) : b.encode = b.instrs.mapM Instr.encode := by
  cases b with
  | gemv op | vv op => simp [encode, instrs, Instr.encode]
  | gemvMacro mac ops | vvMacro mac ops =>
    rw [instrs, List.mapM_map]
    rfl
  | comment => rfl

end Body

lemma Gemv.Mnemonic.build_shown {p : Gemv.Limits} (hp : p.Valid) (m : Gemv.Mnemonic) {op : Gemv.Op}
    (h : m.build p = .ok op) : op.shown = op := by
  cases denotes_of_build hp h <;> rfl

namespace Call

variable {c : Config} {note comment : Option String} {call : Call} {rs : List Record} {r : Record} {α : Type}

section Inversion

variable {record : α → Option String → Record} {op : Outcome α} {body : List α → Body} {source : String}
  {expansion : Outcome (List α)} {check : Outcome Unit} {x load clear : Outcome Record}

lemma single_eq_ok : single record note op = .ok rs ↔ ∃ o, op = .ok o ∧ [record o note] = rs := by simp [single]

lemma macroRecord_eq_ok : macroRecord body source comment expansion = .ok r ↔
    ∃ ops, expansion = .ok ops ∧ ⟨body ops, source, comment, none⟩ = r := by
  simp [macroRecord]

lemma checked_eq_ok : checked check x = .ok rs ↔ check = .ok () ∧ ∃ r, x = .ok r ∧ [r] = rs := by
  simp [checked, Unique.exists_iff]

lemma clearedRecords_eq_ok : clearedRecords load clear = .ok rs ↔
    ∃ l, load = .ok l ∧ ∃ k, clear = .ok k ∧ [k, l] = rs := by
  simp [clearedRecords]

end Inversion

lemma loadMatRecords_eq_ok {reg : ℕ} {mat : List (List Double)} : loadMatRecords c note reg mat = .ok rs ↔
    reg < c.gemv.regCnt ∧ checkSize .rows mat.length c.maxRow = .ok () ∧ ∃ A, mat.mapM (toFixedRow c) = .ok A ∧
      gemvLoadRecords c note reg "MV_LOADMAT" (.loadMat reg A) = .ok rs := by
  simp [loadMatRecords, Gemv.Limits.checkReg_eq_ok, Unique.exists_iff]

lemma loadVecRowRecords_eq_ok {reg : ℕ} {v : List Double} : loadVecRowRecords c note reg v = .ok rs ↔
    reg < c.gemv.regCnt ∧ ∃ x, toFixedRow c v = .ok x ∧
      gemvLoadRecords c note reg "MV_LOADVEC_ROW" (.loadVecRow reg x) = .ok rs := by
  simp [loadVecRowRecords, Gemv.Limits.checkReg_eq_ok]

/-- A fold inside the blocks and an addition at every level below `levels`. -/
def treeRecords (ops : List Gemv.Op) (comment : String) (rd rs levels : ℕ) : List Record :=
  ⟨.gemvMacro (.blockAccum rd rs) ops, (Gemv.Macro.blockAccum rd rs).text, some comment, none⟩ ::
    (List.range levels).map fun level =>
      gemvRecord (.accumRow (Gemv.byte level) (Gemv.byte rd)) (some comment)

lemma accumRecords_eq_ok {comment : String} {rd src : ℕ} {levels : Outcome ℕ} :
    accumRecords c comment rd src levels = .ok rs ↔ ∃ ops n,
      (Gemv.Macro.blockAccum rd src).expand c.gemv = .ok ops ∧ levels = .ok n ∧
      (∀ level < n, level ≤ c.gemv.maxLevel ∧ rd < c.gemv.regCnt) ∧ treeRecords ops comment rd src n = rs := by
  have hrow (level : ℕ) (r : Record) : accumRowRecord c comment rd level = .ok r ↔
      (level ≤ c.gemv.maxLevel ∧ rd < c.gemv.regCnt) ∧
        gemvRecord (.accumRow (Gemv.byte level) (Gemv.byte rd)) (some comment) = r := by
    simp [accumRowRecord, Gemv.Limits.accumRow_eq_ok, and_assoc]
  simp only [accumRecords, Outcome.bind_eq_ok, gemvMacroRecord, macroRecord_eq_ok, Outcome.mapM_eq_ok_iff hrow,
    List.mem_range, Outcome.pure_eq, Except.ok.injEq, treeRecords]
  constructor
  · rintro ⟨_, ⟨ops, ho, rfl⟩, n, hn, _, ⟨hl, rfl⟩, rfl⟩
    exact ⟨ops, n, ho, hn, hl, rfl⟩
  · rintro ⟨ops, n, ho, hn, hl, rfl⟩
    exact ⟨_, ⟨ops, ho, rfl⟩, n, hn, _, ⟨hl, rfl⟩, rfl⟩

/-- What becomes of a note: it stands as it is or after some text of one line, or a text without it takes its place. -/
def Noted (note comment : Option String) : Prop :=
  ∀ t, comment = some t → OneLine t ∨ ∃ p u, OneLine p ∧ note = some u ∧ t = p ++ u

lemma noted_note (note : Option String) : Noted note note := fun t ht => Or.inr ⟨"", t, by decide, ht, by simp⟩

lemma noted_oneLine {p : String} (h : OneLine p) : Noted note (some p) := by
  intro t ht
  cases ht
  exact Or.inl h

lemma noted_origin {source : String} (h : OneLine source) : Noted note (some (origin source note)) := by
  have hp : OneLine ("From macro call: " ++ source) := by simpa +decide using h
  intro t ht
  obtain rfl : origin source note = t := Option.some.inj ht
  unfold origin
  cases note with
  | none => exact Or.inl (oneLine_append.mpr ⟨hp, by decide⟩)
  | some u =>
    refine Or.inr ⟨"From macro call: " ++ source ++ "; ", u, oneLine_append.mpr ⟨hp, by decide⟩, rfl, ?_⟩
    simp only [Option.elim_some, String.append_assoc]

/-- The product in the two registers after the user's, and the move that takes its middle from there. -/
def scaledRecords (c : Config) (ops : List Gemv.Op) (comment : Option String) (rd m q : ℕ) : List Record :=
  [⟨.gemvMacro (.mult c.gemv.regCnt m q) ops, (Gemv.Macro.mult c.gemv.regCnt m q).text, comment, none⟩,
    gemvRecord (.movOffset (Gemv.byte c.fracWidth) (Gemv.byte rd) (Gemv.byte c.gemv.regCnt)) comment]

lemma instrs_scaledRecords (c : Config) (ops : List Gemv.Op) (comment : Option String) (rd m q : ℕ) :
    (scaledRecords c ops comment rd m q).flatMap (·.body.instrs) =
      (ops ++ [Gemv.Op.movOffset (Gemv.byte c.fracWidth) (Gemv.byte rd) (Gemv.byte c.gemv.regCnt)]).map .gemv := by
  simp [scaledRecords, gemvRecord, Body.instrs]

lemma multFxpRecords_eq_ok (hc : c.Valid) (note : Option String) (rd m q : ℕ) :
    ∃ comment, Noted note comment ∧ ∀ rs, multFxpRecords c note rd m q = .ok rs ↔
      ((∃ res, c.reserved = some res ∧ 2 ≤ res.count) ∧
        (rd < c.gemv.regCnt ∧ m < c.gemv.regCnt ∧ q < c.gemv.regCnt) ∧ rd ≠ m ∧ rd ≠ q ∧ c.fracWidth ≤ 15) ∧
      ∃ ops, (Gemv.Macro.mult c.gemv.regCnt m q).expand c.gemv = .ok ops ∧
        scaledRecords c ops comment rd m q = rs := by
  have hn := hc.gemv.regCnt_le
  refine ⟨_, noted_origin (show OneLine ("MV_MULTFXP rd=" ++ Numeral.decimal rd ++ ", multiplicand=" ++
    Numeral.decimal m ++ ", multiplier=" ++ Numeral.decimal q) by simp +decide), fun rs => ?_⟩
  cases hr : c.reserved with
  | none => simp [multFxpRecords, hr]
  | some res =>
    simp only [multFxpRecords, hr, Option.getD_some, (hc.reserved res hr).1, Outcome.bind_eq_ok,
      Outcome.require_eq_ok, exists_const, Gemv.Limits.checkRegs_triple_eq_ok, Gemv.Limits.checkOffset_eq_ok,
      hc.gemv.regWidth, gemvMacroRecord, macroRecord_eq_ok, Gemv.narrowByte_eq_ok, Outcome.pure_eq, Except.ok.injEq]
    constructor
    · rintro ⟨h2, hregs, hm, hq, hf, _, ⟨ops, ho, rfl⟩, _, ⟨-, rfl⟩, _, ⟨-, rfl⟩, rfl⟩
      exact ⟨⟨⟨res, rfl, h2⟩, hregs, hm.symm, hq.symm, by omega⟩, ops, ho, rfl⟩
    · rintro ⟨⟨⟨_, ⟨⟩, h2⟩, hregs, hm, hq, hf⟩, ops, ho, rfl⟩
      exact ⟨h2, hregs, hm.symm, hq.symm, by omega, _, ⟨ops, ho, rfl⟩, _, ⟨by omega, rfl⟩, _, ⟨by omega, rfl⟩, rfl⟩

/-- The registers below which the instructions of a call stay: the user's, except that a fixed-point product also has
the two after them and a shifted move may run into the first of these. -/
def reach (p : Gemv.Limits) : Call → ℕ
  | .mvMultFxp .. => p.regCnt + 2
  | .mvMovOffset offset _ rs => p.moveReach offset rs
  | _ => p.regCnt

lemma reach_le {p : Gemv.Limits} (hp : p.Valid) (call : Call) : call.reach p ≤ 62 := by
  have hr := hp.regCnt_le
  cases call with
  | mvMultFxp => exact Nat.add_le_add_right hr 2
  | mvMovOffset offset rd rs => exact (p.moveReach_le offset rs).trans (by omega)
  | _ => exact hr.trans (by decide)

/-- What a call can append under a configuration and a note. -/
inductive Appends (c : Config) (note : Option String) (call : Call) : Record → Prop
  | gemv {op : Gemv.Op} {comment : Option String} (within : op.Within c.gemv (call.reach c.gemv))
    (shown : op.shown = op) (noted : Noted note comment) : Appends c note call (gemvRecord op comment)
  | vv {op : Vv.Op} (fits : op.Fits) : Appends c note call (vvRecord op note)
  | gemvMacro {mac : Gemv.Macro} {ops : List Gemv.Op} {comment : Option String}
    (expand : mac.expand c.gemv = .ok ops) (regs : ∀ r ∈ mac.regs, r < call.reach c.gemv)
    (noted : Noted note comment) : Appends c note call ⟨.gemvMacro mac ops, mac.text, comment, none⟩
  | vvMacro {mac : Vv.Macro} {ops : List Vv.Op} {comment : Option String} (fits : ∀ op ∈ ops, op.Fits)
    (noted : Noted note comment) : Appends c note call ⟨.vvMacro mac ops, mac.text, comment, none⟩
  | comment {text : String} (called : call = .comment text) :
    Appends c note call ⟨.comment, "AS_COMMENT", some text, none⟩

lemma gemv_appends (hc : c.Valid) (m : Gemv.Mnemonic) (hr : m.reach c.gemv = call.reach c.gemv)
    (h : single gemvRecord note (m.build c.gemv) = .ok rs) : ∀ r ∈ rs, call.Appends c note r := by
  obtain ⟨op, ho, rfl⟩ := single_eq_ok.mp h
  have hw := Gemv.Mnemonic.build_within hc.gemv ho
  exact List.forall_mem_singleton.mpr (.gemv (hr ▸ hw) (m.build_shown hc.gemv ho) (noted_note note))

lemma vv_appends (hc : c.Valid) (m : Vv.Mnemonic) (h : single vvRecord note (m.build c.vv) = .ok rs) :
    ∀ r ∈ rs, call.Appends c note r := by
  obtain ⟨op, ho, rfl⟩ := single_eq_ok.mp h
  exact List.forall_mem_singleton.mpr (.vv (Vv.Mnemonic.build_fits hc.vv ho))

lemma gemvMacroRecord_appends {mac : Gemv.Macro} (hr : ∀ r ∈ mac.regs, r < call.reach c.gemv)
    (hn : Noted note comment) (h : gemvMacroRecord c mac comment = .ok r) : call.Appends c note r := by
  obtain ⟨ops, ho, rfl⟩ := macroRecord_eq_ok.mp h
  exact .gemvMacro ho hr hn

lemma vvMacroRecord_appends {mac : Vv.Macro} (hr : ∀ r v, mac = .clearReg r ∨ mac = .loadVec r v → r < 256)
    (hn : Noted note comment) (h : vvMacroRecord c mac comment = .ok r) : call.Appends c note r := by
  obtain ⟨ops, ho, rfl⟩ := macroRecord_eq_ok.mp h
  exact .vvMacro (Vv.Macro.expand_fits ho hr) hn

lemma checked_appends {check : Outcome Unit} {x : Outcome Record}
    (ha : check = .ok () → ∀ r, x = .ok r → call.Appends c note r) (h : checked check x = .ok rs) :
    ∀ r ∈ rs, call.Appends c note r := by
  obtain ⟨hk, r, hr, rfl⟩ := checked_eq_ok.mp h
  exact List.forall_mem_singleton.mpr (ha hk r hr)

lemma clearedRecords_appends {load clear : Outcome Record} (hl : ∀ r, load = .ok r → call.Appends c note r)
    (hk : ∀ r, clear = .ok r → call.Appends c note r) (h : clearedRecords load clear = .ok rs) :
    ∀ r ∈ rs, call.Appends c note r := by
  obtain ⟨l, hload, k, hclear, rfl⟩ := clearedRecords_eq_ok.mp h
  exact List.forall_mem_cons.mpr ⟨hk k hclear, List.forall_mem_singleton.mpr (hl l hload)⟩

lemma gemvLoadRecords_appends {reg : ℕ} (hr : reg < call.reach c.gemv) {name : String} (hn : OneLine name)
    {load : Gemv.Macro} (hl : load.regs = [reg]) (h : gemvLoadRecords c note reg name load = .ok rs) :
    ∀ r ∈ rs, call.Appends c note r := by
  have hd : Noted note (some ("dependency of " ++ name)) := noted_oneLine (by simpa +decide using hn)
  exact clearedRecords_appends (fun r => gemvMacroRecord_appends (by simpa [hl] using hr) (noted_note note))
    (fun r => gemvMacroRecord_appends (by simpa [Gemv.Macro.regs] using hr) hd) h

lemma vvLoadVecRecords_appends (hc : c.Valid) {reg : ℕ} {v : List Double}
    (h : vvLoadVecRecords c note reg v = .ok rs) : ∀ r ∈ rs, call.Appends c note r := by
  simp only [vvLoadVecRecords, Vv.Limits.checkReg, Outcome.bind_eq_ok, Outcome.require_eq_ok, exists_const] at h
  obtain ⟨hreg, _, _, _, _, h⟩ := h
  have hr : reg < 256 := hreg.trans_le hc.vv.regCnt_le
  exact clearedRecords_appends (fun r => vvMacroRecord_appends (by simpa using hr) (noted_note note))
    (fun r => vvMacroRecord_appends (by simpa using hr) (noted_oneLine (by decide))) h

lemma accumRecords_appends (hc : c.Valid) (hcall : call.reach c.gemv = c.gemv.regCnt) {comment : String}
    (hn : Noted note (some comment)) {rd src : ℕ} {levels : Outcome ℕ}
    (hregs : rd < c.gemv.regCnt ∧ src < c.gemv.regCnt) (h : accumRecords c comment rd src levels = .ok rs) :
    ∀ r ∈ rs, call.Appends c note r := by
  obtain ⟨ops, n, ho, -, hl, rfl⟩ := accumRecords_eq_ok.mp h
  refine List.forall_mem_cons.mpr ⟨.gemvMacro ho (by simpa [Gemv.Macro.regs, hcall] using hregs) hn, ?_⟩
  intro r hr
  obtain ⟨level, hm, rfl⟩ := List.mem_map.mp hr
  have hrow := Gemv.Limits.accumRow_eq_ok.mpr ⟨hl level (List.mem_range.mp hm), rfl⟩
  have hw := Gemv.Mnemonic.build_within hc.gemv (m := .accumRow level rd) hrow
  exact .gemv (hcall ▸ hw) rfl hn

lemma multFxpRecords_appends (hc : c.Valid) {rd m q : ℕ} (h : (mvMultFxp rd m q).records c note = .ok rs) :
    ∀ r ∈ rs, (mvMultFxp rd m q).Appends c note r := by
  obtain ⟨comment, hn, he⟩ := multFxpRecords_eq_ok hc note rd m q
  obtain ⟨⟨-, ⟨hd, hm, hq⟩, -, -, hf⟩, ops, ho, rfl⟩ := (he rs).mp h
  have hr := hc.gemv.regCnt_le
  have hmove : (Gemv.Op.movOffset (Gemv.byte c.fracWidth) (Gemv.byte rd) (Gemv.byte c.gemv.regCnt)).Within c.gemv
      (c.gemv.regCnt + 2) := by
    rw [Gemv.Op.Within, Gemv.toNat_byte (by omega), Gemv.toNat_byte (by omega), Gemv.toNat_byte (by omega)]
    omega
  refine List.forall_mem_cons.mpr ⟨.gemvMacro ho ?_ hn, List.forall_mem_singleton.mpr (.gemv hmove rfl hn)⟩
  simp [Gemv.Macro.regs, reach]
  omega

lemma records_appends (hc : c.Valid) (h : call.records c note = .ok rs) : ∀ r ∈ rs, call.Appends c note r := by
  have hnote := noted_note note
  cases call with
  | mvNop | mvSelectAll =>
    cases h
    exact List.forall_mem_singleton.mpr (.gemv trivial rfl hnote)
  | mvWrite addr data => exact gemv_appends hc (.write addr data) rfl h
  | mvAdd rd rs1 rs2 => exact gemv_appends hc (.add rd rs1 rs2) rfl h
  | mvSub rd rs1 rs2 => exact gemv_appends hc (.sub rd rs1 rs2) rfl h
  | mvUpdatePp pp m q bit => exact gemv_appends hc (.updatePp pp m q bit) rfl h
  | mvBlockFold fold rd rs => exact gemv_appends hc (.accumBlk fold rd rs) rfl h
  | mvAccumRow level reg => exact gemv_appends hc (.accumRow level reg) rfl h
  | mvSelectBlock row col => exact gemv_appends hc (.selectBlock row col) rfl h
  | mvSelectRow row => exact gemv_appends hc (.selectRow row) rfl h
  | mvSelectCol col => exact gemv_appends hc (.selectCol col) rfl h
  | mvMov rd rs => exact gemv_appends hc (.mov rd rs) rfl h
  | mvMovOffset offset rd rs => exact gemv_appends hc (.movOffset offset rd rs) rfl h
  | vvNop | vvShiftOff | vvSerialEn | vvParallelEn | vvSelectAll =>
    cases h
    exact List.forall_mem_singleton.mpr (.vv trivial)
  | vvWrite addr data => exact vv_appends hc (.write addr data) h
  | vvMov rd rs => exact vv_appends hc (.mov rd rs) h
  | vvAdd opl opr => exact vv_appends hc (.arith .add opl opr) h
  | vvSub opl opr => exact vv_appends hc (.arith .sub opl opr) h
  | vvMult opl opr => exact vv_appends hc (.arith .mult opl opr) h
  | vvActivation code => exact vv_appends hc (.activation code) h
  | vvSelectBlk id => exact vv_appends hc (.selectBlk id) h
  | mvMult rd m q =>
    refine checked_appends (fun hk r => gemvMacroRecord_appends ?_ hnote) h
    obtain ⟨h1, h2, h3, _⟩ := Gemv.Limits.checkProduct_eq_ok.mp hk
    simp [Gemv.Macro.regs, reach, h1, h2, h3, show rd < c.gemv.regCnt by omega]
  | mvMultFxp => exact multFxpRecords_appends hc h
  | mvBlockAccum rd src =>
    refine checked_appends (fun hk r => gemvMacroRecord_appends ?_ hnote) h
    simpa [Gemv.Macro.regs, reach] using Gemv.Limits.checkRegs_pair_eq_ok.mp hk
  | mvRangeAccum =>
    simp only [records, rangeAccumRecords, Outcome.bind_eq_ok, Gemv.Limits.checkRegs_pair_eq_ok] at h
    obtain ⟨_, _, _, _, _, hregs, h⟩ := h
    exact accumRecords_appends hc rfl (noted_origin (by simp +decide)) hregs h
  | mvAllAccum =>
    simp only [records, allAccumRecords, Outcome.bind_eq_ok, Gemv.Limits.checkRegs_pair_eq_ok] at h
    obtain ⟨_, hregs, h⟩ := h
    exact accumRecords_appends hc rfl (noted_origin (by simp +decide)) hregs h
  | mvSync => exact checked_appends (fun _ r => gemvMacroRecord_appends (by simp [Gemv.Macro.regs]) hnote) h
  | mvClearReg reg =>
    refine checked_appends (fun hk r => gemvMacroRecord_appends ?_ hnote) h
    simpa [Gemv.Macro.regs, reach] using Gemv.Limits.checkReg_eq_ok.mp hk
  | mvLoadMat =>
    obtain ⟨hr, -, _, -, h⟩ := loadMatRecords_eq_ok.mp h
    exact gemvLoadRecords_appends hr (by decide) rfl h
  | mvLoadVecRow =>
    obtain ⟨hr, _, -, h⟩ := loadVecRowRecords_eq_ok.mp h
    exact gemvLoadRecords_appends hr (by decide) rfl h
  | mvLoadVecCol =>
    simp only [records, loadVecColRecords, Outcome.bind_eq_ok, Gemv.Limits.checkReg_eq_ok] at h
    obtain ⟨_, hr, _, _, _, _, h⟩ := h
    exact gemvLoadRecords_appends hr (by decide) rfl h
  | vvSync => exact checked_appends (fun _ r => vvMacroRecord_appends (by simp) hnote) h
  | vvClearReg reg =>
    refine checked_appends (fun hk r => vvMacroRecord_appends ?_ hnote) h
    have hr := hc.vv.regCnt_le
    simp [Vv.Limits.checkReg] at hk
    simp
    omega
  | vvLoadVec => exact vvLoadVecRecords_appends hc h
  | comment text =>
    cases h
    exact List.forall_mem_singleton.mpr (.comment rfl)

end Call

/-- The instructions of the array stay below register `n` and keep the limits `p`; those of the vector engine fit
their fields. -/
def Instr.Within (p : Gemv.Limits) (n : ℕ) : Instr → Prop
  | .gemv op => op.Within p n
  | .vv op => op.Fits

lemma Instr.Within.fits {p : Gemv.Limits} {n : ℕ} {i : Instr} (hp : p.Valid) (h : i.Within p n) (hn : n ≤ 64) :
    i.Fits := by
  cases i with
  | gemv op => exact Gemv.Op.Within.fits hp h hn
  | vv op => exact h

structure Record.Issued (p : Gemv.Limits) (n : ℕ) (r : Record) : Prop where
  fresh : r.code = none
  within : ∀ i ∈ r.body.instrs, i.Within p n
  source : OneLine r.source

lemma Call.Appends.issued {c : Config} {note : Option String} {call : Call} {r : Record} (hc : c.Valid)
    (h : call.Appends c note r) : r.Issued c.gemv (call.reach c.gemv) := by
  cases h with
  | gemv within => exact ⟨rfl, List.forall_mem_singleton.mpr within, Instr.text_oneLine _⟩
  | vv fits => exact ⟨rfl, List.forall_mem_singleton.mpr fits, Instr.text_oneLine _⟩
  | gemvMacro expand regs =>
    have hn := (call.reach_le hc.gemv).trans (by decide : 62 ≤ 64)
    exact ⟨rfl, List.forall_mem_map.mpr (Gemv.Macro.expand_within hc.gemv hn regs expand), Gemv.Macro.text_oneLine _⟩
  | vvMacro fits => exact ⟨rfl, List.forall_mem_map.mpr fits, Vv.Macro.text_oneLine _⟩
  | comment => exact ⟨rfl, List.forall_mem_nil _, (by decide : OneLine "AS_COMMENT")⟩

end PimAsm
