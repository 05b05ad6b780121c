import Mathlib
import PimAsm.Gemv.Macro
import PimAsm.Proofs.Gemv.Operands
import PimAsm.Proofs.Plane

/-! Expansions of the GEMV macros in closed form. A load is a list of parts, each a selection and the rows written
under it; it fails exactly when the data reaches a block row or column without an identifier. -/

namespace PimAsm.Gemv

variable {p : Limits} {reg : ℕ}

lemma narrowByte_eq_ok {n w : ℕ} {b : BitVec 8} : narrowByte n w = .ok b ↔ n < 256 ∧ b = byte n := by
  simp [narrowByte, byte, eq_comm (b := b)]

lemma rowAddr_eq {bit : ℕ} (hp : p.Valid) (hr : reg < 64) (hb : bit < 16) :
    rowAddr p reg bit = .ok (BitVec.ofNat 16 (16 * reg + bit)) := by
  simp [rowAddr, hp.regAddr_eq (show reg ≤ 256 by omega) hb, show 16 * reg + bit < 65536 by omega]

lemma blockId_of_lt (hp : p.Valid) {what : Quantity} {i : ℕ} (h : i < 2 ^ p.idWidth) :
    blockId p what i = .ok (byte i) := by
  have hw := hp.idWidth_le
  have hi : i < 256 := h.trans_le hp.ids_le
  simp [blockId, narrowByte_eq_ok, Limits.checkId_eq_ok, h, hi]
  omega

lemma blockId_of_ge (hp : p.Valid) (what : Quantity) {i : ℕ} (h : 2 ^ p.idWidth ≤ i) :
    ∃ e, blockId p what i = Outcome.fail e := by
  have hw := hp.idWidth_le
  have hc : ¬ i < 1 <<< p.idWidth := by
    rw [Nat.shiftLeft_eq, one_mul]
    omega
  refine ⟨.range what i 0 (1 <<< p.idWidth - 1 : ℕ), ?_⟩
  simp only [blockId, Limits.checkId, Outcome.within, Outcome.require, hc, if_pos (show p.idWidth < 32 by omega)]
  rfl

structure Part where
  select : Op
  image : List Row

structure Part.Valid (t : Part) : Prop where
  select : ∃ fn r c, t.select = .select fn r c
  image : t.image.length ≤ 16

def writesOf (reg : ℕ) (image : List Row) : List Op :=
  (image.zipIdx.filter fun r => r.1 ≠ 0).map fun r => .write (BitVec.ofNat 16 (16 * reg + r.2)) r.1

def Part.ops (reg : ℕ) (t : Part) : List Op :=
  if (writesOf reg t.image).isEmpty then [] else t.select :: writesOf reg t.image

def partsOf (sel : ℕ → Op) (images : List (List Row)) : List Part := images.zipIdx.map fun t => ⟨sel t.2, t.1⟩

lemma writeNonzero_eq (hp : p.Valid) (hr : reg < 64) (select : Op) {image : List Row} (hi : image.length ≤ 16) :
    writeNonzero p reg select image = .ok (Part.ops reg ⟨select, image⟩) := by
  have hw : (image.zipIdx.filter fun r => r.1 ≠ 0).mapM (fun r => do return Op.write (← rowAddr p reg r.2) r.1) =
      .ok (writesOf reg image) := by
    refine Outcome.mapM_of_forall fun r hm => ?_
    have hl := List.snd_lt_of_mem_zipIdx (List.mem_of_mem_filter hm)
    simp [rowAddr_eq hp hr (show r.2 < 16 by omega)]
  simp only [writeNonzero]
  rw [hw]
  rfl

/-- A selection that succeeds on the good indices and reports the others. -/
structure Guarded (select : ℕ → Outcome Op) (good : ℕ → Prop) (sel : ℕ → Op) : Prop where
  ok : ∀ {i}, good i → select i = .ok (sel i)
  fail : ∀ {i}, ¬ good i → ∃ e, select i = Outcome.fail e

section

variable {select : ℕ → Outcome Op} {good : ℕ → Prop} {sel : ℕ → Op} {images : List (List Row)}

lemma loadBlocks_eq (hp : p.Valid) (hr : reg < 64) (hs : Guarded select good sel)
    (hi : ∀ image ∈ images, image.length ≤ 16) (hg : ∀ i < images.length, good i) :
    loadBlocks p reg select images = .ok ((partsOf sel images).flatMap (Part.ops reg)) := by
  have hm : images.zipIdx.mapM (fun t => do writeNonzero p reg (← select t.2) t.1) =
      .ok (images.zipIdx.map fun t => Part.ops reg ⟨sel t.2, t.1⟩) := by
    refine Outcome.mapM_of_forall fun t ht => ?_
    have hl := List.snd_lt_of_mem_zipIdx ht
    rw [hs.ok (hg t.2 (by omega)), Outcome.ok_bind, writeNonzero_eq hp hr _ (hi _ (List.fst_mem_of_mem_zipIdx ht))]
  simp only [loadBlocks]
  rw [hm]
  simp [partsOf, List.flatMap, Function.comp_def]

lemma loadBlocks_fail (hp : p.Valid) (hr : reg < 64) (hs : Guarded select good sel)
    (hi : ∀ image ∈ images, image.length ≤ 16) (hg : ∃ i < images.length, ¬ good i) :
    ∃ e, loadBlocks p reg select images = Outcome.fail e := by
  obtain ⟨e, he⟩ : ∃ e, images.zipIdx.mapM (fun t => do writeNonzero p reg (← select t.2) t.1) = Outcome.fail e := by
    apply Outcome.mapM_fail
    · intro t ht
      by_cases h : good t.2
      · rw [hs.ok h, Outcome.ok_bind, writeNonzero_eq hp hr _ (hi _ (List.fst_mem_of_mem_zipIdx ht))]
        exact Or.inl ⟨_, rfl⟩
      · obtain ⟨e, he⟩ := hs.fail h
        exact Or.inr ⟨e, by rw [he]; rfl⟩
    · obtain ⟨i, hl, hb⟩ := hg
      obtain ⟨e, he⟩ := hs.fail hb
      exact ⟨(images[i], i), List.mem_zipIdx_iff_getElem?.mpr (by simp [hl]), e, by rw [he]; rfl⟩
  refine ⟨e, ?_⟩
  simp only [loadBlocks]
  rw [he]
  rfl

end

namespace Macro

lemma expand_mult {pp m q : ℕ} (hp : p.Valid) (h1 : pp < 256) (h2 : m < 256) (h3 : q < 256) :
    (mult pp m q).expand p =
      .ok (.clrMbit :: (List.range 16).map fun bit => .updatePp (byte bit) (byte pp) (byte m) (byte q)) := by
  simp [expand, narrowByte_eq_ok, hp.regWidth, h1, h2, h3]

lemma expand_blockAccum {rd rs : ℕ} (hd : rd < 256) (hs : rs < 256) :
    (blockAccum rd rs).expand p = .ok (.accumBlk 1 (byte rd) (byte rs) ::
      (List.range' 2 (p.maxFold - 1)).map fun fold => .accumBlk (byte fold) (byte rd) (byte rd)) := by
  simp [expand, narrowByte_eq_ok, hd, hs]

def clearOps (reg : ℕ) : List Op :=
  selectAll :: (List.range 16).map fun bit => .write (BitVec.ofNat 16 (16 * reg + bit)) 0

lemma expand_clearReg (hp : p.Valid) (hr : reg < 64) : (clearReg reg).expand p = .ok (clearOps reg) := by
  have hw : (List.range 16).mapM (fun bit => do return Op.write (← rowAddr p reg bit) 0) =
      .ok ((List.range 16).map fun bit => .write (BitVec.ofNat 16 (16 * reg + bit)) 0) := by
    refine Outcome.mapM_of_forall fun bit hb => ?_
    rw [rowAddr_eq hp hr (List.mem_range.mp hb)]
    rfl
  simp only [expand, Outcome.collect_eq_mapM, hp.regWidth]
  rw [hw]
  rfl

def target? : Macro → Option ℕ
  | .loadMat reg _ | .loadVecRow reg _ | .loadVecCol reg _ => some reg
  | _ => none

/-- The data of a load has an element in block row or block column `i`. -/
def Reaches (i : ℕ) : Macro → Prop
  | .loadMat _ mat => ∃ r j, j < (mat.getD r []).length ∧ (i = r ∨ i = j / 16)
  | .loadVecRow _ v => ∃ j < v.length, i = j / 16
  | .loadVecCol _ v => i < v.length
  | _ => False

def rowImages (v : List ℤ) : List (List Row) := (Plane.chunks 16 v).map (Plane.rows 16)

def columnImages (v : List ℤ) : List (List Row) := v.map fun x => Plane.rows 16 (List.replicate 16 x)

def matrixParts (mat : List (List ℤ)) : List Part :=
  mat.zipIdx.flatMap fun row => partsOf (fun col => .select .block (byte row.2) (byte col)) (rowImages row.1)

def parts : Macro → List Part
  | .loadMat _ mat => matrixParts mat
  | .loadVecRow _ v => partsOf (fun col => .select .col 0 (byte col)) (rowImages v)
  | .loadVecCol _ v => partsOf (fun row => .select .row (byte row) 0) (columnImages v)
  | _ => []

lemma lt_length_rowImages {v : List ℤ} {c : ℕ} : c < (rowImages v).length ↔ ∃ j < v.length, c = j / 16 := by
  rw [rowImages, List.length_map, Plane.lt_length_chunks (by decide)]
  constructor
  · intro h
    exact ⟨c * 16, h, by omega⟩
  · rintro ⟨j, hj, rfl⟩
    omega

lemma length_of_mem_images {α : Type} {xs : List α} {f : α → List ℤ} {image : List Row}
    (h : image ∈ xs.map fun x => Plane.rows 16 (f x)) : image.length ≤ 16 := by
  obtain ⟨x, _, rfl⟩ := List.mem_map.mp h
  exact (Plane.length_rows 16 _).le

def rowSelect (p : Limits) (row : ℕ) : Outcome Op := do return .select .row (← blockId p .rowId row) 0

def colSelect (p : Limits) (col : ℕ) : Outcome Op := do return .select .col 0 (← blockId p .colId col)

def blockSelect (p : Limits) (row col : ℕ) : Outcome Op := do
  return .select .block (← blockId p .rowId row) (← blockId p .colId col)

lemma expand_loadVecRow_eq (hp : p.Valid) (v : List ℤ) :
    (loadVecRow reg v).expand p = loadBlocks p reg (colSelect p) (rowImages v) := by
  simp only [expand, hp.peCount, hp.regWidth,
    Plane.rowVector_eq (show 0 < 16 by decide) le_rfl (show 16 ≤ 32 by decide)]
  rfl

lemma expand_loadVecCol_eq (hp : p.Valid) (v : List ℤ) :
    (loadVecCol reg v).expand p = loadBlocks p reg (rowSelect p) (columnImages v) := by
  simp only [expand, hp.peCount, hp.regWidth, Plane.columnVector_eq le_rfl (show 16 ≤ 32 by decide)]
  rfl

lemma expand_loadMat_eq (hp : p.Valid) (mat : List (List ℤ)) :
    (loadMat reg mat).expand p = List.flatten <$>
      mat.zipIdx.mapM fun row => loadBlocks p reg (blockSelect p row.2) (rowImages row.1) := by
  simp only [expand, hp.peCount, hp.regWidth, Plane.matrix_eq (show 0 < 16 by decide) le_rfl (show 16 ≤ 32 by decide),
    Outcome.ok_bind, List.zipIdx_map, List.mapM_map]
  rfl

lemma rowSelect_guarded (hp : p.Valid) :
    Guarded (rowSelect p) (· < 2 ^ p.idWidth) fun row => .select .row (byte row) 0 where
  ok h := by simp [rowSelect, blockId_of_lt hp h]
  fail h := by
    obtain ⟨e, he⟩ := blockId_of_ge hp .rowId (not_lt.mp h)
    exact ⟨e, by rw [rowSelect, he]; rfl⟩

lemma colSelect_guarded (hp : p.Valid) :
    Guarded (colSelect p) (· < 2 ^ p.idWidth) fun col => .select .col 0 (byte col) where
  ok h := by simp [colSelect, blockId_of_lt hp h]
  fail h := by
    obtain ⟨e, he⟩ := blockId_of_ge hp .colId (not_lt.mp h)
    exact ⟨e, by rw [colSelect, he]; rfl⟩

lemma blockSelect_guarded (hp : p.Valid) (row : ℕ) :
    Guarded (blockSelect p row) (fun col => row < 2 ^ p.idWidth ∧ col < 2 ^ p.idWidth)
      fun col => .select .block (byte row) (byte col) where
  ok h := by simp [blockSelect, blockId_of_lt hp h.1, blockId_of_lt hp h.2]
  fail {col} h := by
    by_cases hr : row < 2 ^ p.idWidth
    · obtain ⟨e, he⟩ := blockId_of_ge hp .colId (show 2 ^ p.idWidth ≤ col by omega)
      exact ⟨e, by rw [blockSelect, blockId_of_lt hp hr, he]; rfl⟩
    · obtain ⟨e, he⟩ := blockId_of_ge hp .rowId (not_lt.mp hr)
      exact ⟨e, by rw [blockSelect, he]; rfl⟩

lemma getD_of_mem_zipIdx {mat : List (List ℤ)} {row : List ℤ × ℕ} (h : row ∈ mat.zipIdx) :
    mat.getD row.2 [] = row.1 := by
  simp [List.getD_eq_getElem?_getD, List.mem_zipIdx_iff_getElem?.mp h]

lemma expand_load {m : Macro} (hp : p.Valid) (hr : reg < 64) (ht : m.target? = some reg)
    (hi : ∀ i, m.Reaches i → i < 2 ^ p.idWidth) : m.expand p = .ok (m.parts.flatMap (Part.ops reg)) := by
  cases m with
  | loadVecRow reg v =>
    cases ht
    rw [expand_loadVecRow_eq hp]
    exact loadBlocks_eq hp hr (colSelect_guarded hp) (fun _ => length_of_mem_images)
      fun c hc => hi c (lt_length_rowImages.mp hc)
  | loadVecCol reg v =>
    cases ht
    rw [expand_loadVecCol_eq hp]
    exact loadBlocks_eq hp hr (rowSelect_guarded hp) (fun _ => length_of_mem_images)
      fun r hc => hi r (by simpa [columnImages, Reaches] using hc)
  | loadMat reg mat =>
    cases ht
    have hm : mat.zipIdx.mapM (fun row => loadBlocks p reg (blockSelect p row.2) (rowImages row.1)) =
        .ok (mat.zipIdx.map fun row =>
          (partsOf (fun col => .select .block (byte row.2) (byte col)) (rowImages row.1)).flatMap (Part.ops reg)) := by
      refine Outcome.mapM_of_forall fun row hm =>
        loadBlocks_eq hp hr (blockSelect_guarded hp row.2) (fun _ => length_of_mem_images) fun c hc => ?_
      obtain ⟨j, hj, rfl⟩ := lt_length_rowImages.mp hc
      rw [← getD_of_mem_zipIdx hm] at hj
      exact ⟨hi _ ⟨row.2, j, hj, Or.inl rfl⟩, hi _ ⟨row.2, j, hj, Or.inr rfl⟩⟩
    rw [expand_loadMat_eq hp, hm, Outcome.map_ok, parts, matrixParts, List.flatMap_assoc]
    rfl
  | _ => simp [target?] at ht

lemma expand_load_fail {m : Macro} (hp : p.Valid) (hr : reg < 64) (ht : m.target? = some reg) {i : ℕ}
    (hi : m.Reaches i) (hw : 2 ^ p.idWidth ≤ i) : ∃ e, m.expand p = Outcome.fail e := by
  cases m with
  | loadVecRow reg v =>
    cases ht
    rw [expand_loadVecRow_eq hp]
    exact loadBlocks_fail hp hr (colSelect_guarded hp) (fun _ => length_of_mem_images)
      ⟨i, lt_length_rowImages.mpr hi, not_lt.mpr hw⟩
  | loadVecCol reg v =>
    cases ht
    rw [expand_loadVecCol_eq hp]
    exact loadBlocks_fail hp hr (rowSelect_guarded hp) (fun _ => length_of_mem_images)
      ⟨i, by simpa [columnImages, Reaches] using hi, not_lt.mpr hw⟩
  | loadMat reg mat =>
    cases ht
    obtain ⟨r, j, hj, hrj⟩ := hi
    obtain ⟨e, he⟩ : ∃ e, mat.zipIdx.mapM (fun row => loadBlocks p reg (blockSelect p row.2) (rowImages row.1)) =
        Outcome.fail e := by
      apply Outcome.mapM_fail
      · intro row _
        by_cases hg : ∀ c < (rowImages row.1).length, row.2 < 2 ^ p.idWidth ∧ c < 2 ^ p.idWidth
        · exact Or.inl ⟨_, loadBlocks_eq hp hr (blockSelect_guarded hp row.2) (fun _ => length_of_mem_images) hg⟩
        · exact Or.inr (loadBlocks_fail hp hr (blockSelect_guarded hp row.2) (fun _ => length_of_mem_images)
            (by simpa only [not_forall, exists_prop] using hg))
      · have hl : r < mat.length := by
          by_contra hn
          simp [List.getD_eq_getElem?_getD, List.getElem?_eq_none (not_lt.mp hn)] at hj
        have hg : mat.getD r [] = mat[r] := by simp [List.getD_eq_getElem?_getD, hl]
        rw [hg] at hj
        refine ⟨(mat[r], r), List.mem_zipIdx_iff_getElem?.mpr (by simp [hl]), ?_⟩
        exact loadBlocks_fail hp hr (blockSelect_guarded hp r) (fun _ => length_of_mem_images)
          ⟨j / 16, lt_length_rowImages.mpr ⟨j, hj, rfl⟩, by omega⟩
    exact ⟨e, by rw [expand_loadMat_eq hp, he]; rfl⟩
  | _ => simp [target?] at ht

lemma expand_load_eq_ok {m : Macro} (hp : p.Valid) (hr : reg < 64) (ht : m.target? = some reg) {ops : List Op} :
    m.expand p = .ok ops ↔ (∀ i, m.Reaches i → i < 2 ^ p.idWidth) ∧ ops = m.parts.flatMap (Part.ops reg) := by
  constructor
  · intro h
    have hi : ∀ i, m.Reaches i → i < 2 ^ p.idWidth := by
      intro i hi
      by_contra hw
      obtain ⟨e, he⟩ := expand_load_fail hp hr ht hi (not_lt.mp hw)
      simp [h, Outcome.fail] at he
    rw [expand_load hp hr ht hi] at h
    exact ⟨hi, (Except.ok.inj h).symm⟩
  · rintro ⟨hi, rfl⟩
    exact expand_load hp hr ht hi

lemma mem_partsOf {sel : ℕ → Op} {images : List (List Row)} {t : Part} (h : t ∈ partsOf sel images) :
    ∃ i, t.select = sel i ∧ images[i]? = some t.image := by
  obtain ⟨x, hx, rfl⟩ := List.mem_map.mp h
  exact ⟨x.2, rfl, List.mem_zipIdx_iff_getElem?.mp hx⟩

lemma parts_valid {m : Macro} {t : Part} (h : t ∈ m.parts) : t.Valid := by
  cases m with
  | loadMat reg mat =>
    obtain ⟨row, _, hr⟩ := List.mem_flatMap.mp h
    obtain ⟨i, hs, hm⟩ := mem_partsOf hr
    exact ⟨⟨_, _, _, hs⟩, length_of_mem_images (List.mem_of_getElem? hm)⟩
  | loadVecRow reg v =>
    rw [parts] at h
    obtain ⟨i, hs, hm⟩ := mem_partsOf h
    exact ⟨⟨_, _, _, hs⟩, length_of_mem_images (List.mem_of_getElem? hm)⟩
  | loadVecCol reg v =>
    rw [parts] at h
    obtain ⟨i, hs, hm⟩ := mem_partsOf h
    exact ⟨⟨_, _, _, hs⟩, length_of_mem_images (List.mem_of_getElem? hm)⟩
  | _ => simp [parts] at h

lemma toNat_row (hr : reg < 64) {bit : ℕ} (hb : bit < 16) :
    (BitVec.ofNat 16 (16 * reg + bit)).toNat = 16 * reg + bit := by
  rw [BitVec.toNat_ofNat, Nat.mod_eq_of_lt (by omega)]

lemma write_row_within {n : ℕ} (hr : reg < 64) {bit : ℕ} (hb : bit < 16) (row : Row) :
    (Op.write (BitVec.ofNat 16 (16 * reg + bit)) row).Within p n := by
  rw [Op.Within, toNat_row hr hb]
  omega

lemma parts_within {n : ℕ} {m : Macro} (hr : reg < 64) : ∀ op ∈ m.parts.flatMap (Part.ops reg), op.Within p n := by
  intro op ho
  obtain ⟨t, ht, ho⟩ := List.mem_flatMap.mp ho
  obtain ⟨⟨fn, r, c, hs⟩, hi⟩ := parts_valid ht
  rw [Part.ops, hs] at ho
  split at ho
  · simp at ho
  · rcases List.mem_cons.mp ho with rfl | ho
    · trivial
    · obtain ⟨x, hx, rfl⟩ := List.mem_map.mp ho
      have hl := List.snd_lt_of_mem_zipIdx (List.mem_of_mem_filter hx)
      exact write_row_within hr (by omega) x.1

def regs : Macro → List ℕ
  | .mult pp m q => [pp, pp + 1, m, q]
  | .blockAccum rd rs => [rd, rs]
  | .sync => []
  | .clearReg reg | .loadMat reg _ | .loadVecRow reg _ | .loadVecCol reg _ => [reg]

lemma expand_within {n : ℕ} {m : Macro} (hp : p.Valid) (hn : n ≤ 64) (hr : ∀ r ∈ m.regs, r < n) {ops : List Op}
    (h : m.expand p = .ok ops) : ∀ op ∈ ops, op.Within p n := by
  cases m with
  | mult pp m q =>
    simp only [regs, List.mem_cons, List.not_mem_nil, or_false, forall_eq_or_imp, forall_eq] at hr
    obtain ⟨h0, h1, h2, h3⟩ := hr
    rw [expand_mult hp (by omega) (by omega) (by omega)] at h
    cases h
    simp only [List.mem_cons, List.mem_map, List.mem_range]
    rintro op (rfl | ⟨bit, hb, rfl⟩)
    · trivial
    · rw [Op.Within, toNat_byte (by omega), toNat_byte (by omega)]
      exact ⟨hb, h1, byte_lt hn h2, byte_lt hn h3⟩
  | blockAccum rd rs =>
    simp only [regs, List.mem_cons, List.not_mem_nil, or_false, forall_eq_or_imp, forall_eq] at hr
    obtain ⟨hd, hs⟩ := hr
    have hf := hp.maxFold_le
    rw [expand_blockAccum (by omega) (by omega)] at h
    cases h
    simp only [List.mem_cons, List.mem_map, List.mem_range'_1]
    rintro op (rfl | ⟨fold, hb, rfl⟩)
    · exact ⟨⟨by decide, hp.maxFold_pos⟩, byte_lt hn hd, byte_lt hn hs⟩
    · rw [Op.Within, toNat_byte (by omega)]
      exact ⟨by omega, byte_lt hn hd, byte_lt hn hd⟩
  | sync =>
    cases h
    simp [Op.Within]
  | clearReg reg =>
    have hr : reg < 64 := (hr reg (by simp [regs])).trans_le hn
    rw [expand_clearReg hp hr] at h
    cases h
    simp only [clearOps, List.mem_cons, List.mem_map, List.mem_range]
    rintro op (rfl | ⟨bit, hb, rfl⟩)
    · trivial
    · exact write_row_within hr hb 0
  | loadMat reg | loadVecRow reg | loadVecCol reg =>
    have hr : reg < 64 := (hr reg (by simp [regs])).trans_le hn
    obtain ⟨_, rfl⟩ := (expand_load_eq_ok hp hr rfl).mp h
    exact parts_within hr

end Macro

end PimAsm.Gemv
