import Mathlib
import PimAsm.Proofs.Config
import PimAsm.Proofs.Gemv.Expansion
import PimAsm.Proofs.Gemv.Memory

/-! A load after a clear leaves in every block its part of the data, and nothing else changes. -/

namespace PimAsm.Gemv

namespace Macro

/-- The value that the data of a load has for element `pe` of the block at row `r` and column `c`. -/
def loaded : Macro → (r c pe : ℕ) → ℤ
  | .loadMat _ mat, r, c, pe => (mat.getD r []).getD (16 * c + pe) 0
  | .loadVecRow _ v, _, c, pe => v.getD (16 * c + pe) 0
  | .loadVecCol _ v, r, _, _ => v.getD r 0
  | _, _, _, _ => 0

def loadedRow (m : Macro) (r c bit : ℕ) : Row := Plane.ofBits 16 fun pe => Plane.bitOf (m.loaded r c pe) bit

lemma getD_rowImages {v : List ℤ} {i bit : ℕ} {image : List Row} (h : (rowImages v)[i]? = some image) (hb : bit < 16) :
    image.getD bit 0 = Plane.ofBits 16 fun pe => Plane.bitOf (v.getD (16 * i + pe) 0) bit := by
  obtain ⟨hi, rfl⟩ := List.getElem?_eq_some_iff.mp h
  simp only [rowImages, List.getElem_map, Plane.getElem_chunks, Plane.getD_rows _ hb]
  apply BitVec.eq_of_getLsbD_eq
  intro pe hp
  rw [Plane.getLsbD_ofBits, Plane.getLsbD_ofBits, Plane.getD_chunk hp, mul_comm]

lemma getD_columnImages {v : List ℤ} {i bit : ℕ} {image : List Row} (h : (columnImages v)[i]? = some image)
    (hb : bit < 16) : image.getD bit 0 = Plane.ofBits 16 fun _ => Plane.bitOf (v.getD i 0) bit := by
  obtain ⟨hi, rfl⟩ := List.getElem?_eq_some_iff.mp h
  have hv : i < v.length := by simpa [columnImages] using hi
  simp only [columnImages, List.getElem_map, Plane.getD_rows _ hb]
  apply BitVec.eq_of_getLsbD_eq
  intro pe hp
  have hg : (List.replicate 16 v[i]).getD pe 0 = v[i] := by
    rw [List.getD_eq_getElem?_getD, List.getElem?_replicate_of_lt hp, Option.getD_some]
  rw [Plane.getLsbD_ofBits, Plane.getLsbD_ofBits, hg, List.getD_eq_getElem _ _ hv]

end Macro

def cells (reg : ℕ) (image : List Row) : List (ℕ × Row) :=
  (image.zipIdx.filter fun r => r.1 ≠ 0).map fun r => (16 * reg + r.2, r.1)

def writeOp (w : ℕ × Row) : Op := .write (BitVec.ofNat 16 w.1) w.2

lemma writesOf_eq (reg : ℕ) (image : List Row) : writesOf reg image = (cells reg image).map writeOp := by
  simp [writesOf, cells, writeOp]

lemma mem_cells {reg : ℕ} {image : List Row} {w : ℕ × Row} :
    w ∈ cells reg image ↔ ∃ bit, w.1 = 16 * reg + bit ∧ w.2 = image.getD bit 0 ∧ w.2 ≠ 0 := by
  obtain ⟨addr, data⟩ := w
  simp only [cells, List.mem_map, List.mem_filter, decide_eq_true_eq, Prod.mk.injEq, Prod.exists,
    List.mem_zipIdx_iff_getElem?]
  constructor
  · rintro ⟨row, bit, ⟨hr, hn⟩, rfl, rfl⟩
    exact ⟨bit, rfl, by simp [List.getD_eq_getElem?_getD, hr], hn⟩
  · rintro ⟨bit, rfl, hd, hn⟩
    refine ⟨data, bit, ⟨?_, hn⟩, rfl, rfl⟩
    rw [List.getD_eq_getElem?_getD] at hd
    cases hg : image[bit]? with
    | none => simp [hg] at hd; exact absurd hd hn
    | some row => simpa [hg] using hd.symm

lemma of_mem_cells {reg : ℕ} {image : List Row} (hi : image.length ≤ 16) {w : ℕ × Row} (hw : w ∈ cells reg image) :
    w.1 / 16 = reg ∧ w.2 = image.getD (w.1 % 16) 0 := by
  obtain ⟨bit, ha, hd, hn⟩ := mem_cells.mp hw
  have hb : bit < image.length := by
    by_contra hb
    rw [hd, List.getD_eq_default _ _ (not_lt.mp hb)] at hn
    exact hn rfl
  have hm : w.1 % 16 = bit := by omega
  exact ⟨by omega, by rw [hm, hd]⟩

namespace Block

variable {p : Limits} {b : Block} {reg : ℕ}

/-- The row at an address after writes in order. -/
def written (ws : List (ℕ × Row)) (addr : ℕ) (row : Row) : Row :=
  ws.foldl (fun row w => if addr = w.1 then w.2 else row) row

-- where all writes to an address agree, neither their order nor their number matters
lemma written_of_agree {ws : List (ℕ × Row)} {addr : ℕ} {d : Row} (h : ∀ w ∈ ws, addr = w.1 → w.2 = d)
    (row : Row) : written ws addr row = if ∃ w ∈ ws, addr = w.1 then d else row := by
  induction ws generalizing row with
  | nil => simp [written]
  | cons w ws ih =>
    have ht := ih (fun w hw => h w (by simp [hw])) (if addr = w.1 then w.2 else row)
    rw [written, List.foldl_cons, ← written, ht]
    by_cases hw : addr = w.1
    · simp [← hw, h w (by simp) hw]
    · simp [hw]

lemma written_append (ws us : List (ℕ × Row)) (addr : ℕ) (row : Row) :
    written (ws ++ us) addr row = written us addr (written ws addr row) := by
  simp [written]

lemma run_writes {ws : List (ℕ × Row)} (h : b.Sound p) (hs : b.selected = true) (hw : ∀ w ∈ ws, w.1 < 1024) :
    run (ws.map writeOp) b = (b.update (written ws)).done := by
  induction ws generalizing b with
  | nil => rw [update_eq_self h fun _ _ => rfl]; rfl
  | cons w ws ih =>
    have ha : (BitVec.ofNat 16 w.1).toNat = w.1 := by
      have hl := hw w (by simp)
      rw [BitVec.toNat_ofNat, Nat.mod_eq_of_lt (by omega)]
    rw [List.map_cons, run, writeOp, exec, if_pos hs, ha, writeRow_eq h (hw w (by simp)), andThen_done,
      ih (h.update _) hs fun w hm => hw w (by simp [hm]), update_update]
    rfl

lemma run_writes_unselected (ws : List (ℕ × Row)) (hs : b.selected = false) : run (ws.map writeOp) b = b.done := by
  induction ws with
  | nil => rfl
  | cons w ws ih => rw [List.map_cons, run, writeOp, exec, hs, if_neg Bool.false_ne_true, andThen_done, ih]

def hits (b : Block) : Op → Bool
  | .select fn rowId colId => b.selects fn rowId colId
  | _ => false

def received (b : Block) (reg : ℕ) (t : Part) : List (ℕ × Row) := if b.hits t.select then cells reg t.image else []

lemma run_part {t : Part} (h : b.Sound p) (hr : reg < 64) (ht : t.Valid) :
    ∃ s, run (t.ops reg) b = ((b.update (written (b.received reg t))).select s).done := by
  obtain ⟨fn, r, c, hs⟩ := ht.select
  have hsel : b.exec t.select = (b.select (b.hits t.select)).done := by rw [hs]; rfl
  rw [Part.ops, writesOf_eq, List.isEmpty_map]
  split_ifs with hc
  · -- an image of zeros is skipped with its selection
    have hn : b.received reg t = [] := by simp [received, List.isEmpty_iff.mp hc]
    exact ⟨b.selected, by rw [hn, update_eq_self h fun _ _ => rfl]; rfl⟩
  · refine ⟨b.hits t.select, ?_⟩
    rw [run, hsel, andThen_done]
    have hl : ∀ w ∈ cells reg t.image, w.1 < 1024 := fun w hw => by
      have := (of_mem_cells ht.image hw).1
      omega
    cases hh : b.hits t.select with
    | true => rw [run_writes (h.select _) rfl hl, update_select, received, if_pos hh]
    | false =>
      rw [run_writes_unselected _ rfl, received, if_neg (by simp [hh]), update_eq_self h fun _ _ => rfl]

lemma run_parts {parts : List Part} (h : b.Sound p) (hr : reg < 64) (hp : ∀ t ∈ parts, t.Valid) :
    ∃ s, run (parts.flatMap (Part.ops reg)) b =
      ((b.update (written (parts.flatMap (b.received reg)))).select s).done := by
  induction parts generalizing b with
  | nil => exact ⟨b.selected, by rw [List.flatMap_nil, update_eq_self h fun _ _ => rfl]; rfl⟩
  | cons t ts ih =>
    obtain ⟨s1, h1⟩ := run_part h hr (hp t (by simp))
    obtain ⟨s2, h2⟩ := ih ((h.update (written (b.received reg t))).select s1) fun t ht => hp t (by simp [ht])
    refine ⟨s2, ?_⟩
    rw [List.flatMap_cons, run_append, h1, andThen_done, h2, update_select, update_update, select_select,
      List.flatMap_cons]
    simp only [← written_append]
    rfl

lemma run_clear (h : b.Sound p) (hr : reg < 64) :
    run (Macro.clearOps reg) b = ((b.store reg fun _ => 0).select true).done := by
  set zeros : List (ℕ × Row) := (List.range 16).map fun bit => (16 * reg + bit, 0) with hz
  have hops : Macro.clearOps reg = selectAll :: zeros.map writeOp := by simp [hz, Macro.clearOps, writeOp]
  have hlt : ∀ w ∈ zeros, w.1 < 1024 := by
    simp [hz]
    omega
  have hsel : b.exec selectAll = (b.select true).done := rfl
  rw [hops, run, hsel, andThen_done, run_writes (h.select true) rfl hlt, update_select, store]
  congr 2
  refine update_congr h fun addr _ => ?_
  rw [written_of_agree (d := 0) (by simp [hz])]
  refine if_congr ?_ (by apply BitVec.eq_of_getLsbD_eq; simp) rfl
  constructor
  · rintro ⟨w, hw, rfl⟩
    obtain ⟨bit, hb, rfl⟩ := List.mem_map.mp hw
    have := List.mem_range.mp hb
    omega
  · intro ha
    have hb : addr % 16 ∈ List.range 16 := List.mem_range.mpr (by omega)
    exact ⟨(addr, 0), List.mem_map.mpr ⟨addr % 16, hb, by rw [← ha, Nat.div_add_mod]⟩, rfl⟩

end Block

namespace Macro

variable {b : Block} {m : Macro} {t : Part}

lemma parts_agree (hi : ∀ i, m.Reaches i → i < 256) (ht : t ∈ m.parts) (hh : b.hits t.select = true) {bit : ℕ}
    (hb : bit < 16) : t.image.getD bit 0 = m.loadedRow b.rowId.toNat b.colId.toNat bit := by
  cases m with
  | loadVecRow reg v =>
    rw [parts] at ht
    obtain ⟨i, hs, him⟩ := mem_partsOf ht
    have hl := hi i (lt_length_rowImages.mp (List.getElem?_eq_some_iff.mp him).1)
    rw [hs] at hh
    have hc : b.colId.toNat = i := toNat_of_byte_eq hl (by simpa [Block.hits, Block.selects] using hh)
    rw [getD_rowImages him hb, hc]
    rfl
  | loadVecCol reg v =>
    rw [parts] at ht
    obtain ⟨i, hs, him⟩ := mem_partsOf ht
    have hl := hi i (by simpa [columnImages, Reaches] using (List.getElem?_eq_some_iff.mp him).1)
    rw [hs] at hh
    have hr : b.rowId.toNat = i := toNat_of_byte_eq hl (by simpa [Block.hits, Block.selects] using hh)
    rw [getD_columnImages him hb, hr]
    rfl
  | loadMat reg mat =>
    obtain ⟨row, hm, ht⟩ := List.mem_flatMap.mp ht
    obtain ⟨i, hs, him⟩ := mem_partsOf ht
    obtain ⟨j, hj, rfl⟩ := lt_length_rowImages.mp (List.getElem?_eq_some_iff.mp him).1
    rw [← getD_of_mem_zipIdx hm] at hj him
    rw [hs] at hh
    simp only [Block.hits, Block.selects, Bool.and_eq_true, decide_eq_true_eq] at hh
    have hr := toNat_of_byte_eq (hi _ ⟨row.2, j, hj, Or.inl rfl⟩) hh.1
    have hc := toNat_of_byte_eq (hi _ ⟨row.2, j, hj, Or.inr rfl⟩) hh.2
    rw [getD_rowImages him hb, hr, hc]
    rfl
  | _ => simp [parts] at ht

lemma partsOf_cover {f : ℕ → Op} {images : List (List Row)} {i : ℕ} (hi : i < images.length)
    (hs : b.hits (f i) = true) : ∃ t ∈ partsOf f images, b.hits t.select = true :=
  ⟨⟨f i, images[i]⟩, List.mem_map.mpr ⟨(images[i], i), List.mem_zipIdx_iff_getElem?.mpr (by simp [hi]), rfl⟩, hs⟩

lemma lt_of_getD_ne {v : List ℤ} {j : ℕ} (h : v.getD j 0 ≠ 0) : j < v.length := by
  by_contra hj
  exact h (List.getD_eq_default _ _ (not_lt.mp hj))

lemma parts_cover {pe : ℕ} (hp : pe < 16) (h : m.loaded b.rowId.toNat b.colId.toNat pe ≠ 0) :
    ∃ t ∈ m.parts, b.hits t.select = true := by
  cases m with
  | loadVecRow reg v =>
    have hl : b.colId.toNat < (rowImages v).length := lt_length_rowImages.mpr ⟨_, lt_of_getD_ne h, by omega⟩
    rw [parts]
    refine partsOf_cover hl ?_
    simp [Block.hits, Block.selects, byte_toNat]
  | loadVecCol reg v =>
    have hl : b.rowId.toNat < (columnImages v).length := by simpa [columnImages] using lt_of_getD_ne h
    rw [parts]
    refine partsOf_cover hl ?_
    simp [Block.hits, Block.selects, byte_toNat]
  | loadMat reg mat =>
    have hj := lt_of_getD_ne h
    have hr : b.rowId.toNat < mat.length := by
      by_contra hn
      rw [List.getD_eq_default _ _ (not_lt.mp hn)] at hj
      simp at hj
    rw [List.getD_eq_getElem _ _ hr] at hj
    have hl : b.colId.toNat < (rowImages mat[b.rowId.toNat]).length := lt_length_rowImages.mpr ⟨_, hj, by omega⟩
    have hs : b.hits (.select .block (byte b.rowId.toNat) (byte b.colId.toNat)) = true := by
      simp [Block.hits, Block.selects, byte_toNat]
    have hm : (mat[b.rowId.toNat], b.rowId.toNat) ∈ mat.zipIdx := List.mem_zipIdx_iff_getElem?.mpr (by simp [hr])
    obtain ⟨t, ht, hh⟩ := partsOf_cover (f := fun col => .select .block (byte b.rowId.toNat) (byte col)) hl hs
    exact ⟨t, List.mem_flatMap.mpr ⟨_, hm, ht⟩, hh⟩
  | _ => simp [loaded] at h

end Macro

namespace Block

variable {p : Limits} {b : Block} {reg : ℕ} {m : Macro}

lemma ofBits_loaded (r c bit : ℕ) (hb : bit < 16) :
    m.loadedRow r c bit = Plane.ofBits 16 fun pe => (BitVec.ofInt 16 (m.loaded r c pe)).getLsbD bit := by
  simp only [Macro.loadedRow, Plane.bitOf_eq (by decide) hb]

lemma mem_received {t : Part} {w : ℕ × Row} :
    w ∈ b.received reg t ↔ b.hits t.select = true ∧ w ∈ cells reg t.image := by
  by_cases h : b.hits t.select = true <;> simp [received, h]

lemma written_load (hi : ∀ i, m.Reaches i → i < 256) {addr : ℕ} (row : Row) :
    written (m.parts.flatMap (b.received reg)) addr (if addr / 16 = reg then 0 else row) =
      if addr / 16 = reg then m.loadedRow b.rowId.toNat b.colId.toNat (addr % 16) else row := by
  set d := m.loadedRow b.rowId.toNat b.colId.toNat (addr % 16) with hd
  have hb : addr % 16 < 16 := Nat.mod_lt _ (by decide)
  have hw : ∀ w ∈ m.parts.flatMap (b.received reg), addr = w.1 → addr / 16 = reg ∧ w.2 = d := by
    rintro w hw rfl
    obtain ⟨t, ht, hm⟩ := List.mem_flatMap.mp hw
    obtain ⟨hh, hc⟩ := mem_received.mp hm
    obtain ⟨hr, he⟩ := of_mem_cells (Macro.parts_valid ht).image hc
    exact ⟨hr, he.trans (Macro.parts_agree hi ht hh hb)⟩
  rw [written_of_agree fun w hm ha => (hw w hm ha).2]
  by_cases hr : addr / 16 = reg
  · rw [if_pos hr, if_pos hr]
    split_ifs with he
    · rfl
    · -- a row that no part writes is zero in the data too
      by_contra hn
      obtain ⟨pe, hp, hv⟩ : ∃ pe < 16, m.loaded b.rowId.toNat b.colId.toNat pe ≠ 0 := by
        by_contra hz
        push Not at hz
        refine hn (BitVec.eq_of_getLsbD_eq fun pe hp => ?_)
        rw [hd, Macro.loadedRow, Plane.getLsbD_ofBits, hz pe hp, Plane.bitOf_zero]
        simp
      obtain ⟨t, ht, hh⟩ := Macro.parts_cover hp hv
      have hcell : (addr, d) ∈ cells reg t.image := mem_cells.mpr
        ⟨addr % 16, by simp only; omega, (Macro.parts_agree hi ht hh hb).symm, fun h0 => hn h0.symm⟩
      exact he ⟨(addr, d), List.mem_flatMap.mpr ⟨t, ht, mem_received.mpr ⟨hh, hcell⟩⟩, rfl⟩
  · rw [if_neg hr, if_neg hr, if_neg]
    rintro ⟨w, hm, ha⟩
    exact hr (hw w hm ha).1

lemma run_load (hp : p.Valid) (h : b.Sound p) (hr : reg < 64) (ht : m.target? = some reg) {clear load : List Op}
    (hc : (Macro.clearReg reg).expand p = .ok clear) (hl : m.expand p = .ok load) :
    ∃ s, run (clear ++ load) b =
      ((b.store reg fun pe => BitVec.ofInt 16 (m.loaded b.rowId.toNat b.colId.toNat pe)).select s).done := by
  rw [Macro.expand_clearReg hp hr] at hc
  cases hc
  obtain ⟨hi, rfl⟩ := (Macro.expand_load_eq_ok hp hr ht).mp hl
  have hi' : ∀ i, m.Reaches i → i < 256 := fun i hm => (hi i hm).trans_le hp.ids_le
  obtain ⟨s, hs⟩ := run_parts ((h.store reg fun _ => 0).select true) hr fun t ht => Macro.parts_valid ht
  refine ⟨s, ?_⟩
  rw [run_append, run_clear h hr, andThen_done, hs, update_select, select_select, store, update_update]
  congr 2
  refine update_congr h fun addr _ => ?_
  have h0 : (Plane.ofBits 16 fun _ => (0 : Value).getLsbD (addr % 16)) = 0 := by
    apply BitVec.eq_of_getLsbD_eq
    simp
  rw [h0]
  refine (written_load hi' _).trans ?_
  rw [ofBits_loaded _ _ _ (Nat.mod_lt _ (by decide))]
  rfl

end Block

theorem load_correct {q : Params} {c : Config} (hc : q.validate = .ok c) {m : Macro} {reg : ℕ}
    (ht : m.target? = some reg) (hr : reg < c.gemv.regCnt) :
    (∃ clear, (Macro.clearReg reg).expand c.gemv = .ok clear ∧ ∀ load, m.expand c.gemv = .ok load →
      ∀ b : Block, b.Sound c.gemv → ∃ b', Block.run (clear ++ load) b = (b', .ok ()) ∧
        b'.reg reg = .ok ((List.range 16).map fun pe => BitVec.ofInt 16 (m.loaded b.rowId.toNat b.colId.toNat pe)) ∧
        (∀ addr, addr / 16 ≠ reg → b'.bram[addr]? = b.bram[addr]?) ∧ b'.history = b.history) ∧
    ((∃ load, m.expand c.gemv = .ok load) ↔ ∀ i, m.Reaches i → i < 2 ^ c.gemv.idWidth) ∧
    ((∃ e, m.expand c.gemv = Outcome.fail e) ↔ ∃ i, m.Reaches i ∧ 2 ^ c.gemv.idWidth ≤ i) := by
  have hp := (Params.validate_valid hc).gemv
  have hr64 := hp.reg_lt hr
  have hclear := Macro.expand_clearReg hp hr64
  refine ⟨⟨_, hclear, ?_⟩, ?_, ?_⟩
  · intro load hl b hb
    obtain ⟨s, hs⟩ := Block.run_load hp hb hr64 ht hclear hl
    refine ⟨_, hs, ?_, fun addr ha => Block.getElem?_store_of_ne ha _, rfl⟩
    rw [Block.reg_eq hp ((hb.store reg _).select s) hr64]
    exact congrArg Except.ok (List.map_congr_left fun pe hpe => Block.value_store hb hr64 (List.mem_range.mp hpe) _)
  · simp only [Macro.expand_load_eq_ok hp hr64 ht, exists_and_left, exists_eq, and_true]
  · constructor
    · rintro ⟨e, he⟩
      by_contra hn
      push Not at hn
      rw [Macro.expand_load hp hr64 ht hn] at he
      simp [Outcome.fail] at he
    · rintro ⟨i, hi, hw⟩
      exact Macro.expand_load_fail hp hr64 ht hi hw

theorem load_correct_ragged :
    let m := Macro.loadMat 3 [[1, -2], [], List.replicate 20 (-7)]
    ({} : Params).validate = .ok {} ∧ m.target? = some 3 ∧ ∃ clear load b', (Macro.clearReg 3).expand {} = .ok clear ∧
      m.expand {} = .ok load ∧ Block.run (clear ++ load) (.new {} 2 1) = (b', .ok ()) ∧
      b'.reg 3 = .ok (List.replicate 4 (-7) ++ List.replicate 12 0) := by
  intro m
  obtain ⟨⟨clear, hclear, hrun⟩, -⟩ := load_correct (q := {}) (c := {}) (m := m) rfl rfl (by decide)
  obtain ⟨load, hl⟩ : ∃ load, m.expand {} = .ok load := ⟨_, rfl⟩
  obtain ⟨b', hb, hreg, -⟩ := hrun load hl (.new {} 2 1) (Block.new_sound Config.default_valid.gemv 2 1)
  exact ⟨rfl, rfl, clear, load, b', hclear, hl, hb, hreg.trans (by decide)⟩

end PimAsm.Gemv
