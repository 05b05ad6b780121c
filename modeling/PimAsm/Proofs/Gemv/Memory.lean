import Mathlib
import PimAsm.Gemv.Block
import PimAsm.Proofs.Gemv.Operands
import PimAsm.Proofs.Plane

/-! The registers of a block as a view of its rows: what reading gives, what writing changes and what it keeps. -/

namespace PimAsm.Gemv.Block

/-- A state of a block with the limits `p`, whatever its rows, its selection and its multiplier bits. -/
structure Sound (p : Limits) (b : Block) : Prop where
  limits : b.limits = p
  history : b.history.length = 16
  size : b.bram.size = 1024

variable {p : Limits} {b : Block} {reg pe : ℕ}

lemma Sound.history_eq (h : b.Sound p) : b.history = (List.range 16).map fun pe => b.history.getD pe false := by
  rw [Plane.map_getD_range h.history.le]
  simp [List.rightpad, h.history]

lemma new_sound (hp : p.Valid) (rowId colId : BitVec 8) : (new p rowId colId).Sound p where
  limits := rfl
  history := by simp [new, hp.peCount, Plane.rowWidth]
  size := by simp [new, hp.pimDepth]

@[simp] lemma attempt_ok {α : Type} (b : Block) (a : α) (next : α → Step) : b.attempt (.ok a) next = next a := rfl

@[simp] lemma andThen_done (b : Block) (next : Block → Step) : andThen b.done next = next b := rfl

lemma run_append (xs ys : List Op) (b : Block) : run (xs ++ ys) b = andThen (run xs b) (run ys) := by
  induction xs generalizing b with
  | nil => rfl
  | cons x xs ih =>
    rw [List.cons_append, run, run]
    rcases b.exec x with ⟨b', _ | _⟩
    · rfl
    · exact ih b'

def row (b : Block) (addr : ℕ) : Row := b.bram.getD addr 0

def value (b : Block) (reg pe : ℕ) : Value := Plane.ofBits 16 fun bit => (b.row (16 * reg + bit)).getLsbD pe

lemma value_new (p : Limits) (rowId colId : BitVec 8) (reg pe : ℕ) : (new p rowId colId).value reg pe = 0 := by
  have hr (addr : ℕ) : (new p rowId colId).row addr = 0 := by
    rw [row, new, Array.getD_eq_getD_getElem?, Array.getElem?_replicate]
    split_ifs <;> rfl
  apply BitVec.eq_of_getLsbD_eq
  intro bit hb
  simp [value, Plane.getLsbD_ofBits, hr]

def update (b : Block) (g : ℕ → Row → Row) : Block := { b with bram := b.bram.mapIdx g }

/-- Sets a register in every element and keeps the others. -/
def store (b : Block) (reg : ℕ) (f : ℕ → Value) : Block :=
  b.update fun addr row => if addr / 16 = reg then Plane.ofBits 16 fun pe => (f pe).getLsbD (addr % 16) else row

def select (b : Block) (selected : Bool) : Block := { b with selected := selected }

@[simp] lemma select_select (b : Block) (s t : Bool) : (b.select s).select t = b.select t := rfl

@[simp] lemma update_select (b : Block) (s : Bool) (g : ℕ → Row → Row) :
    (b.select s).update g = (b.update g).select s :=
  rfl

lemma Sound.select (h : b.Sound p) (s : Bool) : (b.select s).Sound p := ⟨h.limits, h.history, h.size⟩

lemma Sound.update (h : b.Sound p) (g : ℕ → Row → Row) : (b.update g).Sound p :=
  ⟨h.limits, h.history, by rw [Block.update, Array.size_mapIdx, h.size]⟩

lemma Sound.store (h : b.Sound p) (reg : ℕ) (f : ℕ → Value) : (b.store reg f).Sound p := h.update _

lemma row_update (h : b.Sound p) {addr : ℕ} (ha : addr < 1024) (g : ℕ → Row → Row) :
    (b.update g).row addr = g addr (b.row addr) := by
  simp [row, update, h.size, ha]

lemma update_update (b : Block) (g h : ℕ → Row → Row) :
    (b.update g).update h = b.update fun addr row => h addr (g addr row) := by
  simp [update, Function.comp_def]

lemma update_congr {g h : ℕ → Row → Row} (hb : b.Sound p)
    (he : ∀ addr < 1024, g addr (b.row addr) = h addr (b.row addr)) : b.update g = b.update h := by
  have hm : b.bram.mapIdx g = b.bram.mapIdx h := by
    apply Array.ext
    · simp
    · intro i hi _
      have hi' : i < b.bram.size := by simpa using hi
      have := he i (hb.size ▸ hi')
      simpa [row, hi'] using this
  rw [update, hm, update]

lemma update_eq_self {g : ℕ → Row → Row} (hb : b.Sound p) (he : ∀ addr < 1024, g addr (b.row addr) = b.row addr) :
    b.update g = b := by
  have hm : b.bram.mapIdx (fun _ row => row) = b.bram := by
    apply Array.ext <;> simp
  rw [update_congr (h := fun _ row => row) hb he, update, hm]

lemma writeRow_eq (h : b.Sound p) {addr : ℕ} (ha : addr < 1024) (data : Row) :
    b.writeRow addr data = (b.update fun a row => if a = addr then data else row).done := by
  have hm : b.bram.setIfInBounds addr data = b.bram.mapIdx fun a row => if a = addr then data else row := by
    apply Array.ext
    · simp
    · intro i hi _
      rw [Array.getElem_setIfInBounds (by simpa using hi)]
      simp [eq_comm]
  rw [writeRow, if_pos (h.size.symm ▸ ha), hm, update]

lemma row_store (h : b.Sound p) {addr : ℕ} (ha : addr < 1024) (f : ℕ → Value) :
    (b.store reg f).row addr =
      if addr / 16 = reg then Plane.ofBits 16 fun pe => (f pe).getLsbD (addr % 16) else b.row addr :=
  row_update h ha _

lemma getElem?_store_of_ne {addr : ℕ} (hr : addr / 16 ≠ reg) (f : ℕ → Value) :
    (b.store reg f).bram[addr]? = b.bram[addr]? := by
  simp [store, update, hr]

lemma getElem?_store_self (h : b.Sound p) {addr : ℕ} (hr : addr / 16 = reg) (f : ℕ → Value) :
    (b.store reg f).bram[addr]? =
      if addr < 1024 then some (Plane.ofBits 16 fun pe => (f pe).getLsbD (addr % 16)) else none := by
  split_ifs with ha <;> simp [store, update, hr, h.size, ha]

lemma value_congr {b' : Block} (h : ∀ addr, addr / 16 = reg → b'.bram[addr]? = b.bram[addr]?) :
    b'.value reg pe = b.value reg pe := by
  apply BitVec.eq_of_getLsbD_eq
  intro bit hb
  have hr : b'.row (16 * reg + bit) = b.row (16 * reg + bit) := by
    rw [row, row, Array.getD_eq_getD_getElem?, Array.getD_eq_getD_getElem?, h _ (by omega)]
  rw [value, value, Plane.getLsbD_ofBits, Plane.getLsbD_ofBits, hr]

lemma value_store (h : b.Sound p) (hr : reg < 64) (hp : pe < 16) (f : ℕ → Value) :
    (b.store reg f).value reg pe = f pe := by
  apply BitVec.eq_of_getLsbD_eq
  intro bit hb
  rw [value, Plane.getLsbD_ofBits, row_store h (by omega), if_pos (by omega), Plane.getLsbD_ofBits]
  simp [hb, hp, Nat.mod_eq_of_lt]

lemma value_store_of_ne {q : ℕ} (hq : q ≠ reg) (f : ℕ → Value) : (b.store reg f).value q pe = b.value q pe :=
  value_congr fun addr ha => getElem?_store_of_ne (by omega) f

lemma store_congr {f g : ℕ → Value} (h : b.Sound p) (hf : ∀ pe < 16, f pe = g pe) : b.store reg f = b.store reg g := by
  refine update_congr h fun addr _ => ?_
  have hg : (Plane.ofBits 16 fun pe => (f pe).getLsbD (addr % 16)) =
      Plane.ofBits 16 fun pe => (g pe).getLsbD (addr % 16) := by
    apply BitVec.eq_of_getLsbD_eq
    intro pe hp
    rw [Plane.getLsbD_ofBits, Plane.getLsbD_ofBits, hf pe hp]
  rw [hg]

lemma regRow_eq (hp : p.Valid) (h : b.Sound p) (hr : reg < 64) {bit : ℕ} (hb : bit < 16) :
    b.regRow reg bit = .ok (b.row (16 * reg + bit)) := by
  have hread : b.readRow (16 * reg + bit) = .ok (b.row (16 * reg + bit)) := by
    have ha : 16 * reg + bit < b.bram.size := by rw [h.size]; omega
    simp [readRow, row, ha]
  simp [regRow, h.limits, hp.regAddr_eq (show reg ≤ 256 by omega) hb, hread, peCount, hp.peCount, Plane.rowWidth, hb]

lemma reg_eq (hp : p.Valid) (h : b.Sound p) (hr : reg < 64) : b.reg reg = .ok ((List.range 16).map (b.value reg)) := by
  have hrows : Outcome.collect 16 (b.regRow reg) = .ok ((List.range 16).map fun bit => b.row (16 * reg + bit)) := by
    rw [Outcome.collect_eq_mapM]
    exact Outcome.mapM_of_forall fun bit hb => regRow_eq hp h hr (List.mem_range.mp hb)
  simp only [Block.reg, h.limits, hp.regWidth, hrows, Outcome.ok_bind, peCount, hp.peCount, Outcome.pure_eq]
  refine congrArg Except.ok (List.map_congr_left fun pe _ => BitVec.eq_of_getLsbD_eq fun bit hb => ?_)
  rw [value, Plane.getLsbD_ofBits, Plane.getLsbD_ofBits]
  simp [hb]

lemma reg_store (hp : p.Valid) (h : b.Sound p) (hr : reg < 64) (f : ℕ → Value) :
    (b.store reg f).reg reg = .ok ((List.range 16).map f) := by
  rw [reg_eq hp (h.store _ _) hr]
  exact congrArg Except.ok (List.map_congr_left fun pe hpe => value_store h hr (List.mem_range.mp hpe) f)

lemma reg_const (hp : p.Valid) (h : b.Sound p) (hr : reg < 64) {v : Value} (hv : ∀ pe < 16, b.value reg pe = v) :
    b.reg reg = .ok (List.replicate 16 v) := by
  rw [reg_eq hp h hr, List.map_congr_left fun pe hpe => hv pe (List.mem_range.mp hpe), List.map_const',
    List.length_range]

lemma regSigned_eq (hp : p.Valid) (h : b.Sound p) (hr : reg < 64) :
    b.regSigned reg = .ok ((List.range 16).map fun pe => (b.value reg pe).toInt) := by
  rw [regSigned, reg_eq hp h hr, Outcome.ok_bind, Outcome.pure_eq, List.map_map]
  rfl

lemma setBits_eq (hp : p.Valid) {values : List Value} (hv : values.length ≤ 16) (hr : reg < 64) {count bit : ℕ}
    (h : b.Sound p) (hb : bit + count ≤ 16) :
    setBits reg values count bit b = (b.update fun addr row =>
      if addr / 16 = reg ∧ bit ≤ addr % 16 ∧ addr % 16 < bit + count then
        Plane.ofBits 16 fun pe => (values.getD pe 0).getLsbD (addr % 16)
      else row).done := by
  induction count generalizing bit b with
  | zero =>
    rw [setBits, update_eq_self h fun addr _ => if_neg (by omega)]
  | succ count ih =>
    have hl : values = [] ∨ bit < 16 ∧ values.length ≤ Plane.rowWidth := Or.inr ⟨by omega, hv⟩
    rw [setBits, h.limits, hp.regAddr_eq (by omega) (by omega), attempt_ok, Outcome.within, if_pos hl, attempt_ok,
      writeRow_eq h (by omega), andThen_done, ih (h.update _) (by omega), update_update]
    congr 1
    refine update_congr h fun addr _ => ?_
    -- the first row and the rows after it make up the range
    by_cases h1 : addr = 16 * reg + bit
    · subst h1
      have hm : (16 * reg + bit) % 16 = bit := by omega
      rw [if_neg (by omega), if_pos rfl, if_pos (by omega), hm]
    · rw [if_neg h1]
      congr 1
      exact propext (by omega)

lemma setReg_eq (hp : p.Valid) (h : b.Sound p) (hr : reg < 64) {values : List Value} (hv : values.length ≤ 16) :
    b.setReg reg values = (b.store reg fun pe => values.getD pe 0).done := by
  rw [setReg, peCount, h.limits, hp.peCount, hp.regWidth, List.take_of_length_le hv,
    setBits_eq hp hv hr h le_rfl, store]
  congr 1
  refine update_congr h fun addr _ => ?_
  congr 1
  exact propext (by omega)

lemma setReg_map (hp : p.Valid) (h : b.Sound p) (hr : reg < 64) (f : ℕ → Value) :
    b.setReg reg ((List.range 16).map f) = (b.store reg f).done := by
  rw [setReg_eq hp h hr (by simp)]
  exact congrArg done (store_congr h fun pe hpe => by simp [hpe])

/-! A pair may begin at the last register, and its high half is then past the last row. -/

lemma value_past_end (h : b.Sound p) (pe : ℕ) : b.value 64 pe = 0 := by
  apply BitVec.eq_of_getLsbD_eq
  intro bit hb
  simp [value, row, h.size]

lemma reg_past_end (hp : p.Valid) (h : b.Sound p) : b.reg 64 = Outcome.fail (b.badAddr 1024) := by
  have hr : b.regRow 64 0 = Outcome.fail (b.badAddr 1024) := by
    rw [regRow, h.limits, hp.regAddr_eq (by decide) (by decide)]
    simp [readRow, h.size]
    rfl
  rw [reg, h.limits, hp.regWidth, Outcome.collect, Outcome.collectFrom, hr]
  rfl

lemma setReg_past_end (hp : p.Valid) (h : b.Sound p) {values : List Value} (hv : values.length ≤ 16) :
    b.setReg 64 values = (b, Outcome.fail (b.badAddr 1024)) := by
  have hl : values = [] ∨ 0 < 16 ∧ values.length ≤ Plane.rowWidth := Or.inr ⟨by decide, hv⟩
  have hw (data : Row) : b.writeRow 1024 data = (b, Outcome.fail (b.badAddr 1024)) := by
    rw [writeRow, if_neg (by simp [h.size])]
  rw [setReg, peCount, h.limits, hp.peCount, hp.regWidth, List.take_of_length_le hv, setBits, h.limits,
    hp.regAddr_eq (by decide) (by decide), attempt_ok, Outcome.within, if_pos hl, attempt_ok, hw]
  rfl

end PimAsm.Gemv.Block
