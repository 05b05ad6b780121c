import Mathlib
import PimAsm.Proofs.Gemv.Effect

/-! Two states of a block that agree below a register, run side by side. Instructions that stay below the register
keep them in agreement, and the first step of a product extends the agreement to the pair that it writes. -/

namespace PimAsm.Gemv.Block

/-- States at the same position that differ only in the registers from `n` on. -/
structure Agree (n : ℕ) (b b' : Block) : Prop where
  rowId : b'.rowId = b.rowId
  colId : b'.colId = b.colId
  selected : b'.selected = b.selected
  history : b'.history = b.history
  rows : ∀ addr < 16 * n, b'.bram[addr]? = b.bram[addr]?

variable {p : Limits} {b b' : Block} {op : Op} {ops : List Op} {n : ℕ}

lemma agree_store (b : Block) {reg : ℕ} (hr : n ≤ reg) (f : ℕ → Value) : Agree n b (b.store reg f) :=
  ⟨rfl, rfl, rfl, rfl, fun addr _ => getElem?_store_of_ne (by omega) f⟩

namespace Agree

lemma mono {m : ℕ} (h : Agree n b b') (hm : m ≤ n) : Agree m b b' :=
  ⟨h.rowId, h.colId, h.selected, h.history, fun addr ha => h.rows addr (by omega)⟩

lemma value (h : Agree n b b') {reg : ℕ} (hr : reg < n) (pe : ℕ) : b'.value reg pe = b.value reg pe :=
  value_congr fun addr ha => h.rows addr (by omega)

lemma wide (h : Agree n b b') {reg : ℕ} (hr : reg + 1 < n) (pe : ℕ) : b'.wide reg pe = b.wide reg pe := by
  rw [Block.wide, Block.wide, h.value hr, h.value (by omega)]

lemma update (h : Agree n b b') (g : ℕ → Row → Row) : Agree n (b.update g) (b'.update g) where
  __ := h
  rows addr ha := by simp [Block.update, h.rows addr ha]

lemma store (h : Agree n b b') (reg : ℕ) {f f' : ℕ → Value} (hf : ∀ pe, f' pe = f pe) :
    Agree n (b.store reg f) (b'.store reg f') := by
  rw [funext hf]
  exact h.update _

lemma storePair (h : Agree n b b') (reg : ℕ) {f f' : ℕ → BitVec 32} (hf : ∀ pe, f' pe = f pe) :
    Agree n (b.storePair reg f) (b'.storePair reg f') :=
  (h.store reg fun pe => congrArg _ (hf pe)).store (reg + 1) fun pe => congrArg _ (hf pe)

lemma select (h : Agree n b b') (s : Bool) : Agree n (b.select s) (b'.select s) where
  __ := h
  selected := rfl

lemma remember (h : Agree n b b') (bits : List Bool) : Agree n (b.remember bits) (b'.remember bits) where
  __ := h
  history := rfl

lemma effect (h : Agree n b b') (ho : op.Within p n) : Agree n (b.effect op) (b'.effect op) := by
  cases op with
  | nop | accumRow => exact h
  | write addr data =>
    unfold Block.effect
    rw [h.selected]
    split_ifs
    · exact h.update _
    · exact h
  | select fn rowId colId =>
    have hs : b'.selects fn rowId colId = b.selects fn rowId colId := by
      unfold selects
      rw [h.rowId, h.colId]
    rw [Block.effect, Block.effect, hs]
    exact h.select _
  | clrMbit =>
    rw [Block.effect, Block.effect, h.history]
    exact h.remember _
  | alu fn rd rs1 rs2 =>
    obtain ⟨-, h1, h2⟩ := ho
    exact h.store _ fun pe => by rw [h.value h1, h.value h2]
  | updatePp offset pp m q =>
    obtain ⟨-, hpp, hm, hq⟩ := ho
    simp only [Block.effect, h.value hq]
    apply (h.remember _).storePair
    intro pe
    rw [stepped, stepped, h.wide hpp, h.value hm, h.value hq, h.history]
  | movOffset offset rd rs =>
    obtain ⟨-, -, hs, hk⟩ := ho
    apply h.store
    intro pe
    rcases hk with hk | hk
    · rw [hk, shifted_zero_wide, shifted_zero_wide, h.value hs]
    · rw [h.wide hk]
  | accumBlk fold rd rs =>
    obtain ⟨-, hd, hs⟩ := ho
    apply h.store
    intro pe
    rw [foldedValue, foldedValue, h.value hs, h.value hs, h.value hd]

lemma foldl_effect (h : Agree n b b') (ho : ∀ op ∈ ops, op.Within p n) :
    Agree n (ops.foldl Block.effect b) (ops.foldl Block.effect b') := by
  induction ops generalizing b b' with
  | nil => exact h
  | cons op ops ih => exact ih (h.effect (ho op (by simp))) fun o hm => ho o (by simp [hm])

end Agree

lemma Sound.foldl_effect (h : b.Sound p) (ops : List Op) : (ops.foldl Block.effect b).Sound p := by
  induction ops generalizing b with
  | nil => exact h
  | cons op ops ih => exact ih (h.effect op)

namespace Agree

lemma store_next (h : Agree n b b') (hb : b.Sound p) (hb' : b'.Sound p) (f : ℕ → Value) :
    Agree (n + 1) (b.store n f) (b'.store n f) where
  __ := h.update _
  rows addr ha := by
    by_cases hlt : addr < 16 * n
    · exact (h.update _).rows addr hlt
    · have hr : addr / 16 = n := by omega
      rw [getElem?_store_self hb' hr, getElem?_store_self hb hr]

lemma first_step (h : Agree n b b') (hb : b.Sound p) (hb' : b'.Sound p) {k pp m q : BitVec 8} (hk : k.toNat = 0)
    (hpp : pp.toNat = n) (hm : m.toNat < n) (hq : q.toNat < n) :
    Agree (n + 2) (b.effect (.updatePp k pp m q)) (b'.effect (.updatePp k pp m q)) := by
  -- the first step starts from zero and does not read the pair that it writes
  have hs (pe : ℕ) : b'.stepped 0 n m.toNat q.toNat pe = b.stepped 0 n m.toNat q.toNat pe := by
    rw [stepped, stepped, if_pos rfl, if_pos rfl, h.value hm, h.value hq, h.history]
  simp only [Block.effect, h.value hq, hk, hpp, Block.storePair, hs]
  have hl : ((List.range 16).map fun pe => (b.value q.toNat pe).getLsbD 0).length = 16 := by simp
  have hr := hb.remember hl
  have hr' := hb'.remember hl
  exact ((h.remember _).store_next hr hr' _).store_next (hr.store _ _) (hr'.store _ _) _

lemma product (h : Agree n b b') (hb : b.Sound p) (hb' : b'.Sound p) (hp : p.Valid) (hn : n + 2 ≤ 64) {m q : ℕ}
    (hm : m < n) (hq : q < n) (he : (Macro.mult n m q).expand p = .ok ops) :
    Agree (n + 2) (ops.foldl Block.effect b) (ops.foldl Block.effect b') := by
  have hw := Macro.expand_within hp hn (by simp [Macro.regs]; omega) he
  have hr : List.range 16 = 0 :: List.range' 1 15 := rfl
  rw [Macro.expand_mult hp (by omega) (by omega) (by omega), hr, List.map_cons] at he
  cases he
  have hc : Agree n (b.effect .clrMbit) (b'.effect .clrMbit) := h.effect (p := p) trivial
  have h0 := hc.first_step (hb.effect _) (hb'.effect _) (k := byte 0) rfl (toNat_byte (by omega : n < 256))
    (byte_lt (by omega) hm) (byte_lt (by omega) hq)
  rw [List.foldl_cons, List.foldl_cons, List.foldl_cons, List.foldl_cons]
  exact h0.foldl_effect fun op ho => hw op (List.mem_cons_of_mem _ (List.mem_cons_of_mem _ ho))

end Agree

lemma exists_not_agree_move (hp : p.Valid) (hn : n < 64) {k rd rs : ℕ} (hk : k < 16) (h0 : k ≠ 0) (hd : rd < n)
    (hs : rs + 1 = n) : ∃ b b' : Block, b.Sound p ∧ b'.Sound p ∧ Agree n b b' ∧
      ¬ Agree n (b.effect (.movOffset (byte k) (byte rd) (byte rs)))
        (b'.effect (.movOffset (byte k) (byte rd) (byte rs))) := by
  have hb := new_sound hp 0 0
  refine ⟨new p 0 0, (new p 0 0).store n fun _ => BitVec.allOnes 16, hb, hb.store _ _, agree_store _ le_rfl _, ?_⟩
  intro h
  have hv := h.value hd 0
  rw [effect, effect, toNat_byte (by omega), toNat_byte (by omega), toNat_byte (by omega),
    value_store (hb.store _ _) (by omega) (by decide), value_store hb (by omega) (by decide)] at hv
  -- the highest bit of the result comes from the register after the source
  have hbit := congrArg (BitVec.getLsbD · 15) hv
  simp only [shifted, BitVec.getLsbD_setWidth, BitVec.getLsbD_ushiftRight, getLsbD_wide, hs] at hbit
  rw [if_neg (by omega), if_neg (by omega), value_store hb hn (by decide), value_new, BitVec.getLsbD_allOnes] at hbit
  simp at hbit
  omega

end PimAsm.Gemv.Block
