import Mathlib
import PimAsm.Fault

namespace PimAsm.Outcome

variable {α β : Type}

@[simp] lemma ok_bind (a : α) (f : α → Outcome β) : (Except.ok a : Outcome α) >>= f = f a := rfl

@[simp] lemma map_ok (a : α) (f : α → β) : f <$> (Except.ok a : Outcome α) = .ok (f a) := rfl

@[simp] lemma pure_eq (a : α) : (pure a : Outcome α) = .ok a := rfl

@[simp] lemma bind_eq_ok {x : Outcome α} {f : α → Outcome β} {b : β} :
    x >>= f = .ok b ↔ ∃ a, x = .ok a ∧ f a = .ok b := by
  cases x with
  | error e => simp [bind, Except.bind]
  | ok a => simp

@[simp] lemma map_eq_ok {x : Outcome α} {f : α → β} {b : β} :
    f <$> x = .ok b ↔ ∃ a, x = .ok a ∧ f a = b := by
  cases x with
  | error e => simp [Functor.map, Except.map]
  | ok a => simp

@[simp] lemma require_eq_ok {p : Prop} [Decidable p] {f : Fault} {u : Unit} : require p f = .ok u ↔ p := by
  by_cases h : p <;> simp [require, fail, h]

@[simp] lemma within_eq_ok {p : Prop} [Decidable p] {u : Unit} : within p = .ok u ↔ p := by
  by_cases h : p <;> simp [within, trap, h]

@[simp] lemma fail_ne_ok {f : Fault} {a : α} : ¬ (fail f : Outcome α) = .ok a := by simp [fail]

@[simp] lemma checkedCount_eq_ok {n m : ℕ} : checkedCount n = .ok m ↔ n < countLimit ∧ n = m := by
  by_cases h : n < countLimit <;> simp [checkedCount, h]

lemma ok_ne_trap {a : α} : (.ok a : Outcome α) ≠ trap := by simp [trap]

lemma fail_ne_trap {f : Fault} : (fail f : Outcome α) ≠ trap := by simp [fail, trap]

lemma require_ne_trap {p : Prop} [Decidable p] {f : Fault} : require p f ≠ trap := by
  by_cases h : p <;> simp [require, fail, trap, h]

lemma bind_ne_trap {x : Outcome α} {f : α → Outcome β} (hx : x ≠ trap) (hf : ∀ a, f a ≠ trap) : x >>= f ≠ trap := by
  cases x with
  | ok a => exact hf a
  | error e =>
    intro h
    cases h
    exact hx rfl

lemma exists_fail {x : Outcome α} (ht : x ≠ trap) (hn : ∀ a, x ≠ .ok a) : ∃ f, x = fail f := by
  cases x with
  | ok a => exact absurd rfl (hn a)
  | error e =>
    cases e with
    | fault f => exact ⟨f, rfl⟩
    | trap => exact absurd rfl ht

lemma mapM_eq_ok {f : α → Outcome β} {xs : List α} {ys : List β} :
    xs.mapM f = .ok ys ↔ List.Forall₂ (fun x y => f x = .ok y) xs ys := by
  induction xs generalizing ys with
  | nil => simp [eq_comm]
  | cons x xs ih =>
    simp only [List.mapM_cons, bind_eq_ok, pure_eq, Except.ok.injEq, ih, List.forall₂_cons_left_iff]
    constructor
    · rintro ⟨y, hy, zs, hz, rfl⟩
      exact ⟨y, zs, hy, hz, rfl⟩
    · rintro ⟨y, zs, hy, hz, rfl⟩
      exact ⟨y, hy, zs, hz, rfl⟩

lemma mapM_eq_ok_iff {f : α → Outcome β} {P : α → Prop} {g : α → β} (hf : ∀ x y, f x = .ok y ↔ P x ∧ g x = y)
    {xs : List α} {ys : List β} : xs.mapM f = .ok ys ↔ (∀ x ∈ xs, P x) ∧ xs.map g = ys := by
  have hmap : List.Forall₂ (fun x y => g x = y) xs ys ↔ xs.map g = ys := by
    rw [← List.forall₂_eq_eq_eq, List.forall₂_map_left_iff]
  simp only [mapM_eq_ok, hf, List.forall₂_and_left, hmap]

lemma mem_of_mapM {f : α → Outcome β} {xs : List α} {ys : List β} (h : xs.mapM f = .ok ys) {y : β} (hy : y ∈ ys) :
    ∃ x ∈ xs, f x = .ok y := by
  have hf := mapM_eq_ok.mp h
  clear h
  induction hf with
  | nil => simp at hy
  | @cons x z xs zs hx _ ih =>
    rcases List.mem_cons.mp hy with rfl | hz
    · exact ⟨x, by simp, hx⟩
    · obtain ⟨w, hw, he⟩ := ih hz
      exact ⟨w, by simp [hw], he⟩

lemma mapM_congr {f g : α → Outcome β} {xs : List α} (h : ∀ x ∈ xs, f x = g x) : xs.mapM f = xs.mapM g := by
  induction xs with
  | nil => rfl
  | cons x xs ih => rw [List.mapM_cons, List.mapM_cons, h x (by simp), ih fun y hy => h y (by simp [hy])]

lemma mapM_of_forall {f : α → Outcome β} {g : α → β} {xs : List α} (h : ∀ x ∈ xs, f x = .ok (g x)) :
    xs.mapM f = .ok (xs.map g) :=
  (mapM_congr h).trans List.mapM_pure

lemma mapM_fail {f : α → Outcome β} {xs : List α} (h : ∀ x ∈ xs, (∃ y, f x = .ok y) ∨ ∃ e, f x = fail e)
    (hx : ∃ x ∈ xs, ∃ e, f x = fail e) : ∃ e, xs.mapM f = fail e := by
  induction xs with
  | nil => simp at hx
  | cons x xs ih =>
    rcases h x (by simp) with ⟨y, hy⟩ | ⟨e, he⟩
    · have ht : ∃ z ∈ xs, ∃ e, f z = fail e := by
        obtain ⟨z, hz, e, he⟩ := hx
        rcases List.mem_cons.mp hz with rfl | hz
        · simp [hy, fail] at he
        · exact ⟨z, hz, e, he⟩
      obtain ⟨e, he⟩ := ih (fun z hz => h z (by simp [hz])) ht
      exact ⟨e, by rw [List.mapM_cons, hy, ok_bind, he]; rfl⟩
    · exact ⟨e, by rw [List.mapM_cons, he]; rfl⟩

lemma exists_first_not {P : α → Prop} {xs : List α} (h : ¬ ∀ x ∈ xs, P x) :
    ∃ pre x post, xs = pre ++ x :: post ∧ (∀ y ∈ pre, P y) ∧ ¬ P x := by
  classical
  push Not at h
  obtain ⟨x, hx, hn⟩ := h
  obtain ⟨y, pre, post, hpre, hy, rfl, -⟩ := List.exists_of_eraseP (p := fun y => decide (¬ P y)) hx (by simpa using hn)
  exact ⟨pre, y, post, rfl, by simpa using hpre, by simpa using hy⟩

lemma first_not_unique {P : α → Prop} {xs xs' ys ys' : List α} {y y' : α} (h : xs ++ y :: ys = xs' ++ y' :: ys')
    (hx : ∀ x ∈ xs, P x) (hy : ¬ P y) (hx' : ∀ x ∈ xs', P x) (hy' : ¬ P y') : xs = xs' ∧ y = y' := by
  rcases List.append_eq_append_iff.mp h with ⟨zs, rfl, hz⟩ | ⟨zs, rfl, hz⟩
  · cases zs with
    | nil => exact ⟨(List.append_nil _).symm, (List.cons.inj hz).1⟩
    | cons z zs => exact absurd (hx' y (by simp [(List.cons.inj hz).1])) hy
  · cases zs with
    | nil => exact ⟨List.append_nil _, (List.cons.inj hz).1.symm⟩
    | cons z zs => exact absurd (hx y' (by simp [(List.cons.inj hz).1])) hy'

end PimAsm.Outcome
