import Mathlib.Algebra.Order.BigOperators.Group.List
import Mathlib.Algebra.GroupWithZero.Nat
import Mathlib.Algebra.Order.Group.Nat
import Mathlib.Data.List.Basic
import Mathlib.Tactic.Common

/-! # Counting the entries of a list

A list of processes changes in one entry, or in all of them at once; what is counted changes with
it. -/
namespace Counting

variable {α : Type} {f g : α → Bool} {l : List α}

theorem countP_set {i : ℕ} {p : α} (q : α) (h : l[i]? = some p) :
    (l.set i q).countP f + (if f p then 1 else 0) = l.countP f + (if f q then 1 else 0) := by
  induction l generalizing i with
  | nil => cases h
  | cons x l ih =>
    cases i with
    | zero =>
      cases h
      simp only [List.set_cons_zero, List.countP_cons]
      omega
    | succ i =>
      have hrest := ih h
      simp only [List.set_cons_succ, List.countP_cons]
      omega

theorem countP_set_of_eq {i : ℕ} {p q : α} (h : l[i]? = some p) (heq : f q = f p) :
    (l.set i q).countP f = l.countP f := by
  have hset := countP_set (f := f) q h
  rw [heq] at hset
  exact Nat.add_right_cancel hset

theorem countP_map_of_eq {change : α → α} (h : ∀ p, f (change p) = f p) :
    (l.map change).countP f = l.countP f := by
  rw [List.countP_map]
  exact List.countP_congr fun p _ => by simp [h]

theorem countP_modify_of_eq {change : α → α} {j : ℕ} (h : ∀ p, f (change p) = f p) :
    (l.modify j change).countP f = l.countP f := by
  induction l generalizing j with
  | nil => simp
  | cons x l ih =>
    cases j with
    | zero => simp [List.countP_cons, h]
    | succ j => simp [List.countP_cons, ih]

theorem countP_modify_le {change : α → α} {j : ℕ} :
    (l.modify j change).countP f ≤ l.countP f + 1 := by
  induction l generalizing j with
  | nil => simp
  | cons x l ih =>
    cases j with
    | zero =>
      simp only [List.modify_zero_cons, List.countP_cons]
      split <;> omega
    | succ j =>
      have hrest := ih (j := j)
      simp only [List.modify_succ_cons, List.countP_cons]
      omega

theorem countP_map_congr {change : α → α} (h : ∀ p ∈ l, f (change p) = g p) :
    (l.map change).countP f = l.countP g := by
  rw [List.countP_map]
  exact List.countP_congr fun p hp => by simp [h p hp]

/-- A stronger condition that holds as often holds of the same entries. -/
theorem of_countP_eq (himp : ∀ p, f p → g p) (h : l.countP f = l.countP g) : ∀ p ∈ l, g p → f p := by
  induction l with
  | nil => exact fun p hp => absurd hp List.not_mem_nil
  | cons x l ih =>
    have hle : l.countP f ≤ l.countP g := List.countP_mono_left fun p _ => himp p
    rw [List.countP_cons, List.countP_cons] at h
    have hx : g x → f x := by
      intro hg
      by_contra hf
      rw [if_neg hf, if_pos hg] at h
      omega
    have hrest : l.countP f = l.countP g := by
      by_cases hf : f x
      · rw [if_pos hf, if_pos (himp x hf)] at h
        omega
      · rw [if_neg hf, if_neg fun hg => hf (hx hg)] at h
        omega
    intro p hp
    rcases List.mem_cons.mp hp with rfl | hp
    · exact hx
    · exact ih hrest p hp

theorem index_unique (h : l.countP f ≤ 1) {i j : ℕ} {p q : α} (hi : l[i]? = some p)
    (hj : l[j]? = some q) (hp : f p) (hq : f q) : i = j := by
  induction l generalizing i j with
  | nil => cases hi
  | cons x l ih =>
    rw [List.countP_cons] at h
    cases i with
    | zero =>
      cases j with
      | zero => rfl
      | succ j =>
        cases hi
        have hpos : 0 < l.countP f := List.countP_pos_iff.mpr ⟨q, List.mem_of_getElem? hj, hq⟩
        rw [if_pos hp] at h
        omega
    | succ i =>
      cases j with
      | zero =>
        cases hj
        have hpos : 0 < l.countP f := List.countP_pos_iff.mpr ⟨p, List.mem_of_getElem? hi, hp⟩
        rw [if_pos hq] at h
        omega
      | succ j => rw [ih (by omega) hi hj]

theorem mem_of_modify {change : α → α} {j : ℕ} {q : α} (h : q ∈ l.modify j change) :
    q ∈ l ∨ ∃ p, l[j]? = some p ∧ q = change p := by
  obtain ⟨i, hi⟩ := List.mem_iff_getElem?.mp h
  rw [List.getElem?_modify] at hi
  by_cases hij : j = i
  · subst hij
    simp only [if_true, Option.map_eq_map, Option.map_eq_some_iff] at hi
    obtain ⟨p, hp, rfl⟩ := hi
    exact Or.inr ⟨p, hp, rfl⟩
  · simp only [if_neg hij, Option.map_eq_map, Option.map_id'] at hi
    exact Or.inl (List.mem_of_getElem? hi)

variable (rank : α → ℕ)

theorem sum_set {i : ℕ} {p : α} (q : α) (h : l[i]? = some p) :
    ((l.set i q).map rank).sum + rank p = (l.map rank).sum + rank q := by
  induction l generalizing i with
  | nil => cases h
  | cons x l ih =>
    cases i with
    | zero =>
      cases h
      simp only [List.set_cons_zero, List.map_cons, List.sum_cons]
      omega
    | succ i =>
      have hrest := ih h
      simp only [List.set_cons_succ, List.map_cons, List.sum_cons]
      omega

theorem sum_map_modify_le (change again : α → α) {j : ℕ} (h : ∀ p ∈ l, rank (change p) ≤ rank p)
    (hj : ∀ p, l[j]? = some p → rank (again (change p)) ≤ rank p) :
    (((l.map change).modify j again).map rank).sum ≤ (l.map rank).sum := by
  induction l generalizing j with
  | nil => simp
  | cons x l ih =>
    have hhead := h x List.mem_cons_self
    have htail : ∀ p ∈ l, rank (change p) ≤ rank p := fun p hp => h p (List.mem_cons_of_mem _ hp)
    cases j with
    | zero =>
      have hfirst := hj x rfl
      have hrest := List.sum_le_sum htail
      simp only [List.map_cons, List.modify_zero_cons, List.sum_cons, List.map_map, Function.comp_def]
      omega
    | succ j =>
      have hrest := ih htail fun p hp => hj p hp
      simp only [List.map_cons, List.modify_succ_cons, List.sum_cons]
      omega

end Counting
