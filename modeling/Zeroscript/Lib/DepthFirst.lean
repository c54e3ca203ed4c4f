import Mathlib.Data.Finset.Card
import Mathlib.Data.Finset.SDiff

/-! # Depth-first marking

A recursive marker that stops at marked nodes. Its recursion is bounded; with as many levels as
there are unmarked nodes it marks everything that can be reached. -/
namespace DepthFirst

variable {ν : Type} [DecidableEq ν] (next : ν → List ν)

def visit : ℕ → List ν → ν → List ν
  | 0, marked, _ => marked
  | levels + 1, marked, x =>
    if x ∈ marked then marked else (next x).foldl (visit levels) (x :: marked)

def visitAll (levels : ℕ) (marked xs : List ν) : List ν := xs.foldl (visit next levels) marked

/-- What marking adds: the nodes `xs`, and with every new node all that it leads to. -/
structure Marks (marked xs marked' : List ν) : Prop where
  grows : marked ⊆ marked'
  found : xs ⊆ marked'
  closed : ∀ y ∈ marked', y ∉ marked → next y ⊆ marked'

def tryVisit : ℕ → List ν → ν → Option (List ν)
  | 0, _, _ => none
  | levels + 1, marked, x =>
    if x ∈ marked then some marked else (next x).foldlM (tryVisit levels) (x :: marked)

/-- What can be reached from the nodes `xs`. -/
inductive Reach (xs : List ν) : ν → Prop where
  | start {x : ν} (hx : x ∈ xs) : Reach xs x
  | next {x y : ν} (hx : Reach xs x) (hy : y ∈ next x) : Reach xs y

variable {next} {U : Finset ν}

theorem Marks.trans {m₁ m₂ m₃ xs ys : List ν} (h : Marks next m₁ xs m₂) (h' : Marks next m₂ ys m₃) :
    Marks next m₁ (xs ++ ys) m₃ where
  grows := List.Subset.trans h.grows h'.grows
  found := by
    intro x hx
    rcases List.mem_append.mp hx with hx | hx
    · exact h'.grows (h.found hx)
    · exact h'.found hx
  closed y hy hnew := by
    by_cases hmid : y ∈ m₂
    · exact List.Subset.trans (h.closed y hmid hnew) h'.grows
    · exact h'.closed y hy hmid

/-- One level down there are fewer nodes left to mark. -/
theorem unmarked_lt {x : ν} {marked m : List ν} (hx : x ∈ U) (hnew : x ∉ marked)
    (hm : x :: marked ⊆ m) : (U \ m.toFinset).card < (U \ marked.toFinset).card := by
  apply Finset.card_lt_card
  rw [Finset.ssubset_iff_of_subset]
  · refine ⟨x, by simp [hx, hnew], ?_⟩
    simp [hm List.mem_cons_self]
  · apply Finset.sdiff_subset_sdiff (Finset.Subset.refl U)
    intro y hy
    exact List.mem_toFinset.mpr (hm (List.mem_cons_of_mem _ (List.mem_toFinset.mp hy)))

theorem visitAll_marks_of {levels : ℕ} {marked xs : List ν}
    (hvisit : ∀ (m : List ν) (x : ν), x ∈ U → marked ⊆ m → Marks next m [x] (visit next levels m x))
    (hxs : ∀ x ∈ xs, x ∈ U) : Marks next marked xs (visitAll next levels marked xs) := by
  induction xs generalizing marked with
  | nil => exact ⟨List.Subset.refl _, List.nil_subset _, fun y hy hnew => absurd hy hnew⟩
  | cons x xs ih =>
    have hhead := hvisit marked x (hxs x List.mem_cons_self) (List.Subset.refl _)
    have htail := ih (fun m y hy hsub => hvisit m y hy (List.Subset.trans hhead.grows hsub))
      fun y hy => hxs y (List.mem_cons_of_mem _ hy)
    exact hhead.trans htail

theorem visit_marks (hU : ∀ x ∈ U, ∀ y ∈ next x, y ∈ U) {levels : ℕ} {marked : List ν} {x : ν}
    (hx : x ∈ U) (hlevels : (U \ marked.toFinset).card ≤ levels) :
    Marks next marked [x] (visit next levels marked x) := by
  induction levels generalizing marked x with
  | zero =>
    have hmem : x ∈ marked := by
      by_contra hnew
      have hpos : 0 < (U \ marked.toFinset).card := Finset.card_pos.mpr ⟨x, by simp [hx, hnew]⟩
      omega
    exact ⟨List.Subset.refl _, by simpa [visit] using hmem, fun y hy hnew => absurd hy hnew⟩
  | succ levels ih =>
    rw [visit]
    split
    · rename_i hmem
      exact ⟨List.Subset.refl _, by simpa using hmem, fun y hy hnew => absurd hy hnew⟩
    · rename_i hnew
      have hall : Marks next (x :: marked) (next x) (visitAll next levels (x :: marked) (next x)) :=
        visitAll_marks_of
          (fun m y hy hsub => ih hy (by have := unmarked_lt hx hnew hsub; omega)) (hU x hx)
      refine ⟨List.Subset.trans (List.subset_cons_self x marked) hall.grows, ?_, fun y hy hold => ?_⟩
      · intro y hy
        rw [List.mem_singleton.mp hy]
        exact hall.grows List.mem_cons_self
      · by_cases hyx : y = x
        · rw [hyx]
          exact hall.found
        · refine hall.closed y hy ?_
          intro hmem
          rcases List.mem_cons.mp hmem with he | hmem
          · exact hyx he
          · exact hold hmem

theorem visitAll_closed (hU : ∀ x ∈ U, ∀ y ∈ next x, y ∈ U) {levels : ℕ} {xs : List ν}
    (hxs : ∀ x ∈ xs, x ∈ U) (hlevels : U.card ≤ levels) :
    xs ⊆ visitAll next levels [] xs ∧
      ∀ y ∈ visitAll next levels [] xs, next y ⊆ visitAll next levels [] xs := by
  have hmarks : Marks next [] xs (visitAll next levels [] xs) :=
    visitAll_marks_of
      (fun m x hx _ => visit_marks hU hx
        (le_trans (Finset.card_le_card Finset.sdiff_subset) hlevels)) hxs
  exact ⟨hmarks.found, fun y hy => hmarks.closed y hy List.not_mem_nil⟩

theorem visit_within {P : ν → Prop} (hP : ∀ x, P x → ∀ y ∈ next x, P y) {levels : ℕ} {marked : List ν}
    {x : ν} (hmarked : ∀ y ∈ marked, P y) (hx : P x) : ∀ y ∈ visit next levels marked x, P y := by
  induction levels generalizing marked x with
  | zero => exact hmarked
  | succ levels ih =>
    rw [visit]
    split
    · exact hmarked
    · have hall : ∀ (xs m : List ν), (∀ y ∈ m, P y) → (∀ y ∈ xs, P y) →
          ∀ y ∈ visitAll next levels m xs, P y := by
        intro xs
        induction xs with
        | nil => exact fun m hm _ => hm
        | cons z xs ihxs =>
          intro m hm hxs
          have hhead := ih hm (hxs z List.mem_cons_self)
          exact ihxs _ hhead fun y hy => hxs y (List.mem_cons_of_mem _ hy)
      refine hall (next x) (x :: marked) (fun y hy => ?_) (hP x hx)
      rcases List.mem_cons.mp hy with rfl | hy
      · exact hx
      · exact hmarked y hy

theorem visitAll_within {P : ν → Prop} (hP : ∀ x, P x → ∀ y ∈ next x, P y) {levels : ℕ}
    {marked xs : List ν} (hmarked : ∀ y ∈ marked, P y) (hxs : ∀ y ∈ xs, P y) :
    ∀ y ∈ visitAll next levels marked xs, P y := by
  induction xs generalizing marked with
  | nil => exact hmarked
  | cons x xs ih =>
    have hhead : ∀ y ∈ visit next levels marked x, P y :=
      visit_within hP hmarked (hxs x List.mem_cons_self)
    exact ih hhead fun y hy => hxs y (List.mem_cons_of_mem _ hy)

/-- With a level for every node the marker finds what can be reached. -/
theorem mem_visitAll_iff (hU : ∀ x ∈ U, ∀ y ∈ next x, y ∈ U) {levels : ℕ} {xs : List ν}
    (hxs : ∀ x ∈ xs, x ∈ U) (hlevels : U.card ≤ levels) {x : ν} :
    x ∈ visitAll next levels [] xs ↔ Reach next xs x := by
  obtain ⟨hfound, hclosed⟩ := visitAll_closed hU hxs hlevels
  constructor
  · refine visitAll_within (fun y hy z hz => Reach.next hy hz) ?_ (fun y hy => Reach.start hy) x
    exact fun y hy => absurd hy List.not_mem_nil
  · intro h
    induction h with
    | start hx => exact hfound hx
    | next _ hy ih => exact hclosed _ ih hy

theorem mem_visitAll_of_closed {levels : ℕ} {xs : List ν} (hclosed : ∀ x ∈ xs, ∀ y ∈ next x, y ∈ xs)
    (hlevels : xs.length ≤ levels) {x : ν} : x ∈ visitAll next levels [] xs ↔ x ∈ xs := by
  constructor
  · exact visitAll_within hclosed (fun y hy => absurd hy List.not_mem_nil) (fun y hy => hy) x
  · have hU : ∀ x ∈ xs.toFinset, ∀ y ∈ next x, y ∈ xs.toFinset := fun x hx y hy =>
      List.mem_toFinset.mpr (hclosed x (List.mem_toFinset.mp hx) y hy)
    have hcard := (List.toFinset_card_le xs).trans hlevels
    exact fun hx => (visitAll_closed hU (fun y hy => List.mem_toFinset.mpr hy) hcard).1 hx

omit [DecidableEq ν] in
theorem Reach.mono {next' : ν → List ν} (h : ∀ x y, y ∈ next x → y ∈ next' x) {xs : List ν} {x : ν}
    (hx : Reach next xs x) : Reach next' xs x := by
  induction hx with
  | start hx => exact .start hx
  | next _ hy ih => exact .next ih (h _ _ hy)

theorem tryVisitAll_eq_of {levels levels' : ℕ} {marked xs : List ν}
    (hvisit : ∀ (m : List ν) (x : ν), x ∈ U → marked ⊆ m →
      tryVisit next levels m x = some (visit next levels' m x) ∧ m ⊆ visit next levels' m x)
    (hxs : ∀ x ∈ xs, x ∈ U) :
    xs.foldlM (tryVisit next levels) marked = some (visitAll next levels' marked xs) := by
  induction xs generalizing marked with
  | nil => rfl
  | cons x xs ih =>
    obtain ⟨heq, hgrows⟩ := hvisit marked x (hxs x List.mem_cons_self) (List.Subset.refl _)
    rw [List.foldlM_cons, heq]
    exact ih (fun m y hy hsub => hvisit m y hy (List.Subset.trans hgrows hsub))
      fun y hy => hxs y (List.mem_cons_of_mem _ hy)

theorem tryVisit_eq (hU : ∀ x ∈ U, ∀ y ∈ next x, y ∈ U) {levels : ℕ} {marked : List ν} {x : ν}
    (hx : x ∈ U) (hlevels : (U \ marked.toFinset).card < levels) :
    tryVisit next levels marked x = some (visit next levels marked x) := by
  induction levels generalizing marked x with
  | zero => exact absurd hlevels (Nat.not_lt_zero _)
  | succ levels ih =>
    rw [tryVisit, visit]
    split
    · rfl
    · rename_i hnew
      refine tryVisitAll_eq_of (fun m y hy hsub => ?_) (hU x hx)
      have hfewer : (U \ m.toFinset).card < levels := by
        have := unmarked_lt hx hnew hsub
        omega
      exact ⟨ih hy hfewer, (visit_marks hU hy (Nat.le_of_lt hfewer)).grows⟩

/-- The marker from the roots does not fail, and finds what can be reached. -/
theorem tryVisitAll_iff (hU : ∀ x ∈ U, ∀ y ∈ next x, y ∈ U) {levels : ℕ} {xs : List ν}
    (hxs : ∀ x ∈ xs, x ∈ U) (hlevels : U.card < levels) :
    ∃ marked, xs.foldlM (tryVisit next levels) [] = some marked ∧
      ∀ x, x ∈ marked ↔ Reach next xs x := by
  refine ⟨visitAll next levels [] xs, ?_, fun x => mem_visitAll_iff hU hxs (Nat.le_of_lt hlevels)⟩
  refine tryVisitAll_eq_of (fun m x hx _ => ?_) hxs
  have hcard : (U \ m.toFinset).card < levels :=
    lt_of_le_of_lt (Finset.card_le_card Finset.sdiff_subset) hlevels
  exact ⟨tryVisit_eq hU hx hcard, (visit_marks hU hx (Nat.le_of_lt hcard)).grows⟩

end DepthFirst
