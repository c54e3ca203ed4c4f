import Mathlib.Tactic.Common
import Zeroscript.FunctionKind

/-! # What the register tables guarantee

The temporaries of a function are the indices above its symbol table, without a gap. A temporary
handed out was not in use, and stays in use until it is freed by its own index. -/
namespace Zeroscript.FunctionKind

variable {fk fk' : FunctionKind} {r t : ℕ}

/-- The keys of `registerTable` are `S + 1, …, S + R` for the sizes `S` and `R` of the tables. -/
def WellFormed (fk : FunctionKind) : Prop :=
  fk.registerTable.map Prod.fst =
    List.range' (fk.symbolTable.length + 1) fk.registerTable.length

def InUse (fk : FunctionKind) (r : ℕ) : Prop := fk.registerTable.lookup r = some false

instance (fk : FunctionKind) (r : ℕ) : Decidable (fk.InUse r) :=
  inferInstanceAs (Decidable (_ = _))

theorem lookup_isSome_iff {table : List (ℕ × Bool)} :
    (table.lookup r).isSome ↔ r ∈ table.map Prod.fst := by
  induction table with
  | nil => simp
  | cons entry table ih =>
    rw [List.lookup_cons, List.map_cons, List.mem_cons]
    by_cases h : r = entry.1
    · simp [h]
    · have hb : (r == entry.1) = false := by simpa using h
      simp [hb, h, ih]

theorem lookup_cons_ite (entry : ℕ × Bool) (table : List (ℕ × Bool)) :
    (entry :: table).lookup r = if r = entry.1 then some entry.2 else table.lookup r := by
  rw [List.lookup_cons]
  by_cases h : r = entry.1
  · simp [h]
  · have hb : (r == entry.1) = false := by simpa using h
    simp [hb, h]

theorem lookup_append_of_none {table : List (ℕ × Bool)} {free : Bool}
    (h : table.lookup r = none) :
    (table ++ [(r, free)]).lookup t = if t = r then some free else table.lookup t := by
  induction table with
  | nil => simp [lookup_cons_ite]
  | cons entry table ih =>
    rw [lookup_cons_ite] at h
    rw [List.cons_append, lookup_cons_ite, lookup_cons_ite]
    have hr : r ≠ entry.1 := by
      rintro rfl
      simp at h
    rw [if_neg hr] at h
    rw [ih h]
    by_cases he : t = entry.1
    · have ht : t ≠ r := fun ht => hr (ht ▸ he)
      simp [he, Ne.symm hr]
    · simp [he]

theorem lookup_overwrite {table : List (ℕ × Bool)} {free : Bool} (h : (table.lookup r).isSome) :
    (table.map fun entry => if entry.1 == r then (r, free) else entry).lookup t =
      if t = r then some free else table.lookup t := by
  induction table with
  | nil => simp at h
  | cons entry table ih =>
    rw [List.map_cons, lookup_cons_ite, lookup_cons_ite]
    rw [lookup_cons_ite] at h
    by_cases he : entry.1 = r
    · by_cases ht : t = r
      · simp [he, ht]
      · simp only [he, beq_self_eq_true, ↓reduceIte, ht]
        by_cases hs : (table.lookup r).isSome
        · rw [ih hs, if_neg ht]
        · have hmap : (table.map fun entry => if entry.1 == r then (r, free) else entry) = table := by
            rw [lookup_isSome_iff] at hs
            refine (List.map_congr_left fun e hm => ?_).trans (List.map_id _)
            have hne : e.1 ≠ r := fun hr => hs (hr ▸ List.mem_map_of_mem hm)
            simp [hne]
          rw [hmap]
    · rw [if_neg (Ne.symm he)] at h
      simp only [beq_iff_eq, he, ↓reduceIte] at ih ⊢
      rw [ih h]
      by_cases ht : t = r
      · have hte : t ≠ entry.1 := fun hte => he (hte ▸ ht)
        rw [if_neg hte, if_pos ht, if_pos ht]
      · simp only [ht, ↓reduceIte]

theorem lookup_setRegister {table : List (ℕ × Bool)} {free : Bool} :
    (setRegister table r free).lookup t = if t = r then some free else table.lookup t := by
  unfold setRegister
  split
  · exact lookup_overwrite ‹_›
  · rename_i h
    exact lookup_append_of_none (Option.not_isSome_iff_eq_none.mp h)

theorem keys_setRegister {table : List (ℕ × Bool)} {free : Bool} :
    (setRegister table r free).map Prod.fst =
      if (table.lookup r).isSome then table.map Prod.fst else table.map Prod.fst ++ [r] := by
  unfold setRegister
  split
  · rw [List.map_map]
    apply List.map_congr_left
    intro entry _
    by_cases h : entry.1 = r <;> simp [h]
  · simp

theorem WellFormed.mem_iff (h : fk.WellFormed) :
    (fk.registerTable.lookup r).isSome ↔
      fk.symbolTable.length < r ∧ r ≤ fk.symbolTable.length + fk.registerTable.length := by
  rw [lookup_isSome_iff, h, List.mem_range'_1]
  omega

theorem InUse.isSome (hr : fk.InUse r) : (fk.registerTable.lookup r).isSome := by
  rw [InUse] at hr
  rw [hr]
  rfl

theorem InUse.above (h : fk.WellFormed) (hr : fk.InUse r) : fk.symbolTable.length < r :=
  (h.mem_iff.mp hr.isSome).1

theorem WellFormed.setRegister (h : fk.WellFormed) {free : Bool}
    (hr : (fk.registerTable.lookup r).isSome ∨
      r = fk.registerTable.length + fk.symbolTable.length + 1) :
    WellFormed { fk with registerTable := setRegister fk.registerTable r free } := by
  have hkeys := @keys_setRegister r fk.registerTable free
  have hlen := congrArg List.length hkeys
  unfold WellFormed at h ⊢
  dsimp only
  by_cases hs : (fk.registerTable.lookup r).isSome
  · rw [if_pos hs] at hkeys hlen
    simp only [List.length_map] at hlen
    rw [hkeys, hlen, h]
  · rw [if_neg hs] at hkeys hlen
    simp only [List.length_map, List.length_append, List.length_singleton] at hlen
    rw [hkeys, hlen, h, List.range'_concat, hr.resolve_left hs]
    congr 2
    omega

theorem scan_spec (table : List (ℕ × Bool)) (size a m : ℕ)
    (hkeys : ∀ i, i < m → (table.lookup (a + i + size)).isSome) :
    let scan := (List.range' a m).foldr
      (fun i rest => match table.lookup (i + size) with
        | none => none
        | some true => some (some (i + size))
        | some false => rest)
      (some none)
    (∃ i, i < m ∧ scan = some (some (a + i + size)) ∧ table.lookup (a + i + size) = some true) ∨
      scan = some none := by
  induction m generalizing a with
  | zero => exact Or.inr rfl
  | succ m ih =>
    have h0 := hkeys 0 (Nat.succ_pos m)
    rw [Nat.add_zero] at h0
    simp only [List.range'_succ, List.foldr_cons]
    match hl : table.lookup (a + size) with
    | none => simp [hl] at h0
    | some true => exact Or.inl ⟨0, Nat.succ_pos m, by simp, by simpa using hl⟩
    | some false =>
      have hrest := ih (a + 1) fun i hi => by
        have := hkeys (i + 1) (by omega)
        rwa [show a + (i + 1) + size = a + 1 + i + size by omega] at this
      rcases hrest with ⟨i, hi, hs, hl'⟩ | hs
      · refine Or.inl ⟨i + 1, by omega, ?_, ?_⟩
        · rw [show a + (i + 1) + size = a + 1 + i + size by omega]
          exact hs
        · rw [show a + (i + 1) + size = a + 1 + i + size by omega]
          exact hl'
      · exact Or.inr hs

/-- On a well-formed table the scan never meets a missing key, and what it finds is free. -/
theorem WellFormed.firstFree (h : fk.WellFormed) :
    (∃ r, fk.firstFree = some (some r) ∧ fk.registerTable.lookup r = some true) ∨
      fk.firstFree = some none := by
  have hs := scan_spec fk.registerTable (fk.symbolTable.length + 1) 0 fk.registerTable.length
    fun i hi => h.mem_iff.mpr (by omega)
  rw [← List.range_eq_range'] at hs
  rcases hs with ⟨i, _, hs, hl⟩ | hs
  · exact Or.inl ⟨_, hs, hl⟩
  · exact Or.inr hs

/-- What handing out a temporary does: the index is new or was free, it is in use afterwards, and
every other entry is as it was. -/
structure Handed (fk : FunctionKind) (r : ℕ) (fk' : FunctionKind) : Prop where
  above : fk.symbolTable.length < r
  wasNotInUse : ¬ fk.InUse r
  lookup : ∀ t, fk'.registerTable.lookup t =
    if t = r then some false else fk.registerTable.lookup t
  symbolTable : fk'.symbolTable = fk.symbolTable
  wellFormed : fk'.WellFormed

theorem getTemporary_handed (h : fk.WellFormed) :
    ∃ r fk', fk.getTemporary = some (r, fk') ∧ Handed fk r fk' := by
  unfold getTemporary
  rcases h.firstFree with ⟨r, hf, hl⟩ | hf
  · have hsome : (fk.registerTable.lookup r).isSome := by rw [hl]; rfl
    rw [hf]
    exact ⟨r, _, rfl, (h.mem_iff.mp hsome).1, by simp [InUse, hl], fun t => lookup_setRegister,
      rfl, h.setRegister (Or.inl hsome)⟩
  · rw [hf]
    refine ⟨_, _, rfl, by omega, ?_, fun t => lookup_setRegister, rfl, h.setRegister (Or.inr rfl)⟩
    intro hu
    have hbound := (h.mem_iff.mp hu.isSome).2
    omega

structure Freed (fk : FunctionKind) (r : ℕ) (fk' : FunctionKind) : Prop where
  lookup : ∀ t, t ≠ r → fk'.registerTable.lookup t = fk.registerTable.lookup t
  symbolTable : fk'.symbolTable = fk.symbolTable
  wellFormed : fk'.WellFormed

theorem freeRegister_freed (h : fk.WellFormed) (r : ℕ) : Freed fk r (fk.freeRegister r) := by
  unfold freeRegister
  split
  · split
    · refine ⟨fun t ht => ?_, rfl, h.setRegister (Or.inl ‹_›)⟩
      rw [lookup_setRegister, if_neg ht]
    · exact ⟨fun _ _ => rfl, rfl, h⟩
  · exact ⟨fun _ _ => rfl, rfl, h⟩

end Zeroscript.FunctionKind
