import Mathlib.Data.List.Basic
import Mathlib.Data.List.Nodup
import Mathlib.Logic.Function.Basic

/-! # Separate chaining

A table of bags, each a list of entries, with a key in the bag of its hash. A put changes the entry
of its key in place, or appends one. -/
namespace Chaining

variable {κ ι β : Type} [DecidableEq κ] [DecidableEq ι]

/-- Overwrite the first entry of a key, or append one. -/
def put (key : κ) (value : β) : List (κ × β) → List (κ × β)
  | [] => [(key, value)]
  | entry :: bag => if entry.1 = key then (key, value) :: bag else entry :: put key value bag

theorem put_of_findIdx_some {key : κ} {bag : List (κ × β)} {i : ℕ} (value : β)
    (h : (bag.map Prod.fst).findIdx? (· = key) = some i) :
    i < bag.length ∧ put key value bag = bag.set i (key, value) ∧
      (put key value bag).map Prod.fst = bag.map Prod.fst := by
  induction bag generalizing i with
  | nil => exact absurd h (by simp)
  | cons entry bag ih =>
    rw [List.map_cons, List.findIdx?_cons] at h
    rw [put]
    by_cases hkey : entry.1 = key
    · have hi : i = 0 := by simpa [hkey] using h.symm
      subst hi
      rw [if_pos hkey, List.map_cons, List.map_cons, hkey]
      exact ⟨Nat.succ_pos _, rfl, rfl⟩
    · rw [decide_eq_false hkey] at h
      obtain ⟨j, hj, rfl⟩ := Option.map_eq_some_iff.mp h
      obtain ⟨hlt, heq, hkeys⟩ := ih hj
      rw [if_neg hkey, List.map_cons, List.map_cons, hkeys, heq]
      exact ⟨Nat.succ_lt_succ hlt, rfl, rfl⟩

theorem put_of_findIdx_none {key : κ} {bag : List (κ × β)} (value : β)
    (h : (bag.map Prod.fst).findIdx? (· = key) = none) :
    put key value bag = bag ++ [(key, value)] := by
  induction bag with
  | nil => rfl
  | cons entry bag ih =>
    rw [List.map_cons, List.findIdx?_cons] at h
    by_cases hkey : entry.1 = key
    · exact absurd h (by simp [hkey])
    · have hrest : (bag.map Prod.fst).findIdx? (· = key) = none := by simpa [hkey] using h
      rw [put, if_neg hkey, ih hrest]
      rfl

theorem lookup_of_findIdx_none {key : κ} {bag : List (κ × β)}
    (h : (bag.map Prod.fst).findIdx? (· = key) = none) : bag.lookup key = none := by
  rw [List.findIdx?_eq_none_iff] at h
  rw [List.lookup_eq_none_iff]
  intro entry hentry
  have hne : entry.1 ≠ key := by simpa using h entry.1 (List.mem_map_of_mem hentry)
  simpa using hne.symm

theorem lookup_of_findIdx_some {key : κ} {bag : List (κ × β)} {i : ℕ}
    (h : (bag.map Prod.fst).findIdx? (· = key) = some i) :
    ∃ hi : i < bag.length, bag.lookup key = some bag[i].2 := by
  induction bag generalizing i with
  | nil => exact absurd h (by simp)
  | cons entry bag ih =>
    rw [List.map_cons, List.findIdx?_cons] at h
    by_cases hkey : entry.1 = key
    · have hi : i = 0 := by simpa [hkey] using h.symm
      subst hi
      refine ⟨Nat.succ_pos _, ?_⟩
      rw [List.lookup_cons, hkey, beq_self_eq_true]
      rfl
    · rw [decide_eq_false hkey] at h
      obtain ⟨j, hj, rfl⟩ := Option.map_eq_some_iff.mp h
      obtain ⟨hlt, hlookup⟩ := ih hj
      have hne : (key == entry.1) = false := beq_eq_false_iff_ne.mpr fun heq => hkey heq.symm
      refine ⟨Nat.succ_lt_succ hlt, ?_⟩
      rw [List.lookup_cons, hne]
      exact hlookup

theorem lookup_put_self (key : κ) (value : β) (bag : List (κ × β)) :
    (put key value bag).lookup key = some value := by
  induction bag with
  | nil => simp [put]
  | cons entry bag ih =>
    rw [put]
    by_cases hkey : entry.1 = key
    · simp [hkey]
    · have hne : (key == entry.1) = false := beq_eq_false_iff_ne.mpr fun heq => hkey heq.symm
      rw [if_neg hkey, List.lookup_cons, hne]
      exact ih

theorem lookup_put_of_ne {key key' : κ} (value : β) (bag : List (κ × β)) (hne : key' ≠ key) :
    (put key value bag).lookup key' = bag.lookup key' := by
  have hfalse : (key' == key) = false := beq_eq_false_iff_ne.mpr hne
  induction bag with
  | nil => simp [put, hne]
  | cons entry bag ih =>
    rw [put]
    by_cases hkey : entry.1 = key
    · rw [if_pos hkey, List.lookup_cons, List.lookup_cons, hkey, hfalse]
    · rw [if_neg hkey, List.lookup_cons, List.lookup_cons, ih]

theorem mem_keys_put {key key' : κ} {value : β} {bag : List (κ × β)} :
    key' ∈ (put key value bag).map Prod.fst ↔ key' = key ∨ key' ∈ bag.map Prod.fst := by
  induction bag with
  | nil => simp [put]
  | cons entry bag ih =>
    rw [put]
    by_cases hkey : entry.1 = key
    · rw [if_pos hkey, List.map_cons, List.map_cons, List.mem_cons, List.mem_cons, hkey]
      tauto
    · rw [if_neg hkey, List.map_cons, List.map_cons, List.mem_cons, List.mem_cons, ih]
      tauto

theorem nodup_put (key : κ) (value : β) {bag : List (κ × β)} (h : (bag.map Prod.fst).Nodup) :
    ((put key value bag).map Prod.fst).Nodup := by
  induction bag with
  | nil => simp [put]
  | cons entry bag ih =>
    rw [List.map_cons] at h
    obtain ⟨hnotin, hrest⟩ := List.nodup_cons.mp h
    rw [put]
    by_cases hkey : entry.1 = key
    · rw [if_pos hkey, List.map_cons, ← hkey]
      exact h
    · rw [if_neg hkey, List.map_cons, List.nodup_cons]
      refine ⟨?_, ih hrest⟩
      intro hmem
      rcases mem_keys_put.mp hmem with heq | hmem
      · exact hkey heq
      · exact hnotin hmem

theorem mem_iff_lookup {bag : List (κ × β)} (h : (bag.map Prod.fst).Nodup) {key : κ} {value : β} :
    (key, value) ∈ bag ↔ bag.lookup key = some value := by
  induction bag with
  | nil => simp
  | cons entry bag ih =>
    rw [List.map_cons] at h
    obtain ⟨hnotin, hrest⟩ := List.nodup_cons.mp h
    obtain ⟨key₀, value₀⟩ := entry
    rw [List.mem_cons, ih hrest, List.lookup_cons]
    by_cases hkey : key = key₀
    · subst hkey
      have hnone : bag.lookup key = none := by
        rw [List.lookup_eq_none_iff]
        intro entry hentry
        have hmem : entry.1 ∈ bag.map Prod.fst := List.mem_map_of_mem hentry
        have hne : key ≠ entry.1 := fun heq => hnotin (heq ▸ hmem)
        simpa using hne
      rw [hnone]
      simp [eq_comm]
    · have hne : (key == key₀) = false := beq_eq_false_iff_ne.mpr hkey
      simp [hne, hkey]

abbrev Table (κ ι β : Type) := ι → List (κ × β)

namespace Table

variable (hash : κ → ι)

def put (t : Table κ ι β) (key : κ) (value : β) : Table κ ι β :=
  Function.update t (hash key) (Chaining.put key value (t (hash key)))

def find (t : Table κ ι β) (key : κ) : Option β := (t (hash key)).lookup key

/-- Every key is in the bag of its hash, and there once. -/
structure WellPlaced (t : Table κ ι β) : Prop where
  nodup : ∀ i, ((t i).map Prod.fst).Nodup
  placed : ∀ i, ∀ key ∈ (t i).map Prod.fst, hash key = i

variable {hash}

omit [DecidableEq κ] [DecidableEq ι] in
theorem WellPlaced.empty : WellPlaced hash (fun _ => [] : Table κ ι β) :=
  ⟨fun _ => List.nodup_nil, fun _ _ h => absurd h List.not_mem_nil⟩

theorem WellPlaced.put {t : Table κ ι β} (h : WellPlaced hash t) (key : κ) (value : β) :
    WellPlaced hash (t.put hash key value) := by
  constructor
  · intro i
    unfold Table.put
    by_cases hi : i = hash key
    · subst hi
      rw [Function.update_self]
      exact nodup_put key value (h.nodup _)
    · rw [Function.update_of_ne hi]
      exact h.nodup i
  · intro i key' hmem
    unfold Table.put at hmem
    by_cases hi : i = hash key
    · subst hi
      rw [Function.update_self] at hmem
      rcases mem_keys_put.mp hmem with heq | hmem
      · rw [heq]
      · exact h.placed _ key' hmem
    · rw [Function.update_of_ne hi] at hmem
      exact h.placed i key' hmem

theorem find_put (t : Table κ ι β) (key key' : κ) (value : β) :
    (t.put hash key value).find hash key' = if key' = key then some value else t.find hash key' := by
  unfold Table.put Table.find
  by_cases hkey : key' = key
  · subst hkey
    rw [if_pos rfl, Function.update_self]
    exact lookup_put_self key' value _
  · rw [if_neg hkey]
    by_cases hhash : hash key' = hash key
    · rw [hhash, Function.update_self]
      exact lookup_put_of_ne value _ hkey
    · rw [Function.update_of_ne hhash]

def select (p : β → Bool) (t : Table κ ι β) (bags : List ι) : List κ :=
  bags.flatMap fun i => ((t i).filter fun entry => p entry.2).map Prod.fst

omit [DecidableEq κ] [DecidableEq ι] in
theorem select_nodup {t : Table κ ι β} (h : WellPlaced hash t) (p : β → Bool) {bags : List ι}
    (hbags : bags.Nodup) : (select p t bags).Nodup := by
  have hsub : ∀ i, (((t i).filter fun entry => p entry.2).map Prod.fst).Sublist ((t i).map Prod.fst) :=
    fun i => List.filter_sublist.map Prod.fst
  unfold select
  rw [List.nodup_flatMap]
  refine ⟨fun i _ => (hsub i).nodup (h.nodup i), hbags.imp ?_⟩
  intro i j hne key hi hj
  have hki := h.placed i key ((hsub i).subset hi)
  have hkj := h.placed j key ((hsub j).subset hj)
  exact hne (hki.symm.trans hkj)

omit [DecidableEq ι] in
theorem mem_select {t : Table κ ι β} (h : WellPlaced hash t) (p : β → Bool) {bags : List ι} {key : κ}
    (hkey : hash key ∈ bags) :
    key ∈ select p t bags ↔ ∃ value, t.find hash key = some value ∧ p value = true := by
  unfold select Table.find
  rw [List.mem_flatMap]
  constructor
  · rintro ⟨i, -, hmem⟩
    obtain ⟨⟨key', value⟩, hentry, rfl⟩ := List.mem_map.mp hmem
    obtain ⟨hentry, hp⟩ := List.mem_filter.mp hentry
    obtain rfl := h.placed i key' (List.mem_map_of_mem hentry)
    exact ⟨value, (mem_iff_lookup (h.nodup _)).mp hentry, hp⟩
  · rintro ⟨value, hfind, hp⟩
    have hentry := (mem_iff_lookup (h.nodup _)).mpr hfind
    exact ⟨hash key, hkey, List.mem_map.mpr ⟨(key, value), List.mem_filter.mpr ⟨hentry, hp⟩, rfl⟩⟩

/-- The entries of a list, in the bags of their keys. -/
def spread (hash : κ → ι) (entries : List (κ × β)) : Table κ ι β :=
  fun i => entries.filter fun entry => hash entry.1 = i

omit [DecidableEq ι] in
theorem filter_put {p : κ → Bool} {key : κ} {value : β} (entries : List (κ × β)) :
    (Chaining.put key value entries).filter (fun entry => p entry.1) =
      if p key then Chaining.put key value (entries.filter fun entry => p entry.1)
      else entries.filter fun entry => p entry.1 := by
  induction entries with
  | nil => by_cases hp : p key <;> simp [Chaining.put, hp]
  | cons entry entries ih =>
    rw [Chaining.put]
    by_cases hkey : entry.1 = key
    · subst hkey
      by_cases hp : p entry.1 <;> simp [Chaining.put, hp]
    · by_cases hentry : p entry.1
      · by_cases hp : p key <;> simp [Chaining.put, hkey, hentry, hp, ih]
      · by_cases hp : p key <;> simp [hkey, hentry, hp, ih]

theorem spread_put {key : κ} {value : β} (entries : List (κ × β)) :
    spread hash (Chaining.put key value entries) = (spread hash entries).put hash key value := by
  funext i
  unfold spread Table.put
  rw [filter_put (p := fun key => hash key = i)]
  by_cases hi : i = hash key
  · subst hi
    rw [Function.update_self, if_pos (decide_eq_true rfl)]
  · rw [Function.update_of_ne hi, if_neg]
    simpa using Ne.symm hi

theorem find_spread {key : κ} (entries : List (κ × β)) :
    (spread hash entries).find hash key = entries.lookup key := by
  change (entries.filter fun entry => hash entry.1 = hash key).lookup key = entries.lookup key
  induction entries with
  | nil => rfl
  | cons entry entries ih =>
    by_cases hkey : key = entry.1
    · subst hkey
      rw [List.filter_cons, if_pos (decide_eq_true rfl), List.lookup_cons, List.lookup_cons, beq_self_eq_true]
    · have hne : (key == entry.1) = false := beq_eq_false_iff_ne.mpr hkey
      rw [List.lookup_cons, hne, ← ih, List.filter_cons]
      split
      · rw [List.lookup_cons, hne]
      · rfl

end Table

end Chaining
