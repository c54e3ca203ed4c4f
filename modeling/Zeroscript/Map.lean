import Mathlib.Algebra.Group.Int.Defs
import Mathlib.Data.Int.Basic
import Mathlib.Data.List.Basic

/-! # `common/data_structures/map.c`

Ten bags of parallel arrays, the bag chosen by a hash of the key. A lookup depends on the keys only,
so that one list in order of insertion stands for the bags; the hash matters for the order of keys. -/
namespace Zeroscript

structure MapFlags where
  enumerable : Bool
  isPrivate : Bool
  deriving DecidableEq, Repr

structure MapEntry (β : Type) where
  key : String
  value : β
  flags : MapFlags
  deriving Repr

structure ZMap (β : Type) where
  size : ℕ := 0
  isImmutable : Bool := false
  entries : List (MapEntry β) := []
  deriving Repr

namespace ZMap

variable {β : Type}

def new : ZMap β := {}

/-- A `char` is signed. -/
def signedByte (byte : UInt8) : ℤ := if byte.toNat < 128 then byte.toNat else byte.toNat - 256

/-- `get_hash`, on an unsigned 64-bit accumulator. -/
def hash (key : String) : ℕ :=
  (key.toUTF8.toList.foldl (fun h byte => (h * 10 + signedByte byte - 48) % 2 ^ 64) (0 : ℤ)).toNat % 10

def replace (entries : List (MapEntry β)) (key : String) (value : β) (flags : MapFlags) :
    List (MapEntry β) :=
  entries.map fun entry => if entry.key = key then ⟨key, value, flags⟩ else entry

/-- `map_insert_flags`. The size counts the keys that were enumerable when they came. -/
def insertFlags (m : ZMap β) (key : String) (value : β) (flags : MapFlags) : ZMap β :=
  if m.isImmutable then m
  else if m.entries.any (·.key = key) then { m with entries := replace m.entries key value flags }
  else { m with
    size := m.size + (if flags.enumerable then 1 else 0)
    entries := m.entries ++ [⟨key, value, flags⟩] }

def insert (m : ZMap β) (key : String) (value : β) : ZMap β := m.insertFlags key value ⟨true, false⟩

def insertHidden (m : ZMap β) (key : String) (value : β) : ZMap β :=
  m.insertFlags key value ⟨false, false⟩

/-- `map_get_flags`. -/
def getFlags (m : ZMap β) (key : String) : Option (β × MapFlags) :=
  (m.entries.find? (·.key = key)).map fun entry => (entry.value, entry.flags)

def get (m : ZMap β) (key : String) : Option β := (m.getFlags key).map Prod.fst

/-- `map_key_list`: bag by bag. -/
def keyList (m : ZMap β) : List String :=
  (List.range 10).flatMap fun bag =>
    (m.entries.filter fun entry => hash entry.key == bag && entry.flags.enumerable).map (·.key)

theorem find_replace_of_ne (entries : List (MapEntry β)) {key key' : String} (value : β)
    (flags : MapFlags) (hne : key' ≠ key) :
    (replace entries key value flags).find? (·.key = key') = entries.find? (·.key = key') := by
  unfold replace
  induction entries with
  | nil => rfl
  | cons entry entries ih =>
    by_cases hkey : entry.key = key
    · have hentry : entry.key ≠ key' := fun h => hne (h.symm.trans hkey)
      simpa [List.find?_cons, hkey, hne.symm] using ih
    · simp only [List.map_cons, if_neg hkey, List.find?_cons]
      split
      · rfl
      · exact ih

theorem getFlags_insertFlags_of_ne (m : ZMap β) {key key' : String} (value : β) (flags : MapFlags)
    (hne : key' ≠ key) : (m.insertFlags key value flags).getFlags key' = m.getFlags key' := by
  unfold insertFlags getFlags
  split
  · rfl
  · split
    · rw [find_replace_of_ne _ _ _ hne]
    · rw [List.find?_append]
      have hsingle : [(⟨key, value, flags⟩ : MapEntry β)].find? (·.key = key') = none := by
        simp [hne.symm]
      rw [hsingle, Option.or_none]

theorem find_replace_self (entries : List (MapEntry β)) {key : String} (value : β) (flags : MapFlags)
    (h : entries.any (·.key = key)) :
    (replace entries key value flags).find? (·.key = key) = some ⟨key, value, flags⟩ := by
  unfold replace
  induction entries with
  | nil => cases h
  | cons entry entries ih =>
    by_cases hkey : entry.key = key
    · simp [hkey]
    · have hrest : entries.any (·.key = key) := by simpa [hkey] using h
      simpa [List.find?_cons, hkey] using ih hrest

theorem getFlags_insertFlags_self (m : ZMap β) {key : String} (value : β) (flags : MapFlags)
    (hmutable : m.isImmutable = false) :
    (m.insertFlags key value flags).getFlags key = some (value, flags) := by
  unfold insertFlags getFlags
  rw [if_neg (by simp [hmutable])]
  split
  · rename_i hany
    rw [find_replace_self _ _ _ hany]
    rfl
  · rename_i hany
    have hnone : m.entries.find? (·.key = key) = none := by
      simpa [List.find?_eq_none] using hany
    rw [List.find?_append, hnone]
    simp

theorem get_insert_of_ne (m : ZMap β) {key key' : String} (value : β) (hne : key' ≠ key) :
    (m.insert key value).get key' = m.get key' := by
  unfold get insert
  rw [getFlags_insertFlags_of_ne m value _ hne]

theorem get_insert_self (m : ZMap β) {key : String} (value : β) (hmutable : m.isImmutable = false) :
    (m.insert key value).get key = some value := by
  unfold get insert
  rw [getFlags_insertFlags_self m value _ hmutable]
  rfl

theorem get_of_mem_keyList {m : ZMap β} {key : String} (h : key ∈ m.keyList) :
    ∃ value, m.get key = some value := by
  unfold keyList at h
  obtain ⟨bag, -, h⟩ := List.mem_flatMap.mp h
  obtain ⟨entry, hentry, hkey⟩ := List.mem_map.mp h
  have hmem : entry ∈ m.entries := List.mem_of_mem_filter hentry
  have hsome : (m.entries.find? (·.key = key)).isSome := by
    rw [List.find?_isSome]
    exact ⟨entry, hmem, by simpa using hkey⟩
  obtain ⟨found, hfound⟩ := Option.isSome_iff_exists.mp hsome
  refine ⟨found.value, ?_⟩
  unfold get getFlags
  rw [hfound]
  rfl

@[simp] theorem insertFlags_isImmutable (m : ZMap β) (key : String) (value : β) (flags : MapFlags) :
    (m.insertFlags key value flags).isImmutable = m.isImmutable := by
  unfold insertFlags
  split
  · rfl
  · split <;> rfl

end ZMap

end Zeroscript
