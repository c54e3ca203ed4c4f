import Mathlib.Algebra.Group.Int.Defs
import Mathlib.Algebra.Group.Nat.Defs
import Zeroscript.ArrayList
import Zeroscript.Lib.Chaining

/-! # The bags of `map.c`

`Map` keeps the entries of a map in one list. Here are the ten bags themselves, each of three
parallel array lists, and what a run of inserts leaves in them. -/
namespace Zeroscript

/-- A `char *`, up to its terminating zero. -/
structure CString where
  bytes : List UInt8
  terminated : 0 ∉ bytes
  deriving DecidableEq

/-- `map_t`. The type of the values stands for `size_of_an_item`. -/
structure MapT (β : Type) where
  size : ℕ
  isImmutable : Bool
  keys : Fin 10 → Option (ArrayList CString)
  values : Fin 10 → Option (ArrayList β)
  flags : Fin 10 → Option (ArrayList (BitVec 64))

/-- `get_hash`, on a `uint_t`; a `char` is signed. -/
def getHash (value : CString) : Fin 10 :=
  ⟨(value.bytes.foldl (fun hash c => hash * 10 + c.toBitVec.signExtend 64 - 48) (0 : BitVec 64)).toNat % 10,
    Nat.mod_lt _ (by decide)⟩

def enumerableBit (flag : BitVec 64) : BitVec 64 := flag &&& 1

/-- `*((int *) …)` of an `int_t`: its first four bytes, with their sign. -/
def readInt (flag : BitVec 64) : BitVec 64 := (flag.setWidth 32).signExtend 64

namespace MapT

variable {β : Type}

def new : MapT β := ⟨0, false, fun _ => none, fun _ => none, fun _ => none⟩

/-- The loop over a bag that compares keys: `remaining` entries from the `i`-th. -/
def search (kbag : ArrayList CString) (key : CString) : (remaining i : ℕ) → Option (Option ℕ)
  | 0, _ => some none
  | remaining + 1, i => do
    let other ← kbag.get i
    if other = key then some (some i) else search kbag key remaining (i + 1)

/-- The test of `map_insert_flags` for a bag that is not there. -/
def createBag (m : MapT β) (hash : Fin 10) : MapT β :=
  if (m.values hash).isNone then
    { m with
      values := Function.update m.values hash (some .new)
      keys := Function.update m.keys hash (some .new)
      flags := Function.update m.flags hash (some .new) }
  else m

def insertFlags (m : MapT β) (key : CString) (value : β) (flag : BitVec 64) : Option (MapT β) :=
  if m.isImmutable then some m
  else do
    let hash := getHash key
    let m := m.createBag hash
    let vbag ← m.values hash
    let kbag ← m.keys hash
    let flags ← m.flags hash
    match ← search kbag key kbag.size 0 with
    | some i =>
      let vbag ← vbag.set value i
      let flags ← flags.set flag i
      some { m with
        values := Function.update m.values hash (some vbag)
        flags := Function.update m.flags hash (some flags) }
    | none =>
      let (kbag, _) ← kbag.push key
      let (vbag, _) ← vbag.push value
      let (flags, _) ← flags.push flag
      some { m with
        size := m.size + (enumerableBit flag).toNat
        keys := Function.update m.keys hash (some kbag)
        values := Function.update m.values hash (some vbag)
        flags := Function.update m.flags hash (some flags) }

def getFlags (m : MapT β) (key : CString) : Option (Option (β × BitVec 64)) :=
  let hash := getHash key
  match m.keys hash with
  | none => some none
  | some kbag => do
    match ← search kbag key kbag.size 0 with
    | none => some none
    | some i =>
      let fbag ← m.flags hash
      let flag ← fbag.get i
      let vbag ← m.values hash
      let value ← vbag.get i
      some (some (value, readInt flag))

/-- The inner loop of `map_key_list`: `remaining` entries of a bag from the `j`-th. -/
def listBag (kbag : ArrayList CString) (fbag : ArrayList (BitVec 64)) :
    (remaining j : ℕ) → ArrayList CString → Option (ArrayList CString)
  | 0, _, keys => some keys
  | remaining + 1, j, keys => do
    let flag ← fbag.get j
    if enumerableBit (readInt flag) = 0 then listBag kbag fbag remaining (j + 1) keys
    else do
      let key ← kbag.get j
      let (keys, _) ← keys.push key
      listBag kbag fbag remaining (j + 1) keys

def listFrom (m : MapT β) (keys : ArrayList CString) (i : Fin 10) : Option (ArrayList CString) :=
  match m.keys i with
  | none => some keys
  | some kbag => do
    let fbag ← m.flags i
    listBag kbag fbag kbag.size 0 keys

def keyList (m : MapT β) : Option (ArrayList CString) :=
  (List.finRange 10).foldlM m.listFrom .new

end MapT

inductive MapOperation (β : Type) where
  | insert (key : CString) (value : β) (flag : BitVec 64)
  | freeze

namespace MapOperation

variable {β : Type}

def apply (m : MapT β) : MapOperation β → Option (MapT β)
  | .insert key value flag => m.insertFlags key value flag
  | .freeze => some { m with isImmutable := true }

def run (ops : List (MapOperation β)) : Option (MapT β) := ops.foldlM apply .new

def isInsert : MapOperation β → Bool
  | .insert _ _ _ => true
  | .freeze => false

def inserts (key : CString) : MapOperation β → Option (β × BitVec 64)
  | .insert key' value flag => if key' = key then some (value, flag) else none
  | .freeze => none

/-- The latest insert of a key, before `is_immutable` is set. -/
def latest (ops : List (MapOperation β)) (key : CString) : Option (β × BitVec 64) :=
  (ops.takeWhile isInsert).reverse.findSome? (inserts key)

end MapOperation

theorem enumerableBit_readInt (flag : BitVec 64) : enumerableBit (readInt flag) = enumerableBit flag := by
  apply BitVec.eq_of_getLsbD_eq
  intro i hi
  unfold enumerableBit readInt
  by_cases hzero : i = 0
  · subst hzero
    simp [BitVec.getElem_signExtend]
  · simp [hzero]

def IsInt (flag : BitVec 64) : Prop := -2 ^ 31 ≤ flag.toInt ∧ flag.toInt < 2 ^ 31

theorem readInt_toInt (flag : BitVec 64) : (readInt flag).toInt = flag.toInt.bmod (2 ^ 32) := by
  unfold readInt
  rw [BitVec.toInt_signExtend_of_le (by omega), BitVec.toInt_setWidth, BitVec.toInt_eq_toNat_bmod,
    Int.bmod_bmod_of_dvd]
  decide

theorem readInt_eq_iff (flag : BitVec 64) : readInt flag = flag ↔ IsInt flag := by
  have hbounds : flag.toInt.bmod (2 ^ 32) = flag.toInt ↔ IsInt flag := by
    simp only [Int.bmod_def, IsInt]
    omega
  rw [← hbounds, ← readInt_toInt]
  constructor
  · intro heq
    rw [heq]
  · exact BitVec.eq_of_toInt_eq

namespace MapT

open Chaining

variable {β : Type}

abbrev Contents (β : Type) := Table CString (Fin 10) (β × BitVec 64)

structure Aligned (kbag : ArrayList CString) (vbag : ArrayList β) (fbag : ArrayList (BitVec 64))
    (bag : List (CString × β × BitVec 64)) : Prop where
  keys : kbag.Holds (bag.map fun entry => entry.1)
  values : vbag.Holds (bag.map fun entry => entry.2.1)
  flags : fbag.Holds (bag.map fun entry => entry.2.2)

/-- A bag that was never created has no entries. -/
def Stored (m : MapT β) (hash : Fin 10) (bag : List (CString × β × BitVec 64)) : Prop :=
  (m.keys hash = none ∧ m.values hash = none ∧ m.flags hash = none ∧ bag = []) ∨
    ∃ kbag vbag fbag, m.keys hash = some kbag ∧ m.values hash = some vbag ∧
      m.flags hash = some fbag ∧ Aligned kbag vbag fbag bag

def Represents (m : MapT β) (t : Contents β) : Prop := ∀ hash, m.Stored hash (t hash)

theorem new_represents : (new : MapT β).Represents fun _ => [] :=
  fun _ => .inl ⟨rfl, rfl, rfl, rfl⟩

theorem search_of_holds {kbag : ArrayList CString} {keys : List CString} (h : kbag.Holds keys)
    (key : CString) (remaining i : ℕ) (hbound : i + remaining = keys.length) :
    search kbag key remaining i =
      some (((keys.drop i).findIdx? (· = key)).map fun j => j + i) := by
  induction remaining generalizing i with
  | zero =>
    have hdrop : keys.drop i = [] := List.drop_eq_nil_of_le (by omega)
    rw [hdrop]
    rfl
  | succ remaining ih =>
    have hi : i < keys.length := by omega
    have hget := ArrayList.get_of_holds h hi
    rw [search, hget, List.drop_eq_getElem_cons hi, List.findIdx?_cons]
    by_cases hkey : keys[i] = key
    · simp [hkey]
    · have hrest := ih (i + 1) (by omega)
      simp only [Option.bind_eq_bind, Option.bind_some, if_neg hkey, decide_eq_false hkey, hrest,
        Bool.false_eq_true, if_false, Option.map_map]
      congr 2
      funext j
      simp only [Function.comp_apply]
      omega

theorem search_whole {kbag : ArrayList CString} {keys : List CString} (h : kbag.Holds keys)
    (key : CString) : search kbag key kbag.size 0 = some (keys.findIdx? (· = key)) := by
  rw [search_of_holds h key kbag.size 0 (by rw [h.size, Nat.zero_add])]
  simp

theorem createBag_aligned {m : MapT β} {hash : Fin 10} {bag : List (CString × β × BitVec 64)}
    (h : m.Stored hash bag) :
    ∃ kbag vbag fbag, (m.createBag hash).keys hash = some kbag ∧
      (m.createBag hash).values hash = some vbag ∧ (m.createBag hash).flags hash = some fbag ∧
      Aligned kbag vbag fbag bag := by
  unfold createBag
  rcases h with ⟨-, hvalues, -, rfl⟩ | ⟨kbag, vbag, fbag, hkeys, hvalues, hflags, h⟩
  · rw [if_pos (by rw [hvalues]; rfl)]
    refine ⟨.new, .new, .new, ?_, ?_, ?_, ?_⟩
    · exact Function.update_self ..
    · exact Function.update_self ..
    · exact Function.update_self ..
    · exact ⟨ArrayList.new_holds, ArrayList.new_holds, ArrayList.new_holds⟩
  · rw [if_neg (by rw [hvalues]; simp)]
    exact ⟨kbag, vbag, fbag, hkeys, hvalues, hflags, h⟩

theorem createBag_represents {m : MapT β} {t : Contents β} (h : m.Represents t) (hash : Fin 10) :
    (m.createBag hash).Represents t := by
  intro other
  by_cases hhash : other = hash
  · subst hhash
    exact .inr (createBag_aligned (h other))
  · unfold createBag
    split
    · have hother := h other
      unfold Stored at hother ⊢
      simp only [Function.update_of_ne hhash]
      exact hother
    · exact h other

@[simp] theorem createBag_isImmutable (m : MapT β) (hash : Fin 10) :
    (m.createBag hash).isImmutable = m.isImmutable := by
  unfold createBag
  split <;> rfl

theorem Represents.update {m m' : MapT β} {t : Contents β} (h : m.Represents t) {hash : Fin 10}
    {kbag : ArrayList CString} {vbag : ArrayList β} {fbag : ArrayList (BitVec 64)}
    {bag : List (CString × β × BitVec 64)}
    (hkeys : m'.keys = Function.update m.keys hash (some kbag))
    (hvalues : m'.values = Function.update m.values hash (some vbag))
    (hflags : m'.flags = Function.update m.flags hash (some fbag))
    (hbag : Aligned kbag vbag fbag bag) : m'.Represents (Function.update t hash bag) := by
  intro other
  by_cases hhash : other = hash
  · subst hhash
    refine .inr ⟨kbag, vbag, fbag, ?_, ?_, ?_, ?_⟩
    · rw [hkeys, Function.update_self]
    · rw [hvalues, Function.update_self]
    · rw [hflags, Function.update_self]
    · rw [Function.update_self]
      exact hbag
  · have hother := h other
    unfold Stored at hother ⊢
    rw [hkeys, hvalues, hflags]
    simp only [Function.update_of_ne hhash]
    exact hother

theorem insertFlags_represents {m : MapT β} {t : Contents β} (h : m.Represents t)
    (hmutable : m.isImmutable = false) (key : CString) (value : β) (flag : BitVec 64) :
    ∃ m', m.insertFlags key value flag = some m' ∧ m'.isImmutable = false ∧
      m'.Represents (t.put getHash key (value, flag)) := by
  obtain ⟨kbag, vbag, fbag, hkeys, hvalues, hflags, haligned⟩ := createBag_aligned (h (getHash key))
  have hcreated := createBag_represents h (getHash key)
  have hsearch := search_whole haligned.keys key
  rw [insertFlags, if_neg (by rw [hmutable]; simp)]
  simp only [Option.bind_eq_bind, hkeys, hvalues, hflags, Option.bind_some, hsearch]
  cases hfound : (List.map (fun entry => entry.1) (t (getHash key))).findIdx? (· = key) with
  | some i =>
    obtain ⟨hi, hput, hkeysput⟩ := put_of_findIdx_some (value, flag) hfound
    obtain ⟨vbag', hvset, hvbag⟩ :=
      ArrayList.set_holds haligned.values value (i := i) (by simpa using hi)
    obtain ⟨fbag', hfset, hfbag⟩ :=
      ArrayList.set_holds haligned.flags flag (i := i) (by simpa using hi)
    simp only [hvset, hfset, Option.bind_some]
    refine ⟨_, rfl, ?_, ?_⟩
    · simpa using hmutable
    · have hbag : Aligned kbag vbag' fbag'
          (Chaining.put key (value, flag) (t (getHash key))) := by
        refine ⟨?_, ?_, ?_⟩
        · rw [hkeysput]
          exact haligned.keys
        · rw [hput, List.map_set]
          exact hvbag
        · rw [hput, List.map_set]
          exact hfbag
      exact hcreated.update (Function.update_eq_self_iff.mpr hkeys.symm).symm rfl rfl hbag
  | none =>
    have hput := put_of_findIdx_none (value, flag) hfound
    obtain ⟨kbag', hkpush, hkbag⟩ := ArrayList.push_holds haligned.keys key
    obtain ⟨vbag', hvpush, hvbag⟩ := ArrayList.push_holds haligned.values value
    obtain ⟨fbag', hfpush, hfbag⟩ := ArrayList.push_holds haligned.flags flag
    simp only [hkpush, hvpush, hfpush, Option.bind_some]
    refine ⟨_, rfl, ?_, ?_⟩
    · simpa using hmutable
    · refine hcreated.update rfl rfl rfl ?_
      rw [hput]
      refine ⟨?_, ?_, ?_⟩
      · rw [List.map_append]
        exact hkbag
      · rw [List.map_append]
        exact hvbag
      · rw [List.map_append]
        exact hfbag

theorem getFlags_of_represents {m : MapT β} {t : Contents β} (h : m.Represents t) (key : CString) :
    m.getFlags key = some ((t.find getHash key).map fun entry => (entry.1, readInt entry.2)) := by
  unfold getFlags Table.find
  rcases h (getHash key) with ⟨hkeys, -, -, hempty⟩ |
      ⟨kbag, vbag, fbag, hkeys, hvalues, hflags, haligned⟩
  · simp only [hkeys, hempty]
    rfl
  · have hsearch := search_whole haligned.keys key
    simp only [hkeys, hvalues, hflags, hsearch, Option.bind_eq_bind, Option.bind_some]
    cases hfound : (List.map (fun entry => entry.1) (t (getHash key))).findIdx? (· = key) with
    | none =>
      rw [lookup_of_findIdx_none hfound]
      rfl
    | some i =>
      obtain ⟨hi, hlookup⟩ := lookup_of_findIdx_some hfound
      have hvget := ArrayList.get_of_holds haligned.values (i := i) (by simpa using hi)
      have hfget := ArrayList.get_of_holds haligned.flags (i := i) (by simpa using hi)
      simp only [hvget, hfget, hlookup, Option.bind_some, List.getElem_map, Option.map_some]

theorem listBag_of_aligned {kbag : ArrayList CString} {vbag : ArrayList β}
    {fbag : ArrayList (BitVec 64)} {bag : List (CString × β × BitVec 64)}
    (h : Aligned kbag vbag fbag bag) (remaining j : ℕ) (hbound : j + remaining = bag.length)
    {keys : ArrayList CString} {items : List CString} (hkeys : keys.Holds items) :
    ∃ keys', listBag kbag fbag remaining j keys = some keys' ∧ keys'.Holds (items ++
      ((bag.drop j).filter fun entry => enumerableBit entry.2.2 ≠ 0).map fun entry => entry.1) := by
  induction remaining generalizing j keys items with
  | zero =>
    have hdrop : bag.drop j = [] := List.drop_eq_nil_of_le (by omega)
    refine ⟨keys, rfl, ?_⟩
    rw [hdrop]
    simpa using hkeys
  | succ remaining ih =>
    have hj : j < bag.length := by omega
    have hkget := ArrayList.get_of_holds h.keys (i := j) (by simpa using hj)
    have hfget := ArrayList.get_of_holds h.flags (i := j) (by simpa using hj)
    rw [List.getElem_map] at hkget hfget
    rw [listBag, hfget, hkget, List.drop_eq_getElem_cons hj]
    simp only [Option.bind_eq_bind, Option.bind_some, enumerableBit_readInt]
    by_cases hbit : enumerableBit bag[j].2.2 = 0
    · obtain ⟨keys', hlist, hholds⟩ := ih (j + 1) (by omega) hkeys
      refine ⟨keys', ?_, ?_⟩
      · rw [if_pos hbit]
        exact hlist
      · rw [List.filter_cons_of_neg (by simp [hbit])]
        exact hholds
    · obtain ⟨pushed, hpush, hpushed⟩ := ArrayList.push_holds hkeys bag[j].1
      obtain ⟨keys', hlist, hholds⟩ := ih (j + 1) (by omega) hpushed
      refine ⟨keys', ?_, ?_⟩
      · rw [if_neg hbit, hpush]
        exact hlist
      · have hselected : decide (enumerableBit bag[j].2.2 ≠ 0) = true := decide_eq_true hbit
        rw [List.filter_cons, if_pos hselected, List.map_cons]
        rw [List.append_assoc] at hholds
        exact hholds

theorem listFrom_of_represents {m : MapT β} {t : Contents β} (h : m.Represents t) (i : Fin 10)
    {keys : ArrayList CString} {items : List CString} (hkeys : keys.Holds items) :
    ∃ keys', m.listFrom keys i = some keys' ∧ keys'.Holds (items ++
      ((t i).filter fun entry => enumerableBit entry.2.2 ≠ 0).map fun entry => entry.1) := by
  unfold listFrom
  rcases h i with ⟨hnone, -, -, hempty⟩ | ⟨kbag, vbag, fbag, hkbag, -, hfbag, haligned⟩
  · refine ⟨keys, ?_, ?_⟩
    · rw [hnone]
    · simpa [hempty] using hkeys
  · have hsize : 0 + kbag.size = (t i).length := by
      rw [Nat.zero_add, haligned.keys.size, List.length_map]
    obtain ⟨keys', hlist, hholds⟩ := listBag_of_aligned haligned kbag.size 0 hsize hkeys
    refine ⟨keys', ?_, hholds⟩
    simp only [hkbag, hfbag, Option.bind_eq_bind, Option.bind_some]
    exact hlist

theorem keyList_of_represents {m : MapT β} {t : Contents β} (h : m.Represents t) :
    ∃ keys, m.keyList = some keys ∧
      keys.Holds (t.select (fun entry => enumerableBit entry.2 ≠ 0) (List.finRange 10)) := by
  have hloop : ∀ (bags : List (Fin 10)) (keys : ArrayList CString) (items : List CString),
      keys.Holds items → ∃ keys', bags.foldlM m.listFrom keys = some keys' ∧
        keys'.Holds (items ++ t.select (fun entry => enumerableBit entry.2 ≠ 0) bags) := by
    intro bags
    induction bags with
    | nil =>
      intro keys items hkeys
      refine ⟨keys, rfl, ?_⟩
      rw [Table.select, List.flatMap_nil, List.append_nil]
      exact hkeys
    | cons i bags ih =>
      intro keys items hkeys
      obtain ⟨next, hnext, hholds⟩ := listFrom_of_represents h i hkeys
      obtain ⟨keys', hfold, hholds⟩ := ih next _ hholds
      refine ⟨keys', ?_, ?_⟩
      · rw [List.foldlM_cons, hnext]
        exact hfold
      · rw [List.append_assoc] at hholds
        exact hholds
  exact hloop (List.finRange 10) .new [] ArrayList.new_holds

end MapT

namespace MapOperation

open MapT Chaining

variable {β : Type}

theorem latest_cons_insert (key key' : CString) (value : β) (flag : BitVec 64)
    (ops : List (MapOperation β)) :
    latest (.insert key value flag :: ops) key' =
      (latest ops key').or (if key = key' then some (value, flag) else none) := by
  unfold latest
  rw [List.takeWhile_cons_of_pos rfl, List.reverse_cons, List.findSome?_append]
  congr 1
  rw [List.findSome?_singleton]
  rfl

theorem frozen_insertFlags {m : MapT β} (h : m.isImmutable = true) (key : CString) (value : β)
    (flag : BitVec 64) : m.insertFlags key value flag = some m := by
  rw [insertFlags, if_pos h]

theorem frozen_run (ops : List (MapOperation β)) {m : MapT β} (h : m.isImmutable = true) :
    ops.foldlM apply m = some m := by
  induction ops with
  | nil => rfl
  | cons op ops ih =>
    have hstep : apply m op = some m := by
      cases op with
      | insert key value flag => exact frozen_insertFlags h key value flag
      | freeze =>
        obtain ⟨size, isImmutable, keys, values, flags⟩ := m
        obtain rfl : isImmutable = true := h
        rfl
    rw [List.foldlM_cons, hstep]
    exact ih

theorem run_represents (ops : List (MapOperation β)) {m : MapT β} {t : Contents β}
    (h : m.Represents t) (hplaced : t.WellPlaced getHash) (hmutable : m.isImmutable = false) :
    ∃ m' t', ops.foldlM apply m = some m' ∧ m'.Represents t' ∧ t'.WellPlaced getHash ∧
      (∀ key, t'.find getHash key = (latest ops key).or (t.find getHash key)) ∧
      (freeze ∈ ops → m'.isImmutable = true) := by
  induction ops generalizing m t with
  | nil => exact ⟨m, t, rfl, h, hplaced, fun key => rfl, fun hmem => absurd hmem List.not_mem_nil⟩
  | cons op ops ih =>
    cases op with
    | freeze =>
      -- nothing changes from here on
      have hrun := frozen_run ops (m := { m with isImmutable := true }) rfl
      exact ⟨{ m with isImmutable := true }, t, hrun, h, hplaced, fun key => rfl, fun _ => rfl⟩
    | insert key value flag =>
      obtain ⟨next, hnext, hmutable, hrepresents⟩ := insertFlags_represents h hmutable key value flag
      obtain ⟨m', t', hrun, hrepresents, hplaced, hfind, hfrozen⟩ :=
        ih hrepresents (hplaced.put key (value, flag)) hmutable
      refine ⟨m', t', ?_, hrepresents, hplaced, ?_, ?_⟩
      · rw [List.foldlM_cons, apply, hnext]
        exact hrun
      · intro key'
        rw [hfind, latest_cons_insert, Table.find_put, Option.or_assoc]
        by_cases hkey : key' = key
        · simp [hkey]
        · simp [hkey, Ne.symm hkey]
      · intro hmem
        rcases List.mem_cons.mp hmem with heq | hmem
        · cases heq
        · exact hfrozen hmem

/-- A map after a run says of every key what its latest insert said. -/
structure Right (ops : List (MapOperation β)) (m : MapT β) : Prop where
  lookup : ∀ key, m.getFlags key = some (latest ops key)
  listed : ∃ keys items, m.keyList = some keys ∧ keys.Holds items ∧ items.Nodup ∧
    ∀ key, key ∈ items ↔ ∃ value flag, latest ops key = some (value, flag) ∧ enumerableBit flag ≠ 0
  frozen : freeze ∈ ops → ∀ key value flag, m.insertFlags key value flag = some m

/-- Every run ends, and its map is right exactly if the latest flags are `int`s: `map_get_flags` and
`map_key_list` read four bytes of the eight that `map_insert_flags` stored. -/
theorem run_right_iff (ops : List (MapOperation β)) :
    ∃ m, run ops = some m ∧
      (Right ops m ↔ ∀ key value flag, latest ops key = some (value, flag) → IsInt flag) := by
  obtain ⟨m, t, hrun, hrepresents, hplaced, hfind, hfrozen⟩ :=
    run_represents ops new_represents Table.WellPlaced.empty rfl
  have hlatest : ∀ key, t.find getHash key = latest ops key := by
    intro key
    rw [hfind]
    exact Option.or_none
  refine ⟨m, hrun, ?_, ?_⟩
  · intro hright key value flag hkey
    have hget := getFlags_of_represents hrepresents key
    rw [hright.lookup, hlatest, hkey] at hget
    have hflag : flag = readInt flag := by simpa using hget
    exact (readInt_eq_iff flag).mp hflag.symm
  · intro hint
    refine ⟨?_, ?_, ?_⟩
    · intro key
      rw [getFlags_of_represents hrepresents, hlatest]
      cases hkey : latest ops key with
      | none => rfl
      | some entry =>
        have hflag := (readInt_eq_iff entry.2).mpr (hint key entry.1 entry.2 hkey)
        rw [Option.map_some, hflag]
    · obtain ⟨keys, hkeys, hholds⟩ := keyList_of_represents hrepresents
      refine ⟨keys, _, hkeys, hholds, Table.select_nodup hplaced _ (List.nodup_finRange 10), ?_⟩
      intro key
      rw [Table.mem_select hplaced _ (List.mem_finRange _), hlatest]
      constructor
      · rintro ⟨⟨value, flag⟩, hkey, hbit⟩
        exact ⟨value, flag, hkey, of_decide_eq_true hbit⟩
      · rintro ⟨value, flag, hkey, hbit⟩
        exact ⟨(value, flag), hkey, decide_eq_true hbit⟩
    · intro hmem
      exact frozen_insertFlags (hfrozen hmem)

def wideFlag : List (MapOperation ℕ) := [.insert ⟨[97], by decide⟩ 7 (1#64 <<< 32)]

/-- The flag is read back as 0. -/
theorem wideFlag_wrong :
    ((run wideFlag).bind fun m => m.getFlags ⟨[97], by decide⟩) = some (some (7, 0)) ∧
      ¬ ∃ m, run wideFlag = some m ∧ Right wideFlag m := by
  have hlatest : latest wideFlag ⟨[97], by decide⟩ = some (7, 1#64 <<< 32) := by decide
  have hget : ((run wideFlag).bind fun m => m.getFlags ⟨[97], by decide⟩) = some (some (7, 0)) := by
    decide
  refine ⟨hget, ?_⟩
  rintro ⟨m, hrun, hright⟩
  rw [hrun, Option.bind_some, hright.lookup, hlatest] at hget
  exact absurd hget (by decide)

end MapOperation

end Zeroscript
