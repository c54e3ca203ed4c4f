import Mathlib.Algebra.Group.Int.Defs
import Mathlib.Algebra.Group.Nat.Defs
import Zeroscript.Map
import Zeroscript.MapSizes

/-! # The list for the bags

`Map` has one list where `map.c` has ten bags of parallel arrays, chosen by a hash on 64 bits. On the
same inserts the two agree: on lookups, on the size, and on the order in which the keys are listed. -/
namespace Zeroscript.MapRefinement

open Chaining MapT

variable {β : Type}

theorem takeWhile_terminated (bytes : List UInt8) : 0 ∉ bytes.takeWhile (· ≠ 0) := by
  intro hmem
  simpa using List.mem_takeWhile_imp hmem

def cString (key : String) : CString := ⟨key.toUTF8.toList.takeWhile (· ≠ 0), takeWhile_terminated _⟩

def Terminated (key : String) : Prop := 0 ∉ key.toUTF8.toList

theorem cString_bytes {key : String} (h : Terminated key) : (cString key).bytes = key.toUTF8.toList := by
  refine List.takeWhile_eq_self_iff.mpr fun byte hbyte => ?_
  have hne : byte ≠ 0 := fun heq => h (heq ▸ hbyte)
  exact decide_eq_true hne

theorem toList_loop (bytes : ByteArray) (i : ℕ) (acc : List UInt8) :
    ByteArray.toList.loop bytes i acc = acc.reverse ++ bytes.data.toList.drop i := by
  by_cases hi : i < bytes.size
  · have hrest := toList_loop bytes (i + 1) (bytes.get! i :: acc)
    have hget : bytes.get! i = bytes.data.toList.get ⟨i, hi⟩ := getElem!_pos bytes.data i hi
    rw [ByteArray.toList.loop, if_pos hi, hrest, List.drop_eq_getElem_cons hi, hget, List.reverse_cons,
      List.append_assoc, List.singleton_append, List.get_eq_getElem]
  · rw [ByteArray.toList.loop, if_neg hi, List.drop_eq_nil_of_le (Nat.not_lt.mp hi), List.append_nil]
termination_by bytes.size - i

theorem toList_eq (bytes : ByteArray) : bytes.toList = bytes.data.toList := toList_loop bytes 0 []

theorem toUTF8_inj {key key' : String} (h : key.toUTF8.toList = key'.toUTF8.toList) : key = key' := by
  rw [toList_eq, toList_eq] at h
  exact String.toByteArray_inj.mp (ByteArray.ext (Array.toList_inj.mp h))

theorem cString_inj {key key' : String} (h : Terminated key) (h' : Terminated key') :
    cString key = cString key' ↔ key = key' := by
  refine ⟨fun heq => ?_, fun heq => congrArg cString heq⟩
  have hbytes := congrArg CString.bytes heq
  rw [cString_bytes h, cString_bytes h'] at hbytes
  exact toUTF8_inj hbytes

def flagBits (flags : MapFlags) : BitVec 64 :=
  (if flags.enumerable then 1 else 0) ||| (if flags.isPrivate then 2 else 0)

@[simp] theorem readInt_flagBits (flags : MapFlags) : readInt (flagBits flags) = flagBits flags := by
  obtain ⟨enumerable, isPrivate⟩ := flags
  cases enumerable <;> cases isPrivate <;> decide

theorem enumerableBit_flagBits (flags : MapFlags) : enumerableBit (flagBits flags) ≠ 0 ↔ flags.enumerable := by
  obtain ⟨enumerable, isPrivate⟩ := flags
  cases enumerable <;> cases isPrivate <;> decide

theorem signExtend_byte (byte : UInt8) : byte.toBitVec.signExtend 64 = BitVec.ofInt 64 (ZMap.signedByte byte) := by
  have hsigned : byte.toBitVec.toInt = ZMap.signedByte byte := by
    rw [BitVec.toInt_eq_toNat_cond]
    unfold ZMap.signedByte
    change (if 2 * byte.toNat < 2 ^ 8 then _ else _) = _
    split <;> split <;> first | rfl | omega
  rw [BitVec.signExtend, hsigned]

/-- A step of `get_hash` on integers is its step on 64 bits. -/
theorem hash_step (h : ℤ) (byte : UInt8) :
    BitVec.ofInt 64 ((h * 10 + ZMap.signedByte byte - 48) % 2 ^ 64) =
      BitVec.ofInt 64 h * 10 + byte.toBitVec.signExtend 64 - 48 := by
  have hmod : BitVec.ofInt 64 ((h * 10 + ZMap.signedByte byte - 48) % 2 ^ 64) =
      BitVec.ofInt 64 (h * 10 + ZMap.signedByte byte - 48) := by
    refine BitVec.eq_of_toNat_eq ?_
    simp
  rw [hmod, signExtend_byte, Int.sub_eq_add_neg, BitVec.sub_eq_add_neg, BitVec.ofInt_add, BitVec.ofInt_add,
    BitVec.ofInt_mul]
  rfl

theorem hash_fold (bytes : List UInt8) (h : ℤ) :
    BitVec.ofInt 64 (bytes.foldl (fun h byte => (h * 10 + ZMap.signedByte byte - 48) % 2 ^ 64) h) =
      bytes.foldl (fun hash byte => hash * 10 + byte.toBitVec.signExtend 64 - 48) (BitVec.ofInt 64 h) := by
  induction bytes generalizing h with
  | nil => rfl
  | cons byte bytes ih => rw [List.foldl_cons, List.foldl_cons, ih, hash_step]

theorem hash_bounds (bytes : List UInt8) {h : ℤ} (hlow : 0 ≤ h) (hhigh : h < 2 ^ 64) :
    0 ≤ bytes.foldl (fun h byte => (h * 10 + ZMap.signedByte byte - 48) % 2 ^ 64) h ∧
      bytes.foldl (fun h byte => (h * 10 + ZMap.signedByte byte - 48) % 2 ^ 64) h < 2 ^ 64 := by
  induction bytes generalizing h with
  | nil => exact ⟨hlow, hhigh⟩
  | cons byte bytes ih =>
    exact ih (Int.emod_nonneg _ (by decide)) (Int.emod_lt_of_pos _ (by decide))

theorem getHash_cString {key : String} (h : Terminated key) : (getHash (cString key)).val = ZMap.hash key := by
  have hfold := hash_fold key.toUTF8.toList 0
  obtain ⟨hlow, hhigh⟩ := hash_bounds key.toUTF8.toList (h := 0) (by decide) (by decide)
  unfold getHash ZMap.hash
  dsimp only
  rw [cString_bytes h]
  change (List.foldl _ (BitVec.ofInt 64 0) _).toNat % 10 = _
  rw [← hfold, BitVec.toNat_ofInt]
  exact congrArg (fun h => h.toNat % 10) (Int.emod_eq_of_lt hlow hhigh)

def pair (entry : MapEntry β) : CString × β × BitVec 64 :=
  (cString entry.key, entry.value, flagBits entry.flags)

/-- The bags hold the entries of the list. -/
structure Refines (m : MapT β) (z : ZMap β) : Prop where
  represents : m.Represents (Table.spread getHash (z.entries.map pair))
  isImmutable : m.isImmutable = z.isImmutable
  size : m.size = z.size
  terminated : ∀ entry ∈ z.entries, Terminated entry.key
  nodup : (z.entries.map (·.key)).Nodup

theorem new_refines : Refines (.new : MapT β) .new where
  represents := new_represents
  isImmutable := rfl
  size := rfl
  terminated _ h := absurd h List.not_mem_nil
  nodup := List.nodup_nil

theorem lookup_pair {entries : List (MapEntry β)} (hterminated : ∀ entry ∈ entries, Terminated entry.key)
    {key : String} (hkey : Terminated key) :
    (entries.map pair).lookup (cString key) =
      (entries.find? (·.key = key)).map fun entry => (entry.value, flagBits entry.flags) := by
  induction entries with
  | nil => rfl
  | cons entry entries ih =>
    have hentry := hterminated entry List.mem_cons_self
    have hrest := ih fun entry hentry => hterminated entry (List.mem_cons_of_mem _ hentry)
    rw [List.map_cons, List.lookup_cons, List.find?_cons, hrest]
    by_cases heq : entry.key = key
    · simp [pair, heq]
    · have hne : cString key ≠ cString entry.key := fun h => heq ((cString_inj hkey hentry).mp h).symm
      simp [pair, heq, beq_eq_false_iff_ne.mpr hne]

theorem put_pair {entries : List (MapEntry β)} (hterminated : ∀ entry ∈ entries, Terminated entry.key)
    (hnodup : (entries.map (·.key)).Nodup) {key : String} (hkey : Terminated key) (value : β) (flags : MapFlags) :
    Chaining.put (cString key) (value, flagBits flags) (entries.map pair) =
      (if entries.any (·.key = key) then ZMap.replace entries key value flags
        else entries ++ [⟨key, value, flags⟩]).map pair := by
  induction entries with
  | nil => rfl
  | cons entry entries ih =>
    have hentry := hterminated entry List.mem_cons_self
    rw [List.map_cons] at hnodup
    obtain ⟨hnotin, hnodup⟩ := List.nodup_cons.mp hnodup
    have hrest := ih (fun entry hentry => hterminated entry (List.mem_cons_of_mem _ hentry)) hnodup
    rw [List.map_cons, Chaining.put]
    by_cases heq : entry.key = key
    · -- the key is nowhere else
      have hsame : ZMap.replace entries key value flags = entries := by
        refine (List.map_congr_left fun other hother => ?_).trans (List.map_id _)
        refine if_neg fun h => hnotin ?_
        rw [heq, ← h]
        exact List.mem_map_of_mem hother
      have hreplace : ZMap.replace (entry :: entries) key value flags =
          ⟨key, value, flags⟩ :: ZMap.replace entries key value flags := by
        simp [ZMap.replace, heq]
      have hfirst : (pair entry).1 = cString key := congrArg cString heq
      rw [if_pos hfirst, if_pos (by simp [heq]), hreplace, hsame]
      rfl
    · have hne : (pair entry).1 ≠ cString key := fun h => heq ((cString_inj hentry hkey).mp h)
      have hany : (entry :: entries).any (·.key = key) = entries.any (·.key = key) := by simp [heq]
      have hreplace : ZMap.replace (entry :: entries) key value flags =
          entry :: ZMap.replace entries key value flags := by
        simp [ZMap.replace, heq]
      rw [if_neg hne, hrest, hany, hreplace]
      split <;> rfl

theorem keys_replace (entries : List (MapEntry β)) (key : String) (value : β) (flags : MapFlags) :
    (ZMap.replace entries key value flags).map (·.key) = entries.map (·.key) := by
  unfold ZMap.replace
  rw [List.map_map]
  refine List.map_congr_left fun entry _ => ?_
  by_cases heq : entry.key = key <;> simp [heq]

theorem keys_insertFlags (z : ZMap β) (hmutable : z.isImmutable = false) (key : String) (value : β)
    (flags : MapFlags) : (z.insertFlags key value flags).entries.map (·.key) =
      if z.entries.any (·.key = key) then z.entries.map (·.key) else z.entries.map (·.key) ++ [key] := by
  unfold ZMap.insertFlags
  rw [if_neg (by simp [hmutable])]
  split
  · exact keys_replace z.entries key value flags
  · exact List.map_append

theorem Refines.insertFlags {m : MapT β} {z : ZMap β} (h : Refines m z) {key : String} (hkey : Terminated key)
    (value : β) (flags : MapFlags) :
    ∃ m', m.insertFlags (cString key) value (flagBits flags) = some m' ∧
      Refines m' (z.insertFlags key value flags) := by
  by_cases hfrozen : z.isImmutable
  · refine ⟨m, MapOperation.frozen_insertFlags (h.isImmutable.trans hfrozen) _ _ _, ?_⟩
    rwa [ZMap.insertFlags, if_pos hfrozen]
  · have hmutable : z.isImmutable = false := Bool.eq_false_iff.mpr hfrozen
    obtain ⟨m', hinsert, hmutable', hrepresents⟩ :=
      insertFlags_represents h.represents (h.isImmutable.trans hmutable) (cString key) value (flagBits flags)
    have hsize := MapSizes.insertFlags_size h.represents (h.isImmutable.trans hmutable) hinsert
    have hkeys := keys_insertFlags z hmutable key value flags
    have hnew : z.entries.any (·.key = key) = false ↔ key ∉ z.entries.map (·.key) := by
      simp [List.any_eq_false]
    refine ⟨m', hinsert, ?_, ?_, ?_, ?_, ?_⟩
    · rw [← Table.spread_put, put_pair h.terminated h.nodup hkey] at hrepresents
      unfold ZMap.insertFlags
      rw [if_neg hfrozen]
      split
      · rwa [if_pos ‹_›] at hrepresents
      · rwa [if_neg ‹_›] at hrepresents
    · rw [ZMap.insertFlags_isImmutable, hmutable, hmutable']
    · have hfind : (Table.spread getHash (z.entries.map pair)).find getHash (cString key) = none ↔
          z.getFlags key = none := by
        rw [Table.find_spread, lookup_pair h.terminated hkey, ZMap.getFlags, Option.map_eq_none_iff,
          Option.map_eq_none_iff]
      rw [hsize, h.size, MapSizes.size_insertFlags hmutable]
      simp only [hfind, MapSizes.Enumerable, enumerableBit_flagBits]
    · intro entry hentry
      have hmem : entry.key ∈ (z.insertFlags key value flags).entries.map (·.key) := List.mem_map_of_mem hentry
      rw [hkeys] at hmem
      have hold : ∀ name ∈ z.entries.map (·.key), Terminated name := by
        intro name hname
        obtain ⟨old, hold, rfl⟩ := List.mem_map.mp hname
        exact h.terminated old hold
      split at hmem
      · exact hold _ hmem
      · rcases List.mem_append.mp hmem with hmem | hmem
        · exact hold _ hmem
        · rwa [List.mem_singleton.mp hmem]
    · rw [hkeys]
      split
      · exact h.nodup
      · have hfresh := hnew.mp (Bool.eq_false_iff.mpr ‹_›)
        exact List.nodup_append.mpr ⟨h.nodup, List.nodup_singleton key, by simpa using hfresh⟩

theorem Refines.getFlags {m : MapT β} {z : ZMap β} (h : Refines m z) {key : String} (hkey : Terminated key) :
    m.getFlags (cString key) = some ((z.getFlags key).map fun entry => (entry.1, flagBits entry.2)) := by
  rw [getFlags_of_represents h.represents, Table.find_spread, lookup_pair h.terminated hkey, ZMap.getFlags,
    Option.map_map, Option.map_map]
  congr 2
  funext entry
  exact congrArg (Prod.mk entry.value) (readInt_flagBits entry.flags)

theorem select_pair {entries : List (MapEntry β)} (hterminated : ∀ entry ∈ entries, Terminated entry.key)
    (bag : Fin 10) :
    ((Table.spread getHash (entries.map pair) bag).filter fun entry => enumerableBit entry.2.2 ≠ 0).map Prod.fst =
      ((entries.filter fun entry => ZMap.hash entry.key == bag.val && entry.flags.enumerable).map
        (·.key)).map cString := by
  unfold Table.spread
  rw [List.filter_filter, List.filter_map, List.map_map, List.map_map]
  refine congrArg _ (List.filter_congr fun entry hentry => ?_)
  have hhash : getHash (cString entry.key) = bag ↔ ZMap.hash entry.key = bag.val := by
    rw [← getHash_cString (hterminated entry hentry), Fin.ext_iff]
  rw [Bool.eq_iff_iff, Bool.and_eq_true, beq_iff_eq, ← hhash, ← enumerableBit_flagBits]
  simp only [pair, Function.comp_apply, Bool.and_eq_true]
  exact ⟨fun h => ⟨of_decide_eq_true h.2, of_decide_eq_true h.1⟩,
    fun h => ⟨decide_eq_true h.2, decide_eq_true h.1⟩⟩

theorem Refines.keyList {m : MapT β} {z : ZMap β} (h : Refines m z) :
    ∃ keys, m.keyList = some keys ∧ keys.Holds (z.keyList.map cString) := by
  obtain ⟨keys, hkeys, hholds⟩ := keyList_of_represents h.represents
  refine ⟨keys, hkeys, ?_⟩
  have hlist : z.keyList.map cString = Table.select (fun entry => enumerableBit entry.2 ≠ 0)
      (Table.spread getHash (z.entries.map pair)) (List.finRange 10) := by
    unfold ZMap.keyList Table.select
    rw [List.map_flatMap, ← List.map_coe_finRange_eq_range, List.flatMap_map]
    exact List.flatMap_congr fun bag _ => (select_pair h.terminated bag).symm
  rw [hlist]
  exact hholds

inductive Call (β : Type) where
  | insert (key : String) (value : β) (flags : MapFlags)
  | freeze

namespace Call

def Terminated : Call β → Prop
  | .insert key _ _ => MapRefinement.Terminated key
  | .freeze => True

def apply (z : ZMap β) : Call β → ZMap β
  | .insert key value flags => z.insertFlags key value flags
  | .freeze => { z with isImmutable := true }

def operation : Call β → MapOperation β
  | .insert key value flags => .insert (cString key) value (flagBits flags)
  | .freeze => .freeze

end Call

theorem Refines.apply {m : MapT β} {z : ZMap β} (h : Refines m z) {call : Call β} (hcall : call.Terminated) :
    ∃ m', call.operation.apply m = some m' ∧ Refines m' (call.apply z) := by
  cases call with
  | insert key value flags => exact h.insertFlags hcall value flags
  | freeze => exact ⟨_, rfl, h.represents, rfl, h.size, h.terminated, h.nodup⟩

theorem Refines.run (calls : List (Call β)) {m : MapT β} {z : ZMap β} (h : Refines m z)
    (hcalls : ∀ call ∈ calls, call.Terminated) :
    ∃ m', (calls.map Call.operation).foldlM MapOperation.apply m = some m' ∧
      Refines m' (calls.foldl Call.apply z) := by
  induction calls generalizing m z with
  | nil => exact ⟨m, rfl, h⟩
  | cons call calls ih =>
    obtain ⟨next, hnext, hrefines⟩ := h.apply (hcalls call List.mem_cons_self)
    obtain ⟨m', hrun, hrefines'⟩ := ih hrefines fun call hcall => hcalls call (List.mem_cons_of_mem _ hcall)
    refine ⟨m', ?_, hrefines'⟩
    rw [List.map_cons, List.foldlM_cons, hnext]
    exact hrun

/-- After any run of inserts, some of them perhaps after `is_immutable` was set, the bags say what the
list says: on every lookup, on the size, and on the key list with its order. -/
theorem bags_refine_list (calls : List (Call β)) (hcalls : ∀ call ∈ calls, call.Terminated) :
    ∃ m, MapOperation.run (calls.map Call.operation) = some m ∧
      (∀ key, Terminated key → m.getFlags (cString key) =
        some (((calls.foldl Call.apply .new).getFlags key).map fun entry => (entry.1, flagBits entry.2))) ∧
      m.size = (calls.foldl Call.apply .new).size ∧
      ∃ keys, m.keyList = some keys ∧ keys.Holds ((calls.foldl Call.apply .new).keyList.map cString) := by
  obtain ⟨m, hrun, hrefines⟩ := new_refines.run calls hcalls
  exact ⟨m, hrun, fun key hkey => hrefines.getFlags hkey, hrefines.size, hrefines.keyList⟩

def colliding : List (Call ℕ) :=
  [.insert "a" 1 ⟨true, false⟩, .insert "k" 2 ⟨true, false⟩, .insert "a" 3 ⟨false, true⟩, .freeze]

theorem terminated_letter : Terminated "a" ∧ Terminated "k" := by
  unfold Terminated
  rw [toList_eq, toList_eq]
  decide

theorem colliding_refine :
    ∃ m, MapOperation.run (colliding.map Call.operation) = some m ∧
      (∀ key, Terminated key → m.getFlags (cString key) =
        some (((colliding.foldl Call.apply .new).getFlags key).map fun entry => (entry.1, flagBits entry.2))) ∧
      m.size = (colliding.foldl Call.apply .new).size ∧
      ∃ keys, m.keyList = some keys ∧ keys.Holds ((colliding.foldl Call.apply .new).keyList.map cString) := by
  refine bags_refine_list colliding ?_
  obtain ⟨ha, hk⟩ := terminated_letter
  simp [colliding, Call.Terminated, ha, hk]

end Zeroscript.MapRefinement
