import Mathlib.Data.Finset.Card
import Zeroscript.KeyLists
import Zeroscript.MapBags
import Zeroscript.Scopes

/-! # The size of a map and the number of its keys

`map_insert_flags` counts a key when it comes, by the flag that it comes with. A later insert of the key
stores a new flag and does not count again. -/
namespace Zeroscript.MapSizes

open KeyLists Chaining

inductive InsertCall (β : Type) where
  | insert (key : CString) (value : β)
  | insertNonEnumerable (key : CString) (value : β)
  | insertFlags (key : CString) (value : β) (flag : BitVec 64)

section

variable {β : Type}

def InsertCall.key : InsertCall β → CString
  | .insert key _ | .insertNonEnumerable key _ | .insertFlags key _ _ => key

def InsertCall.value : InsertCall β → β
  | .insert _ value | .insertNonEnumerable _ value | .insertFlags _ value _ => value

def InsertCall.flag : InsertCall β → BitVec 64
  | .insert _ _ => 1
  | .insertNonEnumerable _ _ => 0
  | .insertFlags _ _ flag => flag

def InsertCall.operation (call : InsertCall β) : MapOperation β := .insert call.key call.value call.flag

def keys (calls : List (InsertCall β)) : Finset CString := (calls.map InsertCall.key).toFinset

def flags (calls : List (InsertCall β)) (key : CString) : List (BitVec 64) :=
  (calls.filter fun call => call.key = key).map InsertCall.flag

def Enumerable (flag : BitVec 64) : Prop := enumerableBit flag ≠ 0

instance (flag : BitVec 64) : Decidable (Enumerable flag) := inferInstanceAs (Decidable (_ ≠ _))

def counted (calls : List (InsertCall β)) : Finset CString :=
  (keys calls).filter fun key => ∃ flag ∈ (flags calls key).head?, Enumerable flag

def listed (calls : List (InsertCall β)) : Finset CString :=
  (keys calls).filter fun key => ∃ flag ∈ (flags calls key).getLast?, Enumerable flag

/-- Keys that came hidden and were shown by their latest insert. -/
def revealed (calls : List (InsertCall β)) : Finset CString := listed calls \ counted calls

/-- Keys that came enumerable and were hidden by their latest insert. -/
def concealed (calls : List (InsertCall β)) : Finset CString := counted calls \ listed calls

end

/-- A run in which a JSON object is made, and the names of the properties that are set on it. `keys` may be
called in between; the list that it makes is immutable, and other steps leave it alone too. -/
inductive Written (classes : String → Option Code) (index : ℕ) : Data ℚ → List String → Prop where
  | new {d : Data ℚ} (h : d.objects.length = index) : Written classes index d.newJson.1 []
  | set {d : Data ℚ} {names : List String} {k : ControlState} {a : Activation} {object : ℕ} {name : String}
      {value : Reg ℚ} {e : Effect ℚ} (h : Written classes index d names) (hobject : object ≠ 1)
      (hr : d.regs a.currentContext object = ⟨.obj, .raw (index + 1)⟩)
      (hset : setField classes d k a object name value = some e) :
      Written classes index e.data (names ++ [name])
  | keys {d d' : Data ℚ} {names : List String} {list : Addr} (h : Written classes index d names)
      (hkeys : d.nativeKeyList (index + 1) = some (d', list)) : Written classes index d' names
  | other {d d' : Data ℚ} {names : List String} (h : Written classes index d names)
      (hsame : d'.objects[index]? = d.objects[index]?)
      (hlist : ∀ properties cache, d.objects[index]? = some (.json properties cache) → cache ≠ 0 →
        ∀ entries c, d.objects[cache - 1]? = some (.json entries c) →
          ∃ c', d'.objects[cache - 1]? = some (.json entries c')) : Written classes index d' names

/-- What `native_object_key_size` reads. -/
def keySize (d : Data ℚ) (address : Addr) : Option ℕ :=
  (d.propertiesAt address).map fun found => found.1.size

/-- The properties that `object_new` makes. -/
def natives : Finset String := {"size", "keys"}

def indexNames (n : ℕ) : Finset String := (Finset.range n).image (indexName ℚ)

section

variable {β : Type}

theorem mem_keys {calls : List (InsertCall β)} {key : CString} :
    key ∈ keys calls ↔ ∃ call ∈ calls, call.key = key := by
  unfold keys
  rw [List.mem_toFinset, List.mem_map]

theorem flags_eq_nil_iff {calls : List (InsertCall β)} {key : CString} :
    flags calls key = [] ↔ key ∉ keys calls := by
  rw [mem_keys]
  unfold flags
  simp

theorem flags_snoc_self (calls : List (InsertCall β)) (call : InsertCall β) :
    flags (calls ++ [call]) call.key = flags calls call.key ++ [call.flag] := by
  simp [flags]

theorem flags_snoc_of_ne (calls : List (InsertCall β)) {call : InsertCall β} {key : CString}
    (hne : key ≠ call.key) : flags (calls ++ [call]) key = flags calls key := by
  simp [flags, Ne.symm hne]

theorem mem_counted {calls : List (InsertCall β)} {key : CString} :
    key ∈ counted calls ↔ ∃ flag, (flags calls key).head? = some flag ∧ Enumerable flag := by
  unfold counted
  rw [Finset.mem_filter]
  refine ⟨fun h => h.2, fun h => ⟨?_, h⟩⟩
  obtain ⟨flag, hflag, -⟩ := h
  by_contra hkey
  rw [flags_eq_nil_iff.mpr hkey] at hflag
  cases hflag

theorem mem_listed {calls : List (InsertCall β)} {key : CString} :
    key ∈ listed calls ↔ ∃ flag, (flags calls key).getLast? = some flag ∧ Enumerable flag := by
  unfold listed
  rw [Finset.mem_filter]
  refine ⟨fun h => h.2, fun h => ⟨?_, h⟩⟩
  obtain ⟨flag, hflag, -⟩ := h
  by_contra hkey
  rw [flags_eq_nil_iff.mpr hkey] at hflag
  cases hflag

theorem counted_snoc_old {calls : List (InsertCall β)} {call : InsertCall β} (h : call.key ∈ keys calls) :
    counted (calls ++ [call]) = counted calls := by
  ext key
  rw [mem_counted, mem_counted]
  by_cases hkey : key = call.key
  · subst hkey
    obtain ⟨flag, rest, hflags⟩ := List.exists_cons_of_ne_nil (mt flags_eq_nil_iff.mp (not_not_intro h))
    rw [flags_snoc_self, hflags]
    rfl
  · rw [flags_snoc_of_ne calls hkey]

theorem counted_snoc_new {calls : List (InsertCall β)} {call : InsertCall β} (h : call.key ∉ keys calls) :
    (counted (calls ++ [call])).card = (counted calls).card + if Enumerable call.flag then 1 else 0 := by
  have hfirst : flags calls call.key = [] := flags_eq_nil_iff.mpr h
  have hself : call.key ∈ counted (calls ++ [call]) ↔ Enumerable call.flag := by
    rw [mem_counted, flags_snoc_self, hfirst]
    simp
  have hother : ∀ key, key ≠ call.key → (key ∈ counted (calls ++ [call]) ↔ key ∈ counted calls) := by
    intro key hne
    rw [mem_counted, mem_counted, flags_snoc_of_ne calls hne]
  have hnew : call.key ∉ counted calls := by
    rw [mem_counted, hfirst]
    simp
  by_cases hbit : Enumerable call.flag
  · have hinsert : counted (calls ++ [call]) = insert call.key (counted calls) := by
      ext key
      rw [Finset.mem_insert]
      by_cases hkey : key = call.key
      · subst hkey
        exact iff_of_true (hself.mpr hbit) (.inl rfl)
      · rw [hother key hkey]
        exact (or_iff_right hkey).symm
    rw [hinsert, Finset.card_insert_of_notMem hnew, if_pos hbit]
  · have hsame : counted (calls ++ [call]) = counted calls := by
      ext key
      by_cases hkey : key = call.key
      · subst hkey
        exact iff_of_false (mt hself.mp hbit) hnew
      · exact hother key hkey
    rw [hsame, if_neg hbit]
    rfl

/-- The counter and the list differ by the keys that changed between the two kinds. -/
theorem card_counted_eq_iff (calls : List (InsertCall β)) :
    (counted calls).card = (listed calls).card ↔ (revealed calls).card = (concealed calls).card := by
  have hcounted := Finset.card_sdiff_add_card_inter (counted calls) (listed calls)
  have hlisted := Finset.card_sdiff_add_card_inter (listed calls) (counted calls)
  rw [Finset.inter_comm] at hlisted
  unfold revealed concealed
  omega

end

section

open MapT

variable {β : Type} {m m' : MapT β} {t : Contents β}

theorem enumerableBit_toNat (flag : BitVec 64) : (enumerableBit flag).toNat = if Enumerable flag then 1 else 0 := by
  have hbit : (enumerableBit flag).toNat = flag.toNat % 2 := by
    unfold enumerableBit
    rw [BitVec.toNat_and]
    exact Nat.and_one_is_mod _
  have hzero : Enumerable flag ↔ flag.toNat % 2 ≠ 0 := by
    unfold Enumerable
    rw [← hbit, ne_eq, ne_eq, ← BitVec.toNat_inj]
    rfl
  rw [hbit]
  split
  · have := hzero.mp ‹_›
    omega
  · have := mt hzero.mpr ‹_›
    omega

@[simp] theorem createBag_size (m : MapT β) (hash : Fin 10) : (m.createBag hash).size = m.size := by
  unfold createBag
  split <;> rfl

theorem insertFlags_size (h : m.Represents t) (hmutable : m.isImmutable = false) {key : CString} {value : β}
    {flag : BitVec 64} (hinsert : m.insertFlags key value flag = some m') :
    m'.size = m.size + if t.find getHash key = none then (if Enumerable flag then 1 else 0) else 0 := by
  obtain ⟨kbag, vbag, fbag, hkeys, hvalues, hflags, haligned⟩ := createBag_aligned (h (getHash key))
  have hsearch := search_whole haligned.keys key
  rw [insertFlags, if_neg (by rw [hmutable]; simp)] at hinsert
  simp only [Option.bind_eq_bind, hkeys, hvalues, hflags, Option.bind_some, hsearch] at hinsert
  cases hfound : (List.map (fun entry => entry.1) (t (getHash key))).findIdx? (· = key) with
  | some i =>
    have hfind : t.find getHash key ≠ none := by
      obtain ⟨hi, hlookup⟩ := lookup_of_findIdx_some hfound
      unfold Table.find
      rw [hlookup]
      exact Option.some_ne_none _
    rw [hfound] at hinsert
    obtain ⟨values, -, hinsert⟩ := Option.bind_eq_some_iff.mp hinsert
    obtain ⟨flags, -, hinsert⟩ := Option.bind_eq_some_iff.mp hinsert
    cases hinsert
    rw [if_neg hfind]
    exact createBag_size m _
  | none =>
    have hfind : t.find getHash key = none := lookup_of_findIdx_none hfound
    rw [hfound] at hinsert
    obtain ⟨keys, -, hinsert⟩ := Option.bind_eq_some_iff.mp hinsert
    obtain ⟨values, -, hinsert⟩ := Option.bind_eq_some_iff.mp hinsert
    obtain ⟨flags, -, hinsert⟩ := Option.bind_eq_some_iff.mp hinsert
    cases hinsert
    rw [if_pos hfind]
    dsimp only
    rw [createBag_size, enumerableBit_toNat]

structure Recorded (calls : List (InsertCall β)) (m : MapT β) (t : Contents β) : Prop where
  represents : m.Represents t
  placed : t.WellPlaced getHash
  isMutable : m.isImmutable = false
  size : m.size = (counted calls).card
  latest : ∀ key, (t.find getHash key).map Prod.snd = (flags calls key).getLast?

theorem Recorded.new_iff {calls : List (InsertCall β)} (h : Recorded calls m t) (key : CString) :
    t.find getHash key = none ↔ key ∉ keys calls := by
  rw [← flags_eq_nil_iff, ← List.getLast?_eq_none_iff, ← h.latest, Option.map_eq_none_iff]

theorem Recorded.snoc {calls : List (InsertCall β)} (h : Recorded calls m t) (call : InsertCall β) :
    ∃ m', call.operation.apply m = some m' ∧
      Recorded (calls ++ [call]) m' (t.put getHash call.key (call.value, call.flag)) := by
  obtain ⟨m', hinsert, hmutable, hrepresents⟩ :=
    insertFlags_represents h.represents h.isMutable call.key call.value call.flag
  have hsize := insertFlags_size h.represents h.isMutable hinsert
  refine ⟨m', hinsert, hrepresents, h.placed.put call.key (call.value, call.flag), hmutable, ?_, ?_⟩
  · rw [hsize, h.size]
    by_cases hkey : call.key ∈ keys calls
    · rw [if_neg (mt (h.new_iff call.key).mp (not_not_intro hkey)), counted_snoc_old hkey]
      rfl
    · rw [if_pos ((h.new_iff call.key).mpr hkey), counted_snoc_new hkey]
  · intro key
    rw [Table.find_put]
    by_cases hkey : key = call.key
    · subst hkey
      rw [if_pos rfl, flags_snoc_self, List.getLast?_concat]
      rfl
    · rw [if_neg hkey, flags_snoc_of_ne calls hkey]
      exact h.latest key

theorem run_recorded (calls : List (InsertCall β)) :
    ∃ m t, MapOperation.run (calls.map InsertCall.operation) = some m ∧ Recorded calls m t := by
  induction calls using List.reverseRecOn with
  | nil => exact ⟨.new, _, rfl, new_represents, Table.WellPlaced.empty, rfl, rfl, fun key => rfl⟩
  | append_singleton calls call ih =>
    obtain ⟨m, t, hrun, hrecorded⟩ := ih
    obtain ⟨m', hstep, hrecorded'⟩ := hrecorded.snoc call
    refine ⟨m', _, ?_, hrecorded'⟩
    unfold MapOperation.run at hrun ⊢
    rw [List.map_append, List.foldlM_append, hrun, Option.bind_eq_bind, Option.bind_some, List.map_singleton,
      List.foldlM_cons, hstep]
    rfl

theorem Recorded.keyList {calls : List (InsertCall β)} (h : Recorded calls m t) :
    ∃ keys items, m.keyList = some keys ∧ keys.Holds items ∧ items.length = (listed calls).card := by
  obtain ⟨keys, hkeys, hholds⟩ := keyList_of_represents h.represents
  refine ⟨keys, _, hkeys, hholds, ?_⟩
  have hnodup := Table.select_nodup h.placed (fun entry => enumerableBit entry.2 ≠ 0) (List.nodup_finRange 10)
  rw [← List.toFinset_card_of_nodup hnodup]
  congr 1
  ext key
  rw [List.mem_toFinset, Table.mem_select h.placed _ (List.mem_finRange _), mem_listed, ← h.latest]
  constructor
  · rintro ⟨entry, hfind, hbit⟩
    exact ⟨entry.2, by rw [hfind]; rfl, of_decide_eq_true hbit⟩
  · rintro ⟨flag, hfind, hbit⟩
    obtain ⟨entry, hentry, rfl⟩ := Option.map_eq_some_iff.mp hfind
    exact ⟨entry, hentry, decide_eq_true hbit⟩

end

section

variable {β : Type} {m : ZMap β}

theorem getFlags_none_iff (m : ZMap β) (key : String) :
    m.getFlags key = none ↔ m.entries.any (·.key = key) = false := by
  unfold ZMap.getFlags
  rw [Option.map_eq_none_iff, List.find?_eq_none, List.any_eq_false]

theorem size_insertFlags (hmutable : m.isImmutable = false) (key : String) (value : β) (kinds : MapFlags) :
    (m.insertFlags key value kinds).size =
      m.size + if m.getFlags key = none then (if kinds.enumerable then 1 else 0) else 0 := by
  unfold ZMap.insertFlags
  rw [if_neg (by simp [hmutable])]
  by_cases hkey : m.getFlags key = none
  · rw [if_pos hkey, if_neg (by rw [(getFlags_none_iff m key).mp hkey]; simp)]
  · have hany := mt (getFlags_none_iff m key).mpr hkey
    rw [if_neg hkey, if_pos (by simpa using hany)]
    rfl

theorem mem_keyList (hnodup : (m.entries.map (·.key)).Nodup) {key : String} :
    key ∈ m.keyList ↔ ∃ entry, m.getFlags key = some entry ∧ entry.2.enumerable = true := by
  unfold ZMap.keyList ZMap.getFlags
  rw [List.mem_flatMap]
  constructor
  · rintro ⟨bag, -, h⟩
    obtain ⟨entry, hentry, rfl⟩ := List.mem_map.mp h
    obtain ⟨hmem, hkind⟩ := List.mem_filter.mp hentry
    have hfind : m.entries.find? (fun e => e.key = entry.key) = some entry := by
      obtain ⟨found, hfound⟩ := Option.isSome_iff_exists.mp
        (List.find?_isSome (p := fun e : MapEntry β => e.key = entry.key).mpr ⟨entry, hmem, by simp⟩)
      have hkeys : found.key = entry.key := by simpa using List.find?_some hfound
      rw [hfound, List.inj_on_of_nodup_map hnodup (List.mem_of_find?_eq_some hfound) hmem hkeys]
    refine ⟨(entry.value, entry.flags), by rw [hfind]; rfl, ?_⟩
    exact (Bool.and_eq_true _ _ ▸ hkind).2
  · rintro ⟨entry, h, hkind⟩
    obtain ⟨found, hfound, rfl⟩ := Option.map_eq_some_iff.mp h
    have hkey : found.key = key := by simpa using List.find?_some hfound
    refine ⟨ZMap.hash key, ?_, ?_⟩
    · unfold ZMap.hash
      exact List.mem_range.mpr (by omega)
    · refine List.mem_map.mpr ⟨found, List.mem_filter.mpr ⟨List.mem_of_find?_eq_some hfound, ?_⟩, hkey⟩
      rw [hkey]
      simpa using hkind

end

/-- The properties of an object after writes. -/
structure Properties (names : List String) (m : ZMap (Reg ℚ)) : Prop where
  isMutable : m.isImmutable = false
  nodup : (m.entries.map (·.key)).Nodup
  size : m.size = (names.toFinset \ natives).card
  kind : ∀ key, (m.getFlags key).map (fun entry => entry.2.enumerable) =
    if key ∈ names then some true else if key ∈ natives then some false else none

theorem Properties.new : Properties [] newProperties where
  isMutable := rfl
  nodup := newProperties_nodup
  size := rfl
  kind key := by
    rw [if_neg List.not_mem_nil]
    by_cases hkeys : key = "keys"
    · subst hkeys
      decide
    · by_cases hsize : key = "size"
      · subst hsize
        decide
      · have hnone : key ∉ natives := by simp [natives, hkeys, hsize]
        rw [if_neg hnone]
        unfold newProperties ZMap.insertHidden
        rw [ZMap.getFlags_insertFlags_of_ne _ _ _ hkeys, ZMap.getFlags_insertFlags_of_ne _ _ _ hsize]
        rfl

theorem Properties.write {names : List String} {m : ZMap (Reg ℚ)} (h : Properties names m) (name : String)
    (value : Reg ℚ) : Properties (names ++ [name]) (m.insert name value) where
  isMutable := (ZMap.insertFlags_isImmutable m name value _).trans h.isMutable
  nodup := keys_insertFlags h.nodup name value _
  size := by
    have hkind := h.kind name
    have hnew : m.getFlags name = none ↔ name ∉ names ∧ name ∉ natives := by
      rw [← Option.map_eq_none_iff, hkind]
      by_cases hnames : name ∈ names
      · simp [hnames]
      · by_cases hnatives : name ∈ natives
        · simp [hnames, hnatives]
        · simp [hnames, hnatives]
    have hset : (names ++ [name]).toFinset = insert name names.toFinset := by
      ext key
      simp
    unfold ZMap.insert
    rw [size_insertFlags h.isMutable, h.size, hset]
    by_cases hnatives : name ∈ natives
    · rw [if_neg fun hnone => (hnew.mp hnone).2 hnatives, Finset.insert_sdiff_of_mem _ hnatives]
      rfl
    · by_cases hnames : name ∈ names
      · rw [if_neg fun hnone => (hnew.mp hnone).1 hnames, Finset.insert_eq_of_mem (List.mem_toFinset.mpr hnames)]
        rfl
      · rw [if_pos (hnew.mpr ⟨hnames, hnatives⟩), Finset.insert_sdiff_of_notMem _ hnatives,
          Finset.card_insert_of_notMem fun hmem => hnames (List.mem_toFinset.mp (Finset.mem_sdiff.mp hmem).1)]
        rfl
  kind key := by
    unfold ZMap.insert
    by_cases hkey : key = name
    · subst hkey
      rw [ZMap.getFlags_insertFlags_self m value _ h.isMutable, if_pos (by simp)]
      rfl
    · have hmem : key ∈ names ++ [name] ↔ key ∈ names := by simp [hkey]
      rw [ZMap.getFlags_insertFlags_of_ne m value _ hkey, h.kind key]
      simp only [hmem]

theorem Properties.keyList {names : List String} {m : ZMap (Reg ℚ)} (h : Properties names m) :
    m.keyList.length = names.toFinset.card := by
  rw [← List.toFinset_card_of_nodup (keyList_nodup h.nodup)]
  congr 1
  ext key
  rw [List.mem_toFinset, List.mem_toFinset, mem_keyList h.nodup]
  have hkind := h.kind key
  constructor
  · rintro ⟨entry, hentry, henumerable⟩
    by_contra hnames
    rw [hentry, Option.map_some, henumerable, if_neg hnames] at hkind
    split at hkind
    · cases hkind
    · cases hkind
  · intro hnames
    rw [if_pos hnames] at hkind
    obtain ⟨entry, hentry, henumerable⟩ := Option.map_eq_some_iff.mp hkind
    exact ⟨entry, hentry, henumerable⟩

theorem indexName_head {i : ℕ} {c : Char} (h : (indexName ℚ i).toList.head? = some c) :
    c = '-' ∨ c.isDigit = true := by
  have htext : indexName ℚ i = numToStr ((i : ℤ) : ℚ) := by
    rw [Int.cast_natCast]
    rfl
  rw [htext, IntegerText.numToStr_intCast, String.toList_ofList, List.head?_take, if_neg (by decide)] at h
  by_cases hsign : 0 ≤ lowHalf i
  · right
    rw [IntegerText.toString_nonneg hsign, Nat.toList_repr] at h
    exact Nat.isDigit_of_mem_toDigits (by decide) (by decide) (List.mem_of_head? h)
  · left
    rw [IntegerText.head_of_neg (Int.not_le.mp hsign)] at h
    exact (Option.some.inj h).symm

theorem newProperties_indexName (i : ℕ) : newProperties.getFlags (indexName ℚ i) = none := by
  have hname : ∀ name ∈ natives, indexName ℚ i ≠ name := by
    intro name hname heq
    rcases Finset.mem_insert.mp hname with rfl | hname
    · exact absurd (indexName_head (i := i) (c := 's') (by rw [heq]; rfl)) (by decide)
    · rw [Finset.mem_singleton.mp hname] at heq
      exact absurd (indexName_head (i := i) (c := 'k') (by rw [heq]; rfl)) (by decide)
  unfold newProperties ZMap.insertHidden
  rw [ZMap.getFlags_insertFlags_of_ne _ _ _ (hname "keys" (by decide)),
    ZMap.getFlags_insertFlags_of_ne _ _ _ (hname "size" (by decide))]
  rfl

theorem indexNames_succ (n : ℕ) : indexNames (n + 1) = insert (indexName ℚ n) (indexNames n) := by
  unfold indexNames
  rw [Finset.range_add_one, Finset.image_insert]

theorem card_indexNames {n : ℕ} (hn : n ≤ 2 ^ 31) : (indexNames n).card = n := by
  unfold indexNames
  rw [Finset.card_image_of_injOn, Finset.card_range]
  intro i hi j hj heq
  have hi := Finset.mem_range.mp hi
  have hj := Finset.mem_range.mp hj
  exact indexName_injective (Nat.lt_of_lt_of_le hi hn) (Nat.lt_of_lt_of_le hj hn) heq

theorem fillKeyList_size (keys : List String) : ∀ (i : ℕ) (entries : ZMap (Reg ℚ)) (d : Data ℚ),
    entries.isImmutable = false → entries.size = (indexNames i).card →
    (∀ j, entries.getFlags (indexName ℚ j) = none ↔ indexName ℚ j ∉ indexNames i) →
    (Data.fillKeyList keys i entries d).1.size = (indexNames (i + keys.length)).card := by
  induction keys with
  | nil => exact fun i entries d hmutable hsize hnew => hsize
  | cons key keys ih =>
    intro i entries d hmutable hsize hnew
    let value := (d.newReg .str (.string key 0)).2
    have hnext : (entries.insert (indexName ℚ i) value).size = (indexNames (i + 1)).card := by
      unfold ZMap.insert
      rw [size_insertFlags hmutable, hsize, indexNames_succ]
      by_cases hmem : indexName ℚ i ∈ indexNames i
      · rw [if_neg (mt (hnew i).mp (not_not_intro hmem)), Finset.insert_eq_of_mem hmem]
        rfl
      · rw [if_pos ((hnew i).mpr hmem), Finset.card_insert_of_notMem hmem]
        rfl
    have hnames : ∀ j, (entries.insert (indexName ℚ i) value).getFlags (indexName ℚ j) = none ↔
        indexName ℚ j ∉ indexNames (i + 1) := by
      intro j
      unfold ZMap.insert
      rw [indexNames_succ, Finset.mem_insert, not_or]
      by_cases hsame : indexName ℚ j = indexName ℚ i
      · rw [hsame, ZMap.getFlags_insertFlags_self entries value _ hmutable]
        simp
      · rw [ZMap.getFlags_insertFlags_of_ne entries value _ hsame, hnew j]
        exact (and_iff_right hsame).symm
    have hrest := ih (i + 1) _ (d.newReg .str (.string key 0)).1
      ((ZMap.insertFlags_isImmutable entries (indexName ℚ i) value _).trans hmutable) hnext hnames
    rw [List.length_cons, Nat.add_comm keys.length, ← Nat.add_assoc]
    exact hrest

theorem fillKeyList_objects (keys : List String) : ∀ (i : ℕ) (entries : ZMap (Reg ℚ)) (d : Data ℚ),
    (Data.fillKeyList keys i entries d).2.objects = d.objects ++ keys.map fun key => .string key 0 := by
  induction keys with
  | nil => exact fun i entries d => (List.append_nil _).symm
  | cons key keys ih =>
    intro i entries d
    have hnew : (d.newReg .str (.string key 0)).1.objects = d.objects ++ [Object.string key 0] := rfl
    rw [Data.fillKeyList, ih, hnew, List.append_assoc]
    rfl

theorem setCache_self {d : Data ℚ} {n : ℕ} {m : ZMap (Reg ℚ)} {c cache : Addr}
    (ho : d.objects[n]? = some (.json m c)) : (d.setCache (n + 1) cache).objects[n]? = some (.json m cache) := by
  unfold Data.setCache
  rw [Nat.add_sub_cancel, ho]
  exact List.getElem?_set_self (List.getElem?_eq_some_iff.mp ho).1

theorem setCache_other (d : Data ℚ) {address cache : Addr} {n : ℕ} (hne : address - 1 ≠ n) :
    (d.setCache address cache).objects[n]? = d.objects[n]? := by
  unfold Data.setCache Data.setObject
  split
  · exact List.getElem?_set_ne hne
  · exact List.getElem?_set_ne hne
  · rfl

/-- The object at an index, whose cached list, if it has one, has as many entries as its keys have names of
indices. -/
structure Cached (d : Data ℚ) (index : ℕ) (m : ZMap (Reg ℚ)) (cache : Addr) : Prop where
  object : d.objects[index]? = some (.json m cache)
  list : cache ≠ 0 → cache - 1 ≠ index ∧ ∃ entries c, d.objects[cache - 1]? = some (.json entries c) ∧
    entries.size = (indexNames m.keyList.length).card

theorem Cached.keySize {d : Data ℚ} {index : ℕ} {m : ZMap (Reg ℚ)} {cache : Addr} (h : Cached d index m cache)
    (hcache : cache ≠ 0) : keySize d cache = some (indexNames m.keyList.length).card := by
  obtain ⟨-, entries, c, ho, hsize⟩ := h.list hcache
  obtain ⟨n, rfl⟩ := Nat.exists_eq_succ_of_ne_zero hcache
  unfold MapSizes.keySize Data.propertiesAt
  dsimp only
  rw [show d.objects[n]? = some (.json entries c) from ho, ← hsize]
  rfl

theorem fresh_list {d : Data ℚ} {index : ℕ} {m : ZMap (Reg ℚ)} (ho : d.objects[index]? = some (.json m 0)) :
    ∃ d' list, d.nativeKeyList (index + 1) = some (d', list) ∧ list ≠ 0 ∧ Cached d' index m list := by
  have hindex : index < d.objects.length := (List.getElem?_eq_some_iff.mp ho).1
  have hfound : d.propertiesAt (index + 1) = some (m, 0) := by
    unfold Data.propertiesAt
    dsimp only
    rw [ho]
  have hempty : d.newJson.1.objects[d.newJson.2 - 1]? = some (Object.json newProperties 0) := by
    rw [newJson_objects, newJson_address]
    simp
  have hsize := fillKeyList_size m.keyList 0 newProperties d.newJson.1 rfl rfl fun j =>
    iff_of_true (newProperties_indexName j) (Finset.notMem_empty _)
  have hobjects := fillKeyList_objects m.keyList 0 newProperties d.newJson.1
  rw [Nat.zero_add] at hsize
  have hrun : ∀ filled, Data.fillKeyList m.keyList 0 newProperties d.newJson.1 = filled →
      d.nativeKeyList (index + 1) = some ((filled.2.setObject d.newJson.2
        (.json { filled.1 with isImmutable := true } 0)).setCache (index + 1) d.newJson.2, d.newJson.2) := by
    rintro filled rfl
    unfold Data.nativeKeyList
    rw [hfound]
    simp only [Option.bind_eq_bind, Option.bind_some, hempty, ne_eq, not_true_eq_false, if_false]
    rfl
  -- the list is the object after the last one of `d`
  have hlength : d.objects.length < (Data.fillKeyList m.keyList 0 newProperties d.newJson.1).2.objects.length := by
    rw [hobjects, newJson_objects]
    simp
  have hkept : (Data.fillKeyList m.keyList 0 newProperties d.newJson.1).2.objects[index]? = some (.json m 0) := by
    rw [hobjects, newJson_objects, List.append_assoc, List.getElem?_append_left hindex, ho]
  refine ⟨_, _, hrun _ rfl, ?_, ?_⟩
  · rw [newJson_address]
    exact Nat.succ_ne_zero _
  rw [newJson_address]
  refine ⟨setCache_self (c := 0) ?_, fun _ => ⟨Nat.ne_of_gt hindex,
    { (Data.fillKeyList m.keyList 0 newProperties d.newJson.1).1 with isImmutable := true }, 0, ?_, hsize⟩⟩
  · unfold Data.setObject
    dsimp only
    rw [Nat.add_sub_cancel, List.getElem?_set_ne (Nat.ne_of_gt hindex), hkept]
  · rw [setCache_other _ (Nat.ne_of_lt hindex)]
    unfold Data.setObject
    exact List.getElem?_set_self hlength

theorem Cached.keyList {d : Data ℚ} {index : ℕ} {m : ZMap (Reg ℚ)} {cache : Addr} (h : Cached d index m cache) :
    ∃ d' list, d.nativeKeyList (index + 1) = some (d', list) ∧ list ≠ 0 ∧ Cached d' index m list := by
  by_cases hcache : cache = 0
  · subst hcache
    exact fresh_list h.object
  · refine ⟨d, cache, ?_, hcache, h⟩
    unfold Data.nativeKeyList Data.propertiesAt
    dsimp only
    rw [h.object]
    simp [hcache]

theorem written_properties {classes : String → Option Code} {index : ℕ} {d : Data ℚ} {names : List String}
    (h : Written classes index d names) : ∃ m cache, Cached d index m cache ∧ Properties names m := by
  induction h with
  | new h =>
    refine ⟨newProperties, 0, ⟨?_, fun hne => absurd rfl hne⟩, Properties.new⟩
    rw [newJson_objects, ← h]
    simp
  | @set d names k a object name value e h hobject hr hset ih =>
    obtain ⟨m, cache, hcached, hm⟩ := ih
    unfold setField at hset
    rw [if_neg hobject, hr] at hset
    obtain ⟨o, hfound, hset⟩ := Option.bind_eq_some_iff.mp hset
    unfold Data.object at hfound
    obtain rfl : o = .json m cache := by
      simpa [hcached.object] using hfound.symm
    cases hset
    refine ⟨m.insert name value, 0, ⟨?_, fun hne => absurd rfl hne⟩, hm.write name value⟩
    have hindex := (List.getElem?_eq_some_iff.mp hcached.object).1
    unfold Data.setObject
    simp [hindex]
  | @keys _ _ _ list h hkeys ih =>
    obtain ⟨m, cache, hcached, hm⟩ := ih
    obtain ⟨_, _, hrun, -, hafter⟩ := hcached.keyList
    rw [hkeys] at hrun
    cases hrun
    exact ⟨m, list, hafter, hm⟩
  | other h hsame hlist ih =>
    obtain ⟨m, cache, hcached, hm⟩ := ih
    refine ⟨m, cache, ⟨hsame.trans hcached.object, fun hcache => ?_⟩, hm⟩
    obtain ⟨hne, entries, c, ho, hsize⟩ := hcached.list hcache
    obtain ⟨c', ho'⟩ := hlist m cache hcached.object hcache entries c ho
    exact ⟨hne, entries, c', ho', hsize⟩

/-- The sizes agree exactly if as many keys were revealed as concealed; for the properties of a JSON object,
if the indices that `num_to_str` cannot tell apart make up for the writes of `size` and `keys`. -/
theorem size_eq_keyList_iff {β : Type} (calls : List (InsertCall β)) {classes : String → Option Code} {index : ℕ}
    {d : Data ℚ} {names : List String} (h : Written classes index d names) :
    (∃ m keys items, MapOperation.run (calls.map InsertCall.operation) = some m ∧ m.keyList = some keys ∧
      keys.Holds items ∧ (m.size = items.length ↔ (revealed calls).card = (concealed calls).card)) ∧
    ∃ d' list, d.nativeKeyList (index + 1) = some (d', list) ∧
      (keySize d (index + 1) = keySize d' list ↔
        (indexNames names.toFinset.card).card + (names.toFinset ∩ natives).card = names.toFinset.card) ∧
      (names.toFinset.card ≤ 2 ^ 31 →
        (keySize d (index + 1) = keySize d' list ↔ "size" ∉ names ∧ "keys" ∉ names)) := by
  constructor
  · obtain ⟨m, t, hrun, hrecorded⟩ := run_recorded calls
    obtain ⟨keys, items, hkeys, hholds, hlength⟩ := hrecorded.keyList
    refine ⟨m, keys, items, hrun, hkeys, hholds, ?_⟩
    rw [hrecorded.size, hlength]
    exact card_counted_eq_iff calls
  · obtain ⟨m, cache, hcached, hm⟩ := written_properties h
    obtain ⟨d', list, hlist, hne, hafter⟩ := hcached.keyList
    have hsize := hafter.keySize hne
    have hown : keySize d (index + 1) = some m.size := by
      unfold keySize Data.propertiesAt
      dsimp only
      rw [hcached.object]
      rfl
    have hparts := Finset.card_sdiff_add_card_inter names.toFinset natives
    have hagree : keySize d (index + 1) = keySize d' list ↔
        (indexNames names.toFinset.card).card + (names.toFinset ∩ natives).card = names.toFinset.card := by
      rw [hown, hsize, hm.size, hm.keyList, Option.some_inj]
      omega
    refine ⟨d', list, hlist, hagree, fun hbound => ?_⟩
    have hnone : (names.toFinset ∩ natives).card = 0 ↔ "size" ∉ names ∧ "keys" ∉ names := by
      rw [Finset.card_eq_zero, ← Finset.disjoint_iff_inter_eq_empty, disjoint_comm]
      simp [natives]
    rw [hagree, card_indexNames hbound, ← hnone]
    omega

theorem letter_terminated : 0 ∉ ([97] : List UInt8) := by decide

/-- A key that is hidden when it comes and shown later. -/
def hiddenFirst : List (InsertCall ℕ) :=
  [.insertNonEnumerable ⟨[97], letter_terminated⟩ 1, .insert ⟨[97], letter_terminated⟩ 2]

theorem hiddenFirst_sizes :
    (MapOperation.run (hiddenFirst.map InsertCall.operation)).map (·.size) = some 0 ∧
      ((MapOperation.run (hiddenFirst.map InsertCall.operation)).bind MapT.keyList).map (·.size) = some 1 := by
  decide +kernel

def madeObject : Data ℚ := noObjects.newJson.1.setReg 1 2 ⟨.obj, .raw 1⟩

theorem madeObject_written : Written (fun _ => none) 0 madeObject [] :=
  .other (.new rfl) rfl fun properties cache ho hcache => by
    cases ho
    exact absurd rfl hcache

theorem set_written {d : Data ℚ} {names : List String} (name : String) (h : Written (fun _ => none) 0 d names)
    (hr : d.regs 1 2 = ⟨.obj, .raw 1⟩) :
    ∃ d', Written (fun _ => none) 0 d' (names ++ [name]) ∧ d'.regs 1 2 = ⟨.obj, .raw 1⟩ := by
  obtain ⟨m, cache, hcached, -⟩ := written_properties h
  have hobject : d.object (d.regs 1 2) = some (.json m cache) := by
    rw [hr]
    exact hcached.object
  have hset : setField (fun _ => none) d ⟨fun _ => {}, fun _ => {}, 0, 0, 0⟩ ⟨0, 1, 0, 0, .construct⟩ 2 name .null =
      some ⟨d.setObject 1 (.json (m.insert name .null) 0), 1, .next⟩ := by
    unfold setField
    rw [if_neg (by decide)]
    dsimp only
    rw [hobject, hr]
    rfl
  exact ⟨_, .set h (by decide) hr hset, hr⟩

theorem sampleWritten : ∃ d, Written (fun _ => none) 0 d ["a", "b"] := by
  obtain ⟨d, h, hr⟩ := set_written "a" madeObject_written rfl
  obtain ⟨m, cache, hcached, -⟩ := written_properties h
  obtain ⟨d', list, hkeys, -⟩ := hcached.keyList
  have hr' : d'.regs 1 2 = ⟨.obj, .raw 1⟩ := by
    rw [← hr]
    unfold Data.regs
    rw [contexts_nativeKeyList hkeys]
  obtain ⟨d'', h'', -⟩ := set_written "b" (.keys h hkeys) hr'
  exact ⟨d'', h''⟩

theorem size_eq_keyList_new :
    (∃ m keys items, MapOperation.run (hiddenFirst.map InsertCall.operation) = some m ∧ m.keyList = some keys ∧
      keys.Holds items ∧ (m.size = items.length ↔ (revealed hiddenFirst).card = (concealed hiddenFirst).card)) ∧
    ∃ d d' list, Written (fun _ => none) 0 d ["a", "b"] ∧ d.nativeKeyList 1 = some (d', list) ∧
      keySize d 1 = keySize d' list := by
  obtain ⟨d, h⟩ := sampleWritten
  obtain ⟨hcalls, d', list, hlist, -, hagree⟩ := size_eq_keyList_iff hiddenFirst h
  exact ⟨hcalls, d, d', list, h, hlist, (hagree (by decide)).mpr (by decide)⟩

/-- Two inserts of one key, and one write of `size`. -/
theorem sizes_differ :
    (¬ ∃ m keys items, MapOperation.run (hiddenFirst.map InsertCall.operation) = some m ∧
      m.keyList = some keys ∧ keys.Holds items ∧ m.size = items.length) ∧
    ∃ d d' list, Written (fun _ => none) 0 d ["size"] ∧ d.nativeKeyList 1 = some (d', list) ∧
      keySize d 1 = some 0 ∧ keySize d' list = some 1 := by
  constructor
  · rintro ⟨m, keys, items, hrun, hkeys, hholds, hsize⟩
    have hsizes := hiddenFirst_sizes
    rw [hrun, Option.map_some, Option.bind_some, hkeys, Option.map_some, hholds.size, ← hsize] at hsizes
    rw [hsizes.1] at hsizes
    exact absurd hsizes.2 (by decide)
  · obtain ⟨d, h, -⟩ := set_written "size" madeObject_written rfl
    obtain ⟨m, cache, hcached, hm⟩ := written_properties h
    obtain ⟨d', list, hlist, hne, hafter⟩ := hcached.keyList
    refine ⟨d, d', list, h, hlist, ?_, ?_⟩
    · unfold keySize Data.propertiesAt
      dsimp only
      rw [hcached.object, Option.map_some, hm.size]
      rfl
    · rw [hafter.keySize hne, hm.keyList]
      rfl

end Zeroscript.MapSizes
