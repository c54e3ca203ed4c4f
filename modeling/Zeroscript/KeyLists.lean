import Std.Data.String.ToNat
import Zeroscript.IntegerText
import Zeroscript.ObjectsList

/-! # `keys` and its cache

`native_object_key_list` makes a list of the keys of an object once, and keeps it in the object until
a property is written. A collection may come before each string of the list. -/
namespace Zeroscript.KeyLists

/-- A call that makes a list, which only the call itself can reach. -/
structure Build (α : Type) where
  object : Addr
  list : Addr
  keys : List String
  index : ℕ
  entries : ZMap (Reg α)

/-- The heap, the list and the victims of the collector, and the calls of `keys` under way. -/
structure Heap (α : Type) where
  data : Data α
  objectsList : List Node := []
  freed : List Node := []
  building : ℕ → Option (Build α) := fun _ => none

inductive Move (α : Type) where
  | make (o : Object α)
  | makeJson
  | write (object : Addr) (name : String) (value : Reg α)
  | keys (thread : ℕ) (object : Addr)
  | copy (thread : ℕ)
  | finish (thread : ℕ)
  | collect (roots : List Node)

section

variable {α : Type}

def Heap.Hidden (s : Heap α) (object : Addr) : Prop :=
  ∃ thread b, s.building thread = some b ∧ b.list = object

/-- `gc_visit_object_with_map`; whatever else there is to visit counts as a root. -/
def valueNodes (d : Data α) : Node → List Node
  | .object address =>
    match d.objects[address - 1]? with
    | some (.json properties _) => properties.entries.flatMap (d.registerNodes ·.value)
    | _ => []
  | .context _ => []

def Heap.marked (s : Heap α) (roots : List Node) : List Node :=
  DepthFirst.visitAll (valueNodes s.data) (s.data.objects.length + roots.length) [] roots

/-- What a collection frees: what it has not marked, and with an object its cached list. -/
def Heap.collected (s : Heap α) (roots : List Node) : List Node :=
  let swept := s.objectsList.filter (· ∉ s.marked roots)
  swept ++ (swept.filterMap s.data.keyListOf).map .object

variable [NumOps α]

def indexName (α : Type) [NumOps α] (i : ℕ) : String := NumOps.toText (NumOps.ofNat i : α)

inductive Step : Heap α → Move α → Heap α → Prop where
  | make {s : Heap α} {o : Object α} (ho : ∀ properties cache, o ≠ .json properties cache) :
      Step s (.make o) { s with
        data := (s.data.alloc o).1
        objectsList := s.objectsList ++ [.object (s.data.alloc o).2] }
  | makeJson {s : Heap α} : Step s .makeJson { s with
      data := s.data.newJson.1
      objectsList := s.objectsList ++ [.object s.data.newJson.2] }
  | write {s : Heap α} {index : ℕ} {name : String} {value : Reg α} {properties : ZMap (Reg α)} {cache : Addr}
      (ho : s.data.objects[index]? = some (.json properties cache)) (hseen : ¬s.Hidden (index + 1)) :
      Step s (.write (index + 1) name value)
        { s with data := s.data.setObject (index + 1) (.json (properties.insert name value) 0) }
  | cached {s : Heap α} {thread index : ℕ} {properties : ZMap (Reg α)} {list : Addr}
      (ho : s.data.objects[index]? = some (.json properties list)) (hseen : ¬s.Hidden (index + 1))
      (hlist : list ≠ 0) (hthread : s.building thread = none) : Step s (.keys thread (index + 1)) s
  | start {s : Heap α} {thread index : ℕ} {properties empty : ZMap (Reg α)}
      (ho : s.data.objects[index]? = some (.json properties 0)) (hseen : ¬s.Hidden (index + 1))
      (hthread : s.building thread = none)
      (hempty : s.data.newJson.1.objects[s.data.newJson.2 - 1]? = some (.json empty 0)) :
      Step s (.keys thread (index + 1)) { s with
        data := s.data.newJson.1
        building := Function.update s.building thread
          (some ⟨index + 1, s.data.newJson.2, properties.keyList, 0, empty⟩) }
  | copy {s : Heap α} {thread : ℕ} {b : Build α} {key : String} {keys : List String}
      (hb : s.building thread = some b) (hkeys : b.keys = key :: keys) :
      Step s (.copy thread) { s with
        data := (s.data.newReg .str (.string key 0)).1
        objectsList := s.objectsList ++ [.object (s.data.alloc (.string key 0)).2]
        building := Function.update s.building thread (some { b with
          keys := keys
          index := b.index + 1
          entries := b.entries.insert (indexName α b.index) (s.data.newReg .str (.string key 0)).2 }) }
  | finish {s : Heap α} {thread : ℕ} {b : Build α} (hb : s.building thread = some b) (hkeys : b.keys = []) :
      Step s (.finish thread) { s with
        data := (s.data.setObject b.list (.json { b.entries with isImmutable := true } 0)).setCache
          b.object b.list
        building := Function.update s.building thread none }
  | collect {s : Heap α} {roots : List Node} : Step s (.collect roots) { s with
      objectsList := s.objectsList.filter (· ∈ s.marked roots)
      freed := s.freed ++ s.collected roots }

inductive Returned : Heap α → Move α → Addr → Addr → Prop where
  | cached {s : Heap α} {thread index : ℕ} {properties : ZMap (Reg α)} {list : Addr}
      (ho : s.data.objects[index]? = some (.json properties list)) (hlist : list ≠ 0) :
      Returned s (.keys thread (index + 1)) (index + 1) list
  | finish {s : Heap α} {thread : ℕ} {b : Build α} (hb : s.building thread = some b) :
      Returned s (.finish thread) b.object b.list

/-- The object that `keys` should return: it is there, and entry `i` is a string of the `i`-th key,
which is there too. -/
def Right (s : Heap α) (object list : Addr) : Prop :=
  ∃ properties cache entries c, s.data.objects[object - 1]? = some (.json properties cache) ∧
    properties.keyList.Nodup ∧ s.data.objects[list - 1]? = some (.json entries c) ∧
    .object list ∉ s.freed ∧
    entries.size = properties.keyList.length ∧
    ∀ (i : ℕ) (key : String), properties.keyList[i]? = some key → ∃ (address cache : Addr),
      entries.get (indexName α i) = some ⟨.str, .raw (address + 1)⟩ ∧
      s.data.objects[address]? = some (.string key cache) ∧ .object (address + 1) ∉ s.freed

/-- The collection does not free the object, nor has another one. -/
def Stays (s : Heap α) (roots : List Node) (n : Node) : Prop :=
  n ∉ s.freed ∧ n ∉ s.collected roots

/-- The strings of lists that are cached or being built are reached by collections, no property is
written while a list of its keys is being built, and indices stay in the range of `%d`. -/
def Careful (s : Heap α) : Move α → Prop
  | .collect roots =>
    (∀ (index : ℕ) (properties entries : ZMap (Reg α)) (list c : Addr),
      s.data.objects[index]? = some (.json properties list) → list ≠ 0 →
      Stays s roots (.object (index + 1)) → s.data.objects[list - 1]? = some (.json entries c) →
      ∀ entry ∈ entries.entries, ∀ n ∈ s.data.registerNodes entry.value, n ∈ s.marked roots) ∧
    ∀ thread b, s.building thread = some b → ∀ entry ∈ b.entries.entries,
      ∀ n ∈ s.data.registerNodes entry.value, n ∈ s.marked roots
  | .write object _ _ => ∀ thread b, s.building thread = some b → b.object ≠ object
  | .keys _ object => ∀ (properties : ZMap (Reg α)) (cache : Addr),
    s.data.objects[object - 1]? = some (.json properties cache) → properties.keyList.length ≤ 2 ^ 31
  | _ => True

/-- The runs from an empty heap. -/
inductive Run : Heap α → Prop where
  | start {d : Data α} (hd : d.objects = []) : Run { data := d }
  | step {s s' : Heap α} {move : Move α} (h : Run s) (hstep : Step s move s') : Run s'

inductive CarefulRun : Heap α → Prop where
  | start {d : Data α} (hd : d.objects = []) : CarefulRun { data := d }
  | step {s s' : Heap α} {move : Move α} (h : CarefulRun s) (hstep : Step s move s')
      (hcareful : Careful s move) : CarefulRun s'

end

section

variable {β : Type} {m : ZMap β}

theorem keys_insertFlags (h : (m.entries.map (·.key)).Nodup) (key : String) (value : β) (flags : MapFlags) :
    ((m.insertFlags key value flags).entries.map (·.key)).Nodup := by
  unfold ZMap.insertFlags
  split
  · exact h
  · split
    · have hkeys : (ZMap.replace m.entries key value flags).map (·.key) = m.entries.map (·.key) := by
        unfold ZMap.replace
        rw [List.map_map]
        refine List.map_congr_left fun entry _ => ?_
        by_cases hkey : entry.key = key
        · simp [hkey]
        · simp [hkey]
      dsimp only
      rw [hkeys]
      exact h
    · rename_i hnew
      dsimp only
      rw [List.map_append, List.map_singleton]
      refine List.Nodup.append h (List.nodup_singleton _) ?_
      intro other hother hkey
      obtain ⟨entry, hentry, rfl⟩ := List.mem_map.mp hother
      exact hnew (List.any_eq_true.mpr ⟨entry, hentry, by simpa using hkey⟩)

theorem keyList_nodup (h : (m.entries.map (·.key)).Nodup) : m.keyList.Nodup := by
  unfold ZMap.keyList
  rw [List.nodup_flatMap]
  constructor
  · intro bag _
    exact List.Nodup.sublist (List.filter_sublist.map _) h
  · refine List.Pairwise.imp ?_ (List.nodup_range (n := 10))
    intro bag bag' hne key hkey hkey'
    obtain ⟨entry, hentry, rfl⟩ := List.mem_map.mp hkey
    obtain ⟨entry', hentry', heq⟩ := List.mem_map.mp hkey'
    have hbag := (List.mem_filter.mp hentry).2
    have hbag' := (List.mem_filter.mp hentry').2
    simp only [Bool.and_eq_true, beq_iff_eq] at hbag hbag'
    rw [heq, hbag.1] at hbag'
    exact hne hbag'.1

theorem size_insert {key : String} {value : β} (hmutable : m.isImmutable = false) (hnew : m.get key = none) :
    (m.insert key value).size = m.size + 1 := by
  have hany : m.entries.any (·.key = key) = false := by
    unfold ZMap.get ZMap.getFlags at hnew
    simpa [List.find?_eq_none] using hnew
  unfold ZMap.insert ZMap.insertFlags
  rw [if_neg (by simp [hmutable]), if_neg (by simp [hany])]
  rfl

theorem get_mem {key : String} {value : β} (h : m.get key = some value) :
    ∃ entry ∈ m.entries, entry.value = value := by
  unfold ZMap.get ZMap.getFlags at h
  rw [Option.map_map] at h
  obtain ⟨entry, hentry, rfl⟩ := Option.map_eq_some_iff.mp h
  exact ⟨entry, List.mem_of_find?_eq_some hentry, rfl⟩

end

theorem indexName_eq {i : ℕ} (hi : i < 2 ^ 31) : indexName ℚ i = Nat.repr i := by
  have hfits : IntegerText.Fits i := by
    unfold IntegerText.Fits
    omega
  have htext := (IntegerText.numToStr_iff i).mpr hfits
  rw [Int.cast_natCast] at htext
  exact htext

theorem indexName_injective {i j : ℕ} (hi : i < 2 ^ 31) (hj : j < 2 ^ 31)
    (h : indexName ℚ i = indexName ℚ j) : i = j := by
  rw [indexName_eq hi, indexName_eq hj] at h
  exact Nat.repr_injective h

theorem indexName_digits {i : ℕ} (hi : i < 2 ^ 31) : ∀ c ∈ (indexName ℚ i).toList, c.isDigit = true := by
  intro c hc
  rw [indexName_eq hi, Nat.toList_repr] at hc
  exact Nat.isDigit_of_mem_toDigits (by decide) (by decide) hc

variable {d d' : Data ℚ} {s s' : Heap ℚ}

structure Entries (d : Data ℚ) (keys : List String) (entries : ZMap (Reg ℚ)) : Prop where
  size : entries.size = keys.length
  entry : ∀ (i : ℕ) (key : String), keys[i]? = some key → ∃ (address cache : Addr),
    entries.get (indexName ℚ i) = some ⟨.str, .raw (address + 1)⟩ ∧
      d.objects[address]? = some (.string key cache)

def Alive (freed : List Node) (n : ℕ) (entries : ZMap (Reg ℚ)) : Prop :=
  ∀ (i : ℕ) (address : Addr), i < n → entries.get (indexName ℚ i) = some ⟨.str, .raw address⟩ →
    .object address ∉ freed

/-- Strings and immutable maps stay what they are. -/
structure Extends (d d' : Data ℚ) : Prop where
  length : d.objects.length ≤ d'.objects.length
  string : ∀ (index : ℕ) (text : String) (cache : Addr), d.objects[index]? = some (.string text cache) →
    ∃ cache', d'.objects[index]? = some (.string text cache')
  list : ∀ (index : ℕ) (entries : ZMap (Reg ℚ)) (cache : Addr), d.objects[index]? = some (.json entries cache) →
    entries.isImmutable = true → ∃ cache', d'.objects[index]? = some (.json entries cache')

/-- A list that is being built. -/
structure Building (s : Heap ℚ) (b : Build ℚ) (empty : ZMap (Reg ℚ)) (properties : ZMap (Reg ℚ)) (cache : Addr)
    (done : List String) (index : ℕ) : Prop where
  list : ∃ listIndex, b.list = listIndex + 1 ∧ s.data.objects[listIndex]? = some (.json empty 0)
  mutable : empty.isImmutable = false ∧ b.entries.isImmutable = false
  object : b.object = index + 1
  source : s.data.objects[index]? = some (.json properties cache)
  keys : properties.keyList = done ++ b.keys
  bounded : properties.keyList.length ≤ 2 ^ 31
  index : b.index = done.length
  entries : Entries s.data done b.entries
  alive : Alive s.freed done.length b.entries
  later : ∀ i, done.length ≤ i → i < 2 ^ 31 → b.entries.get (indexName ℚ i) = none
  distinct : (b.entries.entries.map (·.key)).Nodup

structure Coherent (s : Heap ℚ) : Prop where
  bounded : ∀ address, .object address ∈ s.objectsList ++ s.freed →
    0 < address ∧ address ≤ s.data.objects.length
  nodup : ∀ (index : ℕ) (properties : ZMap (Reg ℚ)) (cache : Addr),
    s.data.objects[index]? = some (.json properties cache) → (properties.entries.map (·.key)).Nodup
  cached : ∀ (index : ℕ) (properties : ZMap (Reg ℚ)) (list : Addr),
    s.data.objects[index]? = some (.json properties list) → list ≠ 0 → ∃ entries c,
      s.data.objects[list - 1]? = some (.json entries c) ∧ entries.isImmutable = true ∧
        Entries s.data properties.keyList entries ∧
        (.object (index + 1) ∉ s.freed → Alive s.freed properties.keyList.length entries)
  building : ∀ thread b, s.building thread = some b → ∃ empty properties cache done index,
    Building s b empty properties cache done index
  apart : ∀ thread thread' b b', s.building thread = some b → s.building thread' = some b' →
    b.list ≠ b'.object ∧ (b.list = b'.list → thread = thread')

theorem Entries.extends {keys : List String} {entries : ZMap (Reg ℚ)} (hd : Extends d d')
    (h : Entries d keys entries) : Entries d' keys entries where
  size := h.size
  entry i key hi := by
    obtain ⟨address, cache, hget, hstring⟩ := h.entry i key hi
    obtain ⟨cache', hstring'⟩ := hd.string address key cache hstring
    exact ⟨address, cache', hget, hstring'⟩

theorem extends_alloc {o : Object ℚ} (h : d'.objects = d.objects ++ [o]) : Extends d d' := by
  have hkept : ∀ (index : ℕ) (o' : Object ℚ), d.objects[index]? = some o' → d'.objects[index]? = some o' := by
    intro index o' ho'
    rw [h, List.getElem?_append_left (List.getElem?_eq_some_iff.mp ho').1]
    exact ho'
  exact ⟨by simp [h], fun index text cache ho => ⟨cache, hkept index _ ho⟩,
    fun index entries cache ho _ => ⟨cache, hkept index _ ho⟩⟩

theorem extends_set {index : ℕ} {properties properties' : ZMap (Reg ℚ)} {cache cache' : Addr}
    (ho : d.objects[index]? = some (.json properties cache))
    (hsame : properties.isImmutable = true → properties' = properties)
    (h : d'.objects = d.objects.set index (.json properties' cache')) : Extends d d' := by
  refine ⟨by simp [h], fun index' text c hc => ?_, fun index' entries c hc himmutable => ?_⟩
  · have hne : index ≠ index' := by
      rintro rfl
      rw [ho] at hc
      cases hc
    exact ⟨c, by rw [h, List.getElem?_set_ne hne, hc]⟩
  · by_cases hne : index = index'
    · subst hne
      rw [ho] at hc
      cases hc
      refine ⟨cache', ?_⟩
      rw [h, List.getElem?_set_self (List.getElem?_eq_some_iff.mp ho).1, hsame himmutable]
    · exact ⟨c, by rw [h, List.getElem?_set_ne hne, hc]⟩

theorem Extends.trans {d'' : Data ℚ} (h : Extends d d') (h' : Extends d' d'') : Extends d d'' where
  length := h.length.trans h'.length
  string index text cache ho := by
    obtain ⟨cache', ho'⟩ := h.string index text cache ho
    exact h'.string index text cache' ho'
  list index entries cache ho himmutable := by
    obtain ⟨cache', ho'⟩ := h.list index entries cache ho himmutable
    exact h'.list index entries cache' ho' himmutable

/-- A build goes on where its list and its object are left alone. -/
theorem Building.kept {b : Build ℚ} {empty properties : ZMap (Reg ℚ)} {cache cache' : Addr} {done : List String}
    {index : ℕ} (h : Building s b empty properties cache done index) (hd : Extends s.data s'.data)
    (hlist : s.data.objects[b.list - 1]? = some (.json empty 0) →
      s'.data.objects[b.list - 1]? = some (.json empty 0))
    (hsource : s'.data.objects[index]? = some (.json properties cache'))
    (halive : Alive s'.freed done.length b.entries) : Building s' b empty properties cache' done index where
  list := by
    obtain ⟨listIndex, hb, ho⟩ := h.list
    rw [hb] at hlist
    exact ⟨listIndex, hb, hlist ho⟩
  mutable := h.mutable
  object := h.object
  source := hsource
  keys := h.keys
  bounded := h.bounded
  index := h.index
  entries := h.entries.extends hd
  alive := halive
  later := h.later
  distinct := h.distinct

theorem Coherent.cached_le (h : Coherent s) {index : ℕ} {properties : ZMap (Reg ℚ)} {list : Addr}
    (ho : s.data.objects[index]? = some (.json properties list)) (hlist : list ≠ 0) :
    0 < list ∧ list ≤ s.data.objects.length := by
  obtain ⟨entries, c, hentries, -⟩ := h.cached index properties list ho hlist
  exact ⟨Nat.pos_of_ne_zero hlist, Nat.le_of_pred_lt (List.getElem?_eq_some_iff.mp hentries).1⟩

theorem cached_kept (h : Coherent s) (hd : Extends s.data d') {index : ℕ} {properties : ZMap (Reg ℚ)} {list : Addr}
    (ho : s.data.objects[index]? = some (.json properties list)) (hlist : list ≠ 0) : ∃ entries c,
      d'.objects[list - 1]? = some (.json entries c) ∧ entries.isImmutable = true ∧
        Entries d' properties.keyList entries ∧
        (.object (index + 1) ∉ s.freed → Alive s.freed properties.keyList.length entries) := by
  obtain ⟨entries, c, hentries, himmutable, hright, halive⟩ := h.cached index properties list ho hlist
  obtain ⟨c', hentries'⟩ := hd.list (list - 1) entries c hentries himmutable
  exact ⟨entries, c', hentries', himmutable, hright.extends hd, halive⟩

theorem Coherent.alloc (h : Coherent s) {o : Object ℚ} {objectsList : List Node}
    (ho : ∀ properties cache, o = .json properties cache →
      (properties.entries.map (·.key)).Nodup ∧ cache = 0)
    (hd : d'.objects = s.data.objects ++ [o])
    (hlist : ∀ n ∈ objectsList, n ∈ s.objectsList ∨ n = .object (s.data.objects.length + 1)) :
    Coherent { s with data := d', objectsList := objectsList } := by
  have hextends : Extends s.data d' := extends_alloc hd
  have hkept : ∀ (index : ℕ) (o' : Object ℚ), s.data.objects[index]? = some o' → d'.objects[index]? = some o' := by
    intro index o' ho'
    rw [hd, List.getElem?_append_left (List.getElem?_eq_some_iff.mp ho').1]
    exact ho'
  have horigin : ∀ (index : ℕ) (o' : Object ℚ), d'.objects[index]? = some o' →
      s.data.objects[index]? = some o' ∨ o' = o := by
    intro index o' ho'
    rw [hd, List.getElem?_append] at ho'
    split at ho'
    · exact Or.inl ho'
    · exact Or.inr (List.mem_singleton.mp (List.mem_of_getElem? ho'))
  refine ⟨fun address hmem => ?_, fun index properties cache hp => ?_, fun index properties list hp hne => ?_,
    fun thread b hb => ?_, h.apart⟩
  · rcases List.mem_append.mp hmem with hmem | hmem
    · rcases hlist _ hmem with hold | hnew
      · have hbound := h.bounded address (List.mem_append_left _ hold)
        exact ⟨hbound.1, hbound.2.trans hextends.length⟩
      · cases hnew
        simp [hd]
    · have hbound := h.bounded address (List.mem_append_right _ hmem)
      exact ⟨hbound.1, hbound.2.trans hextends.length⟩
  · rcases horigin index _ hp with hold | hnew
    · exact h.nodup index properties cache hold
    · exact (ho properties cache hnew.symm).1
  · rcases horigin index _ hp with hold | hnew
    · exact cached_kept h hextends hold hne
    · exact absurd (ho properties list hnew.symm).2 hne
  · obtain ⟨empty, properties, cache, done, index, hbuilding⟩ := h.building thread b hb
    exact ⟨empty, properties, cache, done, index, hbuilding.kept hextends (hkept _ _)
      (hkept _ _ hbuilding.source) hbuilding.alive⟩

theorem Coherent.build (h : Coherent s) {thread : ℕ} {b : Build ℚ} (empty properties : ZMap (Reg ℚ)) (cache : Addr)
    (done : List String) (index : ℕ) (hb : Building s b empty properties cache done index)
    (hself : b.list ≠ b.object)
    (hothers : ∀ thread' b', thread' ≠ thread → s.building thread' = some b' →
      b.list ≠ b'.list ∧ b.list ≠ b'.object ∧ b'.list ≠ b.object) :
    Coherent { s with building := Function.update s.building thread (some b) } := by
  have hcases : ∀ {thread' : ℕ} {b' : Build ℚ},
      Function.update s.building thread (some b) thread' = some b' →
      thread' = thread ∧ b' = b ∨ thread' ≠ thread ∧ s.building thread' = some b' := by
    intro thread' b' hb'
    by_cases heq : thread' = thread
    · subst heq
      rw [Function.update_self] at hb'
      exact Or.inl ⟨rfl, (Option.some.inj hb').symm⟩
    · rw [Function.update_of_ne heq] at hb'
      exact Or.inr ⟨heq, hb'⟩
  refine ⟨h.bounded, h.nodup, h.cached, fun thread' b' hb' => ?_, fun t t' x x' hx hx' => ?_⟩
  · rcases hcases hb' with ⟨-, rfl⟩ | ⟨-, hold⟩
    · exact ⟨empty, properties, cache, done, index, hb.list, hb.mutable, hb.object, hb.source, hb.keys,
        hb.bounded, hb.index, hb.entries, hb.alive, hb.later, hb.distinct⟩
    · obtain ⟨empty', properties', cache', done', index', hb'⟩ := h.building thread' b' hold
      exact ⟨empty', properties', cache', done', index', hb'.list, hb'.mutable, hb'.object, hb'.source,
        hb'.keys, hb'.bounded, hb'.index, hb'.entries, hb'.alive, hb'.later, hb'.distinct⟩
  · rcases hcases hx with ⟨rfl, rfl⟩ | ⟨hne, hold⟩
    · rcases hcases hx' with ⟨rfl, rfl⟩ | ⟨hne', hold'⟩
      · exact ⟨hself, fun _ => rfl⟩
      · obtain ⟨hlists, hobject, -⟩ := hothers t' x' hne' hold'
        exact ⟨hobject, fun heq => absurd heq hlists⟩
    · rcases hcases hx' with ⟨rfl, rfl⟩ | ⟨hne', hold'⟩
      · obtain ⟨hlists, -, hobject⟩ := hothers t x hne hold
        exact ⟨hobject, fun heq => absurd heq.symm hlists⟩
      · exact h.apart t t' x x' hold hold'

theorem write_coherent (h : Coherent s) {index : ℕ} {name : String} {value : Reg ℚ}
    {properties : ZMap (Reg ℚ)} {cache : Addr} (ho : s.data.objects[index]? = some (.json properties cache))
    (hseen : ¬s.Hidden (index + 1)) (hcareful : Careful s (.write (index + 1) name value)) :
    Coherent { s with data := s.data.setObject (index + 1) (.json (properties.insert name value) 0) } := by
  have himmutable : properties.isImmutable = true → properties.insert name value = properties := by
    intro himmutable
    unfold ZMap.insert ZMap.insertFlags
    rw [if_pos himmutable]
  have hobjects : (s.data.setObject (index + 1) (.json (properties.insert name value) 0)).objects =
      s.data.objects.set index (.json (properties.insert name value) 0) := rfl
  have hextends : Extends s.data (s.data.setObject (index + 1) (.json (properties.insert name value) 0)) :=
    extends_set ho himmutable hobjects
  have hother : ∀ index' : ℕ, index' ≠ index →
      (s.data.setObject (index + 1) (.json (properties.insert name value) 0)).objects[index']? =
        s.data.objects[index']? := by
    intro index' hne
    rw [hobjects, List.getElem?_set_ne hne.symm]
  have hself : (s.data.setObject (index + 1) (.json (properties.insert name value) 0)).objects[index]? =
      some (.json (properties.insert name value) 0) := by
    rw [hobjects]
    exact List.getElem?_set_self (List.getElem?_eq_some_iff.mp ho).1
  refine ⟨fun address hmem =>
    ⟨(h.bounded address hmem).1, (h.bounded address hmem).2.trans hextends.length⟩, fun index' properties' cache' hp => ?_,
    fun index' properties' list hp hne => ?_, fun thread b hb => ?_, h.apart⟩
  · by_cases heq : index' = index
    · subst heq
      rw [hself] at hp
      cases hp
      exact keys_insertFlags (h.nodup _ _ _ ho) name value _
    · rw [hother index' heq] at hp
      exact h.nodup index' properties' cache' hp
  · by_cases heq : index' = index
    · subst heq
      rw [hself] at hp
      cases hp
      exact absurd rfl hne
    · rw [hother index' heq] at hp
      exact cached_kept h hextends hp hne
  · obtain ⟨empty, properties', cache', done, index', hbuilding⟩ := h.building thread b hb
    have hobject : index' ≠ index := by
      rintro rfl
      exact hcareful thread b hb hbuilding.object
    obtain ⟨listIndex, hlist, -⟩ := hbuilding.list
    have hlistIndex : listIndex ≠ index := by
      rintro rfl
      exact hseen ⟨thread, b, hb, hlist⟩
    refine ⟨empty, properties', cache', done, index', hbuilding.kept hextends (fun hold => ?_)
      ((hother index' hobject).trans hbuilding.source) hbuilding.alive⟩
    rw [hlist] at hold ⊢
    exact (hother listIndex hlistIndex).trans hold

theorem keyListOf_eq_some {d : Data ℚ} {n : Node} {list : Addr} (h : d.keyListOf n = some list) :
    ∃ address properties, n = .object address ∧
      d.objects[address - 1]? = some (.json properties list) ∧ list ≠ 0 := by
  unfold Data.keyListOf at h
  split at h
  · rename_i address
    split at h
    · rename_i properties cache ho
      split at h
      · cases h
      · cases h
        exact ⟨address, properties, rfl, ho, ‹_›⟩
    · cases h
  · cases h

theorem mem_collected {roots : List Node} {n : Node} (h : n ∈ s.collected roots) :
    n ∈ s.objectsList ∧ n ∉ s.marked roots ∨
      ∃ address properties list, n = .object list ∧ .object address ∈ s.collected roots ∧
        .object address ∈ s.objectsList ∧
        s.data.objects[address - 1]? = some (.json properties list) ∧ list ≠ 0 := by
  unfold Heap.collected at h ⊢
  rcases List.mem_append.mp h with h | h
  · obtain ⟨hmem, hmarked⟩ := List.mem_filter.mp h
    exact Or.inl ⟨hmem, by simpa using hmarked⟩
  · obtain ⟨list, hlist, rfl⟩ := List.mem_map.mp h
    obtain ⟨owner, howner, hlist⟩ := List.mem_filterMap.mp hlist
    obtain ⟨address, properties, rfl, ho, hne⟩ := keyListOf_eq_some hlist
    exact Or.inr ⟨address, properties, list, rfl, List.mem_append_left _ howner,
      (List.mem_filter.mp howner).1, ho, hne⟩

/-- What the collection keeps is alive. -/
theorem collect_coherent (h : Coherent s) {roots : List Node} (hcareful : Careful s (.collect roots)) :
    Coherent { s with
      objectsList := s.objectsList.filter (· ∈ s.marked roots)
      freed := s.freed ++ s.collected roots } := by
  have halive : ∀ {n : ℕ} {keys : List String} {entries : ZMap (Reg ℚ)}, Entries s.data keys entries →
      n ≤ keys.length → Alive s.freed n entries →
      (∀ entry ∈ entries.entries, ∀ x ∈ s.data.registerNodes entry.value, x ∈ s.marked roots) →
      Alive (s.freed ++ s.collected roots) n entries := by
    intro n keys entries hentries hn hold hreached i address hi hget hmem
    rcases List.mem_append.mp hmem with hmem | hmem
    · exact hold i address hi hget hmem
    · obtain ⟨key, hkey⟩ : ∃ key, keys[i]? = some key := ⟨_, List.getElem?_eq_getElem (by omega)⟩
      obtain ⟨address', cache, hget', hstring⟩ := hentries.entry i key hkey
      rw [hget] at hget'
      cases hget'
      rcases mem_collected hmem with ⟨-, hunmarked⟩ | ⟨owner, properties, list, heq, -, -, howner, hne⟩
      · obtain ⟨entry, hentry, hvalue⟩ := get_mem hget
        refine hunmarked (hreached entry hentry _ ?_)
        rw [hvalue]
        simp [Data.registerNodes, Data.object, hstring]
      · -- a cached list is no string
        obtain ⟨entries', c, hlist, -⟩ := h.cached _ properties list howner hne
        cases heq
        rw [Nat.add_sub_cancel, hstring] at hlist
        cases hlist
  refine ⟨fun address hmem => ?_, h.nodup, fun index properties list hp hne => ?_, fun thread b hb => ?_, h.apart⟩
  · rcases List.mem_append.mp hmem with hmem | hmem
    · exact h.bounded address (List.mem_append_left _ (List.mem_filter.mp hmem).1)
    · rcases List.mem_append.mp hmem with hmem | hmem
      · exact h.bounded address (List.mem_append_right _ hmem)
      · rcases mem_collected hmem with ⟨hlisted, -⟩ | ⟨owner, properties, list, heq, -, -, howner, hne⟩
        · exact h.bounded address (List.mem_append_left _ hlisted)
        · cases heq
          exact h.cached_le howner hne
  · obtain ⟨entries, c, hentries, himmutable, hright, hold⟩ := h.cached index properties list hp hne
    refine ⟨entries, c, hentries, himmutable, hright, fun hfree => ?_⟩
    have hstays : Stays s roots (.object (index + 1)) :=
      ⟨fun hmem => hfree (List.mem_append_left _ hmem), fun hmem => hfree (List.mem_append_right _ hmem)⟩
    exact halive hright (le_refl _) (hold hstays.1)
      (hcareful.1 index properties entries list c hp hne hstays hentries)
  · obtain ⟨empty, properties, cache, done, index, hbuilding⟩ := h.building thread b hb
    have hsame : Extends s.data s.data :=
      ⟨le_refl _, fun _ _ cache ho => ⟨cache, ho⟩, fun _ _ cache ho _ => ⟨cache, ho⟩⟩
    exact ⟨empty, properties, cache, done, index, hbuilding.kept hsame id hbuilding.source
      (halive hbuilding.entries (le_refl _) hbuilding.alive (hcareful.2 thread b hb))⟩

def newProperties : ZMap (Reg ℚ) :=
  (ZMap.new.insertHidden "size" ⟨.nativeFunc, .native .keySize⟩).insertHidden "keys"
    ⟨.nativeFunc, .native .keyList⟩

theorem newJson_objects (d : Data ℚ) : d.newJson.1.objects = d.objects ++ [.json newProperties 0] := rfl

theorem newJson_address (d : Data ℚ) : d.newJson.2 = d.objects.length + 1 := rfl

theorem newProperties_index {i : ℕ} (hi : i < 2 ^ 31) : newProperties.get (indexName ℚ i) = none := by
  have hname : ∀ name : String, (name.toList.all Char.isDigit) = false → indexName ℚ i ≠ name := by
    intro name hname heq
    have hdigits := indexName_digits hi
    rw [heq] at hdigits
    rw [List.all_eq_true.mpr hdigits] at hname
    cases hname
  have hsize := hname "size" (by decide)
  have hkeys := hname "keys" (by decide)
  unfold newProperties ZMap.insertHidden ZMap.get
  rw [ZMap.getFlags_insertFlags_of_ne _ _ _ hkeys, ZMap.getFlags_insertFlags_of_ne _ _ _ hsize]
  rfl

theorem newProperties_nodup : (newProperties.entries.map (·.key)).Nodup := by decide

theorem makeJson_coherent (h : Coherent s) {objectsList : List Node}
    (hlist : ∀ n ∈ objectsList, n ∈ s.objectsList ∨ n = .object (s.data.objects.length + 1)) :
    Coherent { s with data := s.data.newJson.1, objectsList := objectsList } := by
  refine h.alloc (fun properties cache heq => ?_) (newJson_objects s.data) hlist
  cases heq
  exact ⟨newProperties_nodup, rfl⟩

theorem Building.list_le {b : Build ℚ} {empty properties : ZMap (Reg ℚ)} {cache : Addr} {done : List String}
    {index : ℕ} (h : Building s b empty properties cache done index) :
    b.list ≤ s.data.objects.length ∧ b.object ≤ s.data.objects.length := by
  obtain ⟨listIndex, hlist, ho⟩ := h.list
  rw [hlist, h.object]
  exact ⟨(List.getElem?_eq_some_iff.mp ho).1, (List.getElem?_eq_some_iff.mp h.source).1⟩

theorem start_coherent (h : Coherent s) {thread index : ℕ} {properties empty : ZMap (Reg ℚ)}
    (ho : s.data.objects[index]? = some (.json properties 0)) (hseen : ¬s.Hidden (index + 1))
    (hempty : s.data.newJson.1.objects[s.data.newJson.2 - 1]? = some (.json empty 0))
    (hcareful : Careful s (.keys thread (index + 1))) :
    Coherent { s with
      data := s.data.newJson.1
      building := Function.update s.building thread
        (some ⟨index + 1, s.data.newJson.2, properties.keyList, 0, empty⟩) } := by
  have hjson := makeJson_coherent h fun n hn => Or.inl hn
  have hindex : index < s.data.objects.length := (List.getElem?_eq_some_iff.mp ho).1
  have hnew : s.data.newJson.1.objects[s.data.newJson.2 - 1]? = some (Object.json newProperties 0) := by
    rw [newJson_objects, newJson_address]
    simp
  obtain rfl : newProperties = empty := by
    rw [hnew] at hempty
    cases hempty
    rfl
  have hsource : s.data.newJson.1.objects[index]? = some (Object.json properties 0) := by
    rw [newJson_objects, List.getElem?_append_left hindex]
    exact ho
  refine hjson.build newProperties properties 0 [] index
    ⟨⟨s.data.objects.length, newJson_address s.data, hnew⟩, ⟨rfl, rfl⟩, rfl, hsource, rfl,
      hcareful properties 0 ho, rfl, ⟨rfl, nofun⟩, fun i address hi => absurd hi (Nat.not_lt_zero i),
      fun i _ hi => newProperties_index hi, newProperties_nodup⟩ ?_ fun thread' b' hne hb' => ?_
  · exact Nat.ne_of_gt (Nat.succ_lt_succ hindex)
  · obtain ⟨_, _, _, _, _, hbuilding⟩ := h.building thread' b' hb'
    have hle := hbuilding.list_le
    exact ⟨Nat.ne_of_gt (Nat.lt_succ_of_le hle.1), Nat.ne_of_gt (Nat.lt_succ_of_le hle.2),
      fun heq => hseen ⟨thread', b', hb', heq⟩⟩

theorem copy_coherent (h : Coherent s) {thread : ℕ} {b : Build ℚ} {key : String} {keys : List String}
    (hb : s.building thread = some b) (hkeys : b.keys = key :: keys) :
    Coherent { s with
      data := (s.data.newReg .str (.string key 0)).1
      objectsList := s.objectsList ++ [.object (s.data.alloc (.string key 0)).2]
      building := Function.update s.building thread (some { b with
        keys := keys
        index := b.index + 1
        entries := b.entries.insert (indexName ℚ b.index) (s.data.newReg .str (.string key 0)).2 }) } := by
  have hobjects : (s.data.newReg .str (.string key 0)).1.objects = s.data.objects ++ [Object.string key 0] := rfl
  have hstring : Coherent { s with
      data := (s.data.newReg .str (.string key 0)).1
      objectsList := s.objectsList ++ [.object (s.data.alloc (.string key 0)).2] } := by
    refine h.alloc (o := .string key 0) nofun hobjects fun n hn => ?_
    rcases List.mem_append.mp hn with hn | hn
    · exact Or.inl hn
    · exact Or.inr (List.mem_singleton.mp hn)
  obtain ⟨empty, properties, cache, done, index, hbuilding⟩ := h.building thread b hb
  have hextends : Extends s.data (s.data.newReg .str (.string key 0)).1 := extends_alloc hobjects
  have hlength : done.length < properties.keyList.length := by
    rw [hbuilding.keys, hkeys, List.length_append, List.length_cons]
    omega
  have hshort : done.length < 2 ^ 31 := Nat.lt_of_lt_of_le hlength hbuilding.bounded
  have hnone := hbuilding.later done.length (le_refl _) hshort
  have hget : ∀ i, i < 2 ^ 31 → i ≠ done.length →
      (b.entries.insert (indexName ℚ b.index) (s.data.newReg .str (.string key 0)).2).get (indexName ℚ i) =
        b.entries.get (indexName ℚ i) := by
    intro i hi hne
    rw [hbuilding.index]
    exact ZMap.get_insert_of_ne _ _ fun heq => hne (indexName_injective hi hshort heq)
  have hself : (b.entries.insert (indexName ℚ b.index) (s.data.newReg .str (.string key 0)).2).get
      (indexName ℚ done.length) = some ⟨.str, .raw (s.data.objects.length + 1)⟩ := by
    rw [hbuilding.index]
    exact ZMap.get_insert_self _ _ hbuilding.mutable.2
  have hkept : ∀ (index : ℕ) (o : Object ℚ), s.data.objects[index]? = some o →
      (s.data.newReg .str (.string key 0)).1.objects[index]? = some o := by
    intro index o ho
    rw [hobjects, List.getElem?_append_left (List.getElem?_eq_some_iff.mp ho).1]
    exact ho
  obtain ⟨listIndex, hlist, holist⟩ := hbuilding.list
  refine hstring.build empty properties cache (done ++ [key]) index
    ⟨⟨listIndex, hlist, hkept _ _ holist⟩, ⟨hbuilding.mutable.1, ?_⟩, hbuilding.object,
      hkept _ _ hbuilding.source, ?_, hbuilding.bounded, ?_, ⟨?_, fun i key' hi => ?_⟩,
      fun i address hi haddress hmem => ?_, fun i hi hbound => ?_, ?_⟩
    (h.apart thread thread b b hb hb).1 fun thread' b' hne hb' => ?_
  · exact (ZMap.insertFlags_isImmutable _ _ _ _).trans hbuilding.mutable.2
  · rw [hbuilding.keys, hkeys, List.append_assoc]
    rfl
  · rw [List.length_append, hbuilding.index]
    rfl
  · rw [hbuilding.index, size_insert hbuilding.mutable.2 hnone, hbuilding.entries.size, List.length_append]
    rfl
  · rw [List.getElem?_append] at hi
    split at hi
    · rename_i hlt
      obtain ⟨address, cache', hentry, hstring'⟩ := (hbuilding.entries.extends hextends).entry i key' hi
      exact ⟨address, cache', (hget i (hlt.trans hshort) (Nat.ne_of_lt hlt)).trans hentry, hstring'⟩
    · rename_i hge
      have hzero : i - done.length = 0 := by
        have hlt := (List.getElem?_eq_some_iff.mp hi).1
        rw [List.length_singleton] at hlt
        omega
      obtain rfl : i = done.length := by omega
      rw [hzero] at hi
      cases hi
      exact ⟨s.data.objects.length, 0, hself, by rw [hobjects]; simp⟩
  · rw [List.length_append, List.length_singleton] at hi
    by_cases hlast : i = done.length
    · subst hlast
      rw [hself] at haddress
      cases haddress
      have hle := (h.bounded _ (List.mem_append_right _ hmem)).2
      omega
    · rw [hget i (by omega) hlast] at haddress
      exact hbuilding.alive i address (by omega) haddress hmem
  · rw [List.length_append, List.length_singleton] at hi
    rw [hget i hbound (by omega)]
    exact hbuilding.later i (by omega) hbound
  · exact keys_insertFlags hbuilding.distinct _ _ _
  · have hthis := h.apart thread thread' b b' hb hb'
    exact ⟨fun heq => hne (hthis.2 heq).symm, hthis.1, (h.apart thread' thread b' b hb' hb).1⟩

theorem finish_objects {b : Build ℚ} {empty properties : ZMap (Reg ℚ)} {cache : Addr} {done : List String}
    {index : ℕ} (h : Building s b empty properties cache done index) (hne : b.list ≠ b.object) :
    ((s.data.setObject b.list (.json { b.entries with isImmutable := true } 0)).setCache
      b.object b.list).objects =
      (s.data.objects.set (b.list - 1) (.json { b.entries with isImmutable := true } 0)).set index
        (.json properties b.list) := by
  obtain ⟨listIndex, hlist, -⟩ := h.list
  have hindex : b.list - 1 ≠ index := by
    intro heq
    rw [hlist] at heq
    refine hne ?_
    rw [hlist, h.object, ← heq]
    rfl
  have hsource : (s.data.objects.set (b.list - 1) (.json { b.entries with isImmutable := true } 0))[index]? =
      some (.json properties cache) := by
    rw [List.getElem?_set_ne hindex]
    exact h.source
  unfold Data.setCache Data.setObject
  rw [h.object]
  simp only [Nat.add_sub_cancel]
  rw [hsource]

/-- Once a thread has published its list, two objects are new and the others as before. -/
structure Finished (s : Heap ℚ) (b : Build ℚ) (properties : ZMap (Reg ℚ)) (index listIndex : ℕ) (d' : Data ℚ) :
    Prop where
  source : d'.objects[index]? = some (.json properties b.list)
  list : d'.objects[listIndex]? = some (.json { b.entries with isImmutable := true } 0)
  other : ∀ i, i ≠ index → i ≠ listIndex → d'.objects[i]? = s.data.objects[i]?
  grows : Extends s.data d'

section

variable {thread index listIndex : ℕ} {b : Build ℚ} {empty properties : ZMap (Reg ℚ)} {cache : Addr}
  {done : List String}

theorem finish_finished (hbuilding : Building s b empty properties cache done index) (hne : b.list ≠ b.object)
    (hlist : b.list = listIndex + 1) :
    Finished s b properties index listIndex
      ((s.data.setObject b.list (.json { b.entries with isImmutable := true } 0)).setCache b.object b.list) := by
  have hobjects := finish_objects hbuilding hne
  have holist : s.data.objects[listIndex]? = some (.json empty 0) := by
    obtain ⟨listIndex', hlist', holist⟩ := hbuilding.list
    obtain rfl : listIndex' = listIndex := Nat.succ.inj (hlist'.symm.trans hlist)
    exact holist
  generalize (s.data.setObject b.list (.json { b.entries with isImmutable := true } 0)).setCache
    b.object b.list = d' at hobjects ⊢
  have hlistIndex : b.list - 1 = listIndex := by
    rw [hlist]
    rfl
  rw [hlistIndex] at hobjects
  have hindex : index ≠ listIndex := by
    rintro rfl
    exact hne (hlist.trans hbuilding.object.symm)
  refine ⟨?_, ?_, fun i hi hi' => ?_, ?_⟩
  · rw [hobjects, List.getElem?_set_self]
    rw [List.length_set]
    exact (List.getElem?_eq_some_iff.mp hbuilding.source).1
  · rw [hobjects, List.getElem?_set_ne hindex, List.getElem?_set_self]
    exact (List.getElem?_eq_some_iff.mp holist).1
  · rw [hobjects, List.getElem?_set_ne hi.symm, List.getElem?_set_ne hi'.symm]
  · have hfirst : Extends s.data
        { s.data with objects := s.data.objects.set listIndex (.json { b.entries with isImmutable := true } 0) } :=
      extends_set holist (fun himmutable => by rw [hbuilding.mutable.1] at himmutable; cases himmutable) rfl
    have hsource : (s.data.objects.set listIndex (.json { b.entries with isImmutable := true } 0))[index]? =
        some (.json properties cache) := by
      rw [List.getElem?_set_ne hindex.symm]
      exact hbuilding.source
    exact hfirst.trans (extends_set hsource (fun _ => rfl) hobjects)

theorem Finished.nodup (hd : Finished s b properties index listIndex d') (h : Coherent s)
    (hbuilding : Building s b empty properties cache done index) {index' : ℕ} {properties' : ZMap (Reg ℚ)}
    {cache' : Addr} (ho : d'.objects[index']? = some (.json properties' cache')) :
    (properties'.entries.map (·.key)).Nodup := by
  by_cases hindex : index' = index
  · subst hindex
    rw [hd.source] at ho
    cases ho
    exact h.nodup _ _ _ hbuilding.source
  by_cases hlist : index' = listIndex
  · subst hlist
    rw [hd.list] at ho
    cases ho
    exact hbuilding.distinct
  rw [hd.other index' hindex hlist] at ho
  exact h.nodup index' properties' cache' ho

theorem Finished.cached (hd : Finished s b properties index listIndex d') (h : Coherent s)
    (hbuilding : Building s b empty properties cache done index) (hkeys : b.keys = []) (hb : b.list = listIndex + 1)
    {index' : ℕ} {properties' : ZMap (Reg ℚ)} {list : Addr}
    (ho : d'.objects[index']? = some (.json properties' list)) (hne : list ≠ 0) : ∃ entries c,
      d'.objects[list - 1]? = some (.json entries c) ∧ entries.isImmutable = true ∧
        Entries d' properties'.keyList entries ∧
        (.object (index' + 1) ∉ s.freed → Alive s.freed properties'.keyList.length entries) := by
  by_cases hindex : index' = index
  · -- the list that has just been made
    subst hindex
    rw [hd.source] at ho
    cases ho
    have hdone : properties.keyList = done := by
      rw [hbuilding.keys, hkeys, List.append_nil]
    rw [hdone]
    refine ⟨{ b.entries with isImmutable := true }, 0, ?_, rfl,
      ⟨hbuilding.entries.size, (hbuilding.entries.extends hd.grows).entry⟩, fun _ => hbuilding.alive⟩
    rw [hb]
    exact hd.list
  by_cases hlist : index' = listIndex
  · subst hlist
    rw [hd.list] at ho
    cases ho
    exact absurd rfl hne
  rw [hd.other index' hindex hlist] at ho
  exact cached_kept h hd.grows ho hne

theorem Finished.building (hd : Finished s b properties index listIndex d') (h : Coherent s)
    (hb : s.building thread = some b) (hbuilding : Building s b empty properties cache done index)
    (hlist : b.list = listIndex + 1) {thread' : ℕ} {b' : Build ℚ} (hthread : thread' ≠ thread)
    (hb' : s.building thread' = some b') : ∃ empty' properties' cache' done' index',
      Building { s with data := d', building := Function.update s.building thread none } b' empty' properties' cache'
        done' index' := by
  obtain ⟨empty', properties', cache', done', index', hbuilding'⟩ := h.building thread' b' hb'
  obtain ⟨listIndex', hlist', -⟩ := hbuilding'.list
  have hapart := h.apart thread thread' b b' hb hb'
  have hlists : listIndex' ≠ listIndex := by
    rintro rfl
    exact hthread (hapart.2 (hlist.trans hlist'.symm)).symm
  have hobject : index' ≠ listIndex := by
    rintro rfl
    exact hapart.1 (hlist.trans hbuilding'.object.symm)
  have hmade : listIndex' ≠ index := by
    rintro rfl
    exact (h.apart thread' thread b' b hb' hb).1 (hlist'.trans hbuilding.object.symm)
  obtain ⟨cache'', hsource⟩ : ∃ cache'', d'.objects[index']? = some (Object.json properties' cache'') := by
    by_cases heq : index' = index
    · subst heq
      obtain ⟨rfl, -⟩ : properties = properties' ∧ cache = cache' := by
        have hsame := hbuilding.source.symm.trans hbuilding'.source
        simpa using hsame
      exact ⟨_, hd.source⟩
    · exact ⟨cache', (hd.other index' heq hobject).trans hbuilding'.source⟩
  refine ⟨empty', properties', cache'', done', index', hbuilding'.kept hd.grows (fun hkept => ?_) hsource
    hbuilding'.alive⟩
  rw [hlist'] at hkept ⊢
  exact (hd.other listIndex' hmade hlists).trans hkept

end

theorem finish_coherent (h : Coherent s) {thread : ℕ} {b : Build ℚ} (hb : s.building thread = some b)
    (hkeys : b.keys = []) :
    Coherent { s with
      data := (s.data.setObject b.list (.json { b.entries with isImmutable := true } 0)).setCache
        b.object b.list
      building := Function.update s.building thread none } := by
  obtain ⟨empty, properties, cache, done, index, hbuilding⟩ := h.building thread b hb
  obtain ⟨listIndex, hlist, -⟩ := hbuilding.list
  have hd := finish_finished hbuilding (h.apart thread thread b b hb hb).1 hlist
  have hothers : ∀ {thread' : ℕ} {b' : Build ℚ}, Function.update s.building thread none thread' = some b' →
      thread' ≠ thread ∧ s.building thread' = some b' := by
    intro thread' b' hb'
    by_cases heq : thread' = thread
    · subst heq
      rw [Function.update_self] at hb'
      cases hb'
    · rw [Function.update_of_ne heq] at hb'
      exact ⟨heq, hb'⟩
  refine ⟨fun address hmem => ?_, fun _ _ _ ho => hd.nodup h hbuilding ho,
    fun _ _ _ ho hne => hd.cached h hbuilding hkeys hlist ho hne, fun thread' b' hb' => ?_,
    fun t t' x x' hx hx' => h.apart t t' x x' (hothers hx).2 (hothers hx').2⟩
  · have hbounded := h.bounded address hmem
    exact ⟨hbounded.1, hbounded.2.trans hd.grows.length⟩
  · obtain ⟨hthread, hold⟩ := hothers hb'
    exact hd.building h hb hbuilding hlist hthread hold

theorem start_empty {d : Data ℚ} (hd : d.objects = []) : Coherent { data := d } where
  bounded address hmem := absurd hmem (by simp)
  nodup index properties cache hp := by simp [hd] at hp
  cached index properties list hp := by simp [hd] at hp
  building thread b hb := by cases hb
  apart thread thread' b b' hb := by cases hb

theorem step_coherent {move : Move ℚ} (h : Coherent s) (hstep : Step s move s') (hcareful : Careful s move) :
    Coherent s' := by
  have hadded : ∀ {address : Addr}, ∀ n ∈ s.objectsList ++ [Node.object address],
      n ∈ s.objectsList ∨ n = .object address := by
    intro address n hn
    rcases List.mem_append.mp hn with hn | hn
    · exact Or.inl hn
    · exact Or.inr (List.mem_singleton.mp hn)
  cases hstep with
  | make ho => exact h.alloc (fun properties cache heq => absurd heq (ho properties cache)) rfl hadded
  | makeJson => exact makeJson_coherent h hadded
  | write ho hseen => exact write_coherent h ho hseen hcareful
  | cached => exact h
  | start ho hseen hthread hempty => exact start_coherent h ho hseen hempty hcareful
  | copy hb hkeys => exact copy_coherent h hb hkeys
  | finish hb hkeys => exact finish_coherent h hb hkeys
  | collect => exact collect_coherent h hcareful

theorem carefulRun_coherent (h : CarefulRun s) : Coherent s := by
  induction h with
  | start hd => exact start_empty hd
  | step hrun hstep hcareful ih => exact step_coherent ih hstep hcareful

def Caches (d : Data ℚ) (index : ℕ) (list : Addr) : Prop :=
  ∃ properties, d.objects[index]? = some (.json properties list) ∧ list ≠ 0

/-- A list of keys goes with its object only: no other has it, and it is in no list of objects. -/
structure Owned (s : Heap ℚ) : Prop where
  once : ∀ index index' list, Caches s.data index list → Caches s.data index' list → index = index'
  unlisted : ∀ index list, Caches s.data index list → .object list ∉ s.objectsList
  kept : ∀ index list, Caches s.data index list → .object (index + 1) ∉ s.freed → .object list ∉ s.freed
  building : ∀ thread b, s.building thread = some b → .object b.list ∉ s.objectsList ∧
    .object b.list ∉ s.freed ∧ ∀ index, ¬Caches s.data index b.list

theorem Owned.grow (h : Owned s) (hcoherent : Coherent s) (hfreed : s'.freed = s.freed)
    (hlist : ∀ n ∈ s'.objectsList, n ∈ s.objectsList ∨ n = .object (s.data.objects.length + 1))
    (hcaches : ∀ index list, Caches s'.data index list → Caches s.data index list)
    (hbuilding : ∀ thread b, s'.building thread = some b →
      (∃ b', s.building thread = some b' ∧ b'.list = b.list) ∨
        b.list = s.data.objects.length + 1 ∧ s'.objectsList = s.objectsList) : Owned s' where
  once index index' list hc hc' := h.once index index' list (hcaches _ _ hc) (hcaches _ _ hc')
  unlisted index list hc hmem := by
    obtain ⟨properties, ho, hne⟩ := hcaches index list hc
    rcases hlist _ hmem with hold | hnew
    · exact h.unlisted index list ⟨properties, ho, hne⟩ hold
    · cases hnew
      exact Nat.not_succ_le_self _ (hcoherent.cached_le ho hne).2
  kept index list hc := by
    rw [hfreed]
    exact h.kept index list (hcaches _ _ hc)
  building thread b hb := by
    rw [hfreed]
    rcases hbuilding thread b hb with ⟨b', hb', hsame⟩ | ⟨hnew, hlists⟩
    · obtain ⟨hunlisted, hunfreed, huncached⟩ := h.building thread b' hb'
      obtain ⟨_, _, _, _, _, hbuilding'⟩ := hcoherent.building thread b' hb'
      rw [← hsame]
      refine ⟨fun hmem => ?_, hunfreed, fun index hc => huncached index (hcaches _ _ hc)⟩
      rcases hlist _ hmem with hold | hnew
      · exact hunlisted hold
      · have hle := hbuilding'.list_le.1
        rw [Node.object.inj hnew] at hle
        exact Nat.not_succ_le_self _ hle
    · rw [hnew, hlists]
      have hfresh : .object (s.data.objects.length + 1) ∉ s.objectsList ++ s.freed := by
        intro hmem
        exact Nat.not_succ_le_self _ (hcoherent.bounded _ hmem).2
      refine ⟨fun hmem => hfresh (List.mem_append_left _ hmem),
        fun hmem => hfresh (List.mem_append_right _ hmem), fun index hc => ?_⟩
      obtain ⟨properties, ho, hne⟩ := hcaches _ _ hc
      exact Nat.not_succ_le_self _ (hcoherent.cached_le ho hne).2

theorem caches_alloc {o : Object ℚ} (ho : ∀ properties cache, o = .json properties cache → cache = 0)
    (hd : d'.objects = d.objects ++ [o]) {index : ℕ} {list : Addr} (h : Caches d' index list) :
    Caches d index list := by
  obtain ⟨properties, hc, hne⟩ := h
  rw [hd, List.getElem?_append] at hc
  split at hc
  · exact ⟨properties, hc, hne⟩
  · exact absurd (ho properties list (List.mem_singleton.mp (List.mem_of_getElem? hc)).symm) hne

theorem collect_owned (h : Owned s) (hcoherent : Coherent s) (roots : List Node) :
    Owned { s with
      objectsList := s.objectsList.filter (· ∈ s.marked roots)
      freed := s.freed ++ s.collected roots } where
  once := h.once
  unlisted index list hc hmem := h.unlisted index list hc (List.mem_filter.mp hmem).1
  kept index list hc hfree hmem := by
    rcases List.mem_append.mp hmem with hmem | hmem
    · exact h.kept index list hc (fun hold => hfree (List.mem_append_left _ hold)) hmem
    · rcases mem_collected hmem with
        ⟨hlisted, -⟩ | ⟨owner, properties, list', heq, hcollected, howner, ho, hne⟩
      · exact h.unlisted index list hc hlisted
      · -- the list went with the object that has it
        cases heq
        have hpos := (hcoherent.bounded owner (List.mem_append_left _ howner)).1
        obtain ⟨index', rfl⟩ := Nat.exists_eq_succ_of_ne_zero (Nat.ne_of_gt hpos)
        obtain rfl : index = index' := h.once index index' list hc ⟨properties, ho, hne⟩
        exact hfree (List.mem_append_right _ hcollected)
  building thread b hb := by
    obtain ⟨hunlisted, hunfreed, huncached⟩ := h.building thread b hb
    refine ⟨fun hmem => hunlisted (List.mem_filter.mp hmem).1, fun hmem => ?_, huncached⟩
    rcases List.mem_append.mp hmem with hmem | hmem
    · exact hunfreed hmem
    · rcases mem_collected hmem with ⟨hlisted, -⟩ | ⟨owner, properties, list', heq, -, -, ho, hne⟩
      · exact hunlisted hlisted
      · cases heq
        exact huncached _ ⟨properties, ho, hne⟩

theorem finish_owned (h : Owned s) (hcoherent : Coherent s) {thread : ℕ} {b : Build ℚ}
    (hb : s.building thread = some b) :
    Owned { s with
      data := (s.data.setObject b.list (.json { b.entries with isImmutable := true } 0)).setCache
        b.object b.list
      building := Function.update s.building thread none } := by
  obtain ⟨empty, properties, cache, done, index, hbuilding⟩ := hcoherent.building thread b hb
  obtain ⟨hunlisted, hunfreed, huncached⟩ := h.building thread b hb
  have hobjects := finish_objects hbuilding (hcoherent.apart thread thread b b hb hb).1
  generalize (s.data.setObject b.list (.json { b.entries with isImmutable := true } 0)).setCache
    b.object b.list = d' at hobjects ⊢
  have hcaches : ∀ {index' : ℕ} {list : Addr}, Caches d' index' list →
      index' = index ∧ list = b.list ∨ Caches s.data index' list := by
    rintro index' list ⟨properties', hc, hne⟩
    rw [hobjects, List.getElem?_set] at hc
    split at hc
    · split at hc
      · cases hc
        exact Or.inl ⟨by omega, rfl⟩
      · cases hc
    · rw [List.getElem?_set] at hc
      split at hc
      · split at hc
        · cases hc
          exact absurd rfl hne
        · cases hc
      · exact Or.inr ⟨properties', hc, hne⟩
  refine ⟨fun i i' list hc hc' => ?_, fun i list hc => ?_, fun i list hc hfree => ?_, fun thread' b' hb' => ?_⟩
  · rcases hcaches hc with ⟨rfl, rfl⟩ | hold
    · rcases hcaches hc' with ⟨rfl, -⟩ | hold'
      · rfl
      · exact absurd hold' (huncached i')
    · rcases hcaches hc' with ⟨rfl, rfl⟩ | hold'
      · exact absurd hold (huncached i)
      · exact h.once i i' list hold hold'
  · rcases hcaches hc with ⟨-, rfl⟩ | hold
    · exact hunlisted
    · exact h.unlisted i list hold
  · rcases hcaches hc with ⟨-, rfl⟩ | hold
    · exact hunfreed
    · exact h.kept i list hold hfree
  · dsimp only at hb'
    by_cases heq : thread' = thread
    · subst heq
      rw [Function.update_self] at hb'
      cases hb'
    · rw [Function.update_of_ne heq] at hb'
      obtain ⟨hunlisted', hunfreed', huncached'⟩ := h.building thread' b' hb'
      refine ⟨hunlisted', hunfreed', fun i hc => ?_⟩
      rcases hcaches hc with ⟨-, hlist⟩ | hold
      · exact heq ((hcoherent.apart thread' thread b' b hb' hb).2 hlist)
      · exact huncached' i hold

theorem step_owned {move : Move ℚ} (h : Owned s) (hcoherent : Coherent s) (hstep : Step s move s') : Owned s' := by
  have hadded : ∀ {address : Addr}, ∀ n ∈ s.objectsList ++ [Node.object address],
      n ∈ s.objectsList ∨ n = .object address := by
    intro address n hn
    rcases List.mem_append.mp hn with hn | hn
    · exact Or.inl hn
    · exact Or.inr (List.mem_singleton.mp hn)
  have hjson : ∀ index list, Caches s.data.newJson.1 index list → Caches s.data index list := by
    intro index list hc
    refine caches_alloc (fun properties cache heq => ?_) (newJson_objects s.data) hc
    cases heq
    rfl
  cases hstep with
  | @make o ho =>
    refine h.grow hcoherent rfl hadded (fun index list hc => ?_) fun thread b hb => Or.inl ⟨b, hb, rfl⟩
    exact caches_alloc (fun properties cache heq => absurd heq (ho properties cache)) rfl hc
  | makeJson => exact h.grow hcoherent rfl hadded hjson fun thread b hb => Or.inl ⟨b, hb, rfl⟩
  | @write index name value properties cache ho =>
    refine h.grow hcoherent rfl (fun n hn => Or.inl hn) (fun index' list hc => ?_)
      fun thread b hb => Or.inl ⟨b, hb, rfl⟩
    obtain ⟨properties', hc, hne⟩ := hc
    unfold Data.setObject at hc
    rw [List.getElem?_set] at hc
    split at hc
    · split at hc
      · cases hc
        exact absurd rfl hne
      · cases hc
    · exact ⟨properties', hc, hne⟩
  | cached => exact h
  | @start thread =>
    refine h.grow hcoherent rfl (fun n hn => Or.inl hn) hjson fun thread' b hb => ?_
    dsimp only at hb
    by_cases heq : thread' = thread
    · subst heq
      rw [Function.update_self] at hb
      cases hb
      exact Or.inr ⟨rfl, rfl⟩
    · rw [Function.update_of_ne heq] at hb
      exact Or.inl ⟨b, hb, rfl⟩
  | @copy thread b key keys hb =>
    refine h.grow hcoherent rfl hadded (fun index list hc => ?_) fun thread' b' hb' => ?_
    · exact caches_alloc (o := .string key 0) nofun rfl hc
    · dsimp only at hb'
      by_cases heq : thread' = thread
      · subst heq
        rw [Function.update_self] at hb'
        cases hb'
        exact Or.inl ⟨b, hb, rfl⟩
      · rw [Function.update_of_ne heq] at hb'
        exact Or.inl ⟨b', hb', rfl⟩
  | finish hb => exact finish_owned h hcoherent hb
  | @collect roots => exact collect_owned h hcoherent roots

theorem carefulRun_owned (h : CarefulRun s) : Owned s := by
  induction h with
  | @start d hd =>
    have hnone : ∀ index list, ¬Caches d index list := by
      rintro index list ⟨properties, hc, -⟩
      rw [hd] at hc
      cases hc
    exact ⟨fun _ _ _ hc => absurd hc (hnone _ _), fun _ _ hc => absurd hc (hnone _ _),
      fun _ _ hc => absurd hc (hnone _ _), fun _ _ hb => by cases hb⟩
  | step hrun hstep _ ih => exact step_owned ih (carefulRun_coherent hrun) hstep

theorem Coherent.right (h : Coherent s) (howned : Owned s) {index : ℕ} {properties : ZMap (Reg ℚ)} {list : Addr}
    (ho : s.data.objects[index]? = some (.json properties list)) (hlist : list ≠ 0)
    (hfree : .object (index + 1) ∉ s.freed) : Right s (index + 1) list := by
  obtain ⟨entries, c, hentries, -, hright, halive⟩ := h.cached index properties list ho hlist
  refine ⟨properties, list, entries, c, ho, keyList_nodup (h.nodup index properties list ho), hentries,
    howned.kept index list ⟨properties, ho, hlist⟩ hfree, hright.size, fun i key hi => ?_⟩
  obtain ⟨address, cache, hget, hstring⟩ := hright.entry i key hi
  exact ⟨address, cache, hget, hstring,
    halive hfree i (address + 1) (List.getElem?_eq_some_iff.mp hi).1 hget⟩

/-- What `keys` returns in a careful run is the list of the keys. -/
theorem keys_right {move : Move ℚ} {object list : Addr} (h : CarefulRun s) (hcareful : Careful s move)
    (hstep : Step s move s') (hreturned : Returned s move object list) (hfree : .object object ∉ s'.freed) :
    Right s' object list := by
  have hcoherent := step_coherent (carefulRun_coherent h) hstep hcareful
  have howned := step_owned (carefulRun_owned h) (carefulRun_coherent h) hstep
  cases hreturned with
  | cached ho hlist =>
    cases hstep with
    | cached => exact hcoherent.right howned ho hlist hfree
    | start ho' =>
      rw [ho] at ho'
      cases ho'
      exact absurd rfl hlist
  | finish hb =>
    obtain ⟨empty, properties, cache, done, index, hbuilding⟩ := (carefulRun_coherent h).building _ _ hb
    cases hstep with
    | finish hb' =>
      rw [hb] at hb'
      cases hb'
      have hne := ((carefulRun_coherent h).apart _ _ _ _ hb hb).1
      have hsource := congrArg (·[index]?) (finish_objects hbuilding hne)
      dsimp only at hsource
      rw [List.getElem?_set_self (by
        rw [List.length_set]
        exact (List.getElem?_eq_some_iff.mp hbuilding.source).1)] at hsource
      obtain ⟨listIndex, hlist, -⟩ := hbuilding.list
      have hright := hcoherent.right howned hsource (by rw [hlist]; exact Nat.succ_ne_zero _) (by
        rw [← hbuilding.object]
        exact hfree)
      rw [← hbuilding.object] at hright
      exact hright

theorem fillKeyList_steps (keys : List String) (thread : ℕ) : ∀ (s : Heap ℚ) (b : Build ℚ),
    s.building thread = some b → b.keys = keys →
    ∃ s' b', Relation.ReflTransGen (fun s s' => ∃ move, Step s move s') s s' ∧ s'.building thread = some b' ∧
      b'.object = b.object ∧ b'.list = b.list ∧ b'.keys = [] ∧
      Data.fillKeyList keys b.index b.entries s.data = (b'.entries, s'.data) := by
  induction keys with
  | nil => exact fun s b hb hkeys => ⟨s, b, .refl, hb, rfl, rfl, hkeys, rfl⟩
  | cons key keys ih =>
    intro s b hb hkeys
    obtain ⟨next, hstep, hnext, hdata⟩ : ∃ next, Step s (.copy thread) next ∧
        next.building thread = some { b with
          keys := keys
          index := b.index + 1
          entries := b.entries.insert (indexName ℚ b.index) (s.data.newReg .str (.string key 0)).2 } ∧
        next.data = (s.data.newReg .str (.string key 0)).1 :=
      ⟨_, .copy hb hkeys, Function.update_self .., rfl⟩
    obtain ⟨s', b', hsteps, hb', hobject, hlist, hdone, hfill⟩ := ih next _ hnext rfl
    rw [hdata] at hfill
    exact ⟨s', b', .head ⟨_, hstep⟩ hsteps, hb', hobject, hlist, hdone, hfill⟩

/-- `native_object_key_list` is a run of moves. -/
theorem nativeKeyList_steps {thread index : ℕ} {list : Addr} {properties : ZMap (Reg ℚ)} {cache : Addr}
    (ho : s.data.objects[index]? = some (.json properties cache)) (hseen : ¬s.Hidden (index + 1))
    (hthread : s.building thread = none) (h : s.data.nativeKeyList (index + 1) = some (d', list)) :
    ∃ before after move, Relation.ReflTransGen (fun s s' => ∃ move, Step s move s') s before ∧
      Step before move after ∧ Returned before move (index + 1) list ∧ after.data = d' := by
  unfold Data.nativeKeyList at h
  obtain ⟨⟨found, stored⟩, hfound, h⟩ := Option.bind_eq_some_iff.mp h
  unfold Data.propertiesAt at hfound
  dsimp only at hfound
  rw [ho] at hfound
  cases hfound
  dsimp only at h
  by_cases hcache : cache = 0
  · subst hcache
    rw [if_neg (by simp)] at h
    obtain ⟨o, hempty, h⟩ := Option.bind_eq_some_iff.mp h
    cases o with
    | json empty c =>
      have hc : c = 0 := by
        rw [newJson_objects, newJson_address] at hempty
        simp only [Nat.add_sub_cancel, List.getElem?_concat_length] at hempty
        cases hempty
        rfl
      subst hc
      obtain ⟨next, hstart, hnext, hdata⟩ : ∃ next, Step s (.keys thread (index + 1)) next ∧
          next.building thread = some ⟨index + 1, s.data.newJson.2, properties.keyList, 0, empty⟩ ∧
          next.data = s.data.newJson.1 :=
        ⟨_, .start ho hseen hthread hempty, Function.update_self .., rfl⟩
      obtain ⟨before, b, hsteps, hb, hobject, hlist, hkeys, hfill⟩ :=
        fillKeyList_steps properties.keyList thread next _ hnext rfl
      dsimp only at hfill h
      rw [← hdata, hfill] at h
      cases h
      have hreturned := Returned.finish hb
      rw [hobject, hlist] at hreturned
      refine ⟨before, _, .finish thread, .head ⟨_, hstart⟩ hsteps, .finish hb hkeys, hreturned, ?_⟩
      dsimp only
      rw [hobject, hlist]
    | _ => cases h
  · rw [if_pos hcache] at h
    cases h
    exact ⟨s, s, .keys thread (index + 1), .refl, .cached ho hseen hcache hthread, .cached ho hcache, rfl⟩

theorem setField_step {classes : String → Option Code} {k : ControlState} {a : Activation} {object index : ℕ}
    {name : String} {value : Reg ℚ} {properties : ZMap (Reg ℚ)} {cache : Addr} {e : Effect ℚ}
    (hobject : object ≠ 1) (hr : s.data.regs a.currentContext object = ⟨.obj, .raw (index + 1)⟩)
    (ho : s.data.objects[index]? = some (.json properties cache)) (hseen : ¬s.Hidden (index + 1))
    (h : setField classes s.data k a object name value = some e) :
    ∃ s', Step s (.write (index + 1) name value) s' ∧ s'.data = e.data := by
  unfold setField at h
  rw [if_neg hobject, hr] at h
  obtain ⟨o, hfound, h⟩ := Option.bind_eq_some_iff.mp h
  unfold Data.object at hfound
  obtain rfl : o = .json properties cache := by
    simpa [ho] using hfound.symm
  cases h
  exact ⟨_, .write ho hseen, rfl⟩

theorem marked_closed {g : Collector} {m : Machine ℚ} {s : Heap ℚ} (hdata : s.data = m.data) {n : Node} :
    n ∈ s.marked (g.marked m) ↔ n ∈ g.marked m := by
  refine DepthFirst.mem_visitAll_of_closed (fun x hx y hy => ?_) (Nat.le_add_left _ _)
  rw [hdata] at hy
  have hreached := marked_iff.mp hx
  refine marked_iff.mpr (hreached.next ?_)
  cases x with
  | object address =>
    unfold valueNodes at hy
    unfold Machine.nextNodes
    dsimp only at hy ⊢
    split at hy
    · rename_i properties cache ho
      rw [ho]
      exact hy
    · cases hy
  | context c => cases hy

/-- `gc` is a collection whose roots are what it marks. -/
theorem gc_collect_step {g g' : Collector} {m : Machine ℚ} {s : Heap ℚ} (hdata : s.data = m.data)
    (hlist : g.objectsList = s.objectsList.map .node) (h : g.collect m = some g') :
    ∃ s' swept lists, Step s (.collect (g.marked m)) s' ∧ g'.objectsList = s'.objectsList.map .node ∧
      g'.freed = g.freed ++ swept ∧ g'.freedKeyLists = g.freedKeyLists ++ lists ∧
      s'.freed = s.freed ++ (swept ++ lists.map .object) := by
  have hfilter : ∀ nodes : List Node, nodes.filter (· ∉ s.marked (g.marked m)) = nodes.filter (· ∉ g.marked m) :=
    fun nodes => List.filter_congr fun n _ => by rw [decide_eq_decide, marked_closed hdata]
  have hfilter' : ∀ nodes : List Node, nodes.filter (· ∈ s.marked (g.marked m)) = nodes.filter (· ∈ g.marked m) :=
    fun nodes => List.filter_congr fun n _ => by rw [decide_eq_decide, marked_closed hdata]
  unfold Collector.collect at h
  rw [hlist, ObjectsList.mapM_nodes] at h
  cases h
  refine ⟨_, _, _, .collect, ?_, rfl, rfl, ?_⟩
  · dsimp only
    rw [hfilter']
  · unfold Heap.collected
    dsimp only
    rw [hfilter, hdata]

def noObjects : Data ℚ :=
  ⟨[], fun _ => {}, fun _ => ⟨"", [], 0, 0⟩, fun _ => .null, fun _ => "", fun _ _ => .null, [], [], .new, [], []⟩

def sampleProperties : ZMap (Reg ℚ) := newProperties.insert "a" .null

theorem sampleProperties_keyList : sampleProperties.keyList = ["a"] := by decide +kernel

def sampleEntries : ZMap (Reg ℚ) := newProperties.insert (indexName ℚ 0) ⟨.str, .raw 3⟩

def madeHeap : Heap ℚ where
  data := noObjects.newJson.1
  objectsList := [.object 1]

def writtenHeap : Heap ℚ where
  data := { noObjects with objects := [.json sampleProperties 0] }
  objectsList := [.object 1]

def startedHeap : Heap ℚ where
  data := { noObjects with objects := [.json sampleProperties 0, .json newProperties 0] }
  objectsList := [.object 1]
  building := Function.update (fun _ => none) 0 (some ⟨1, 2, sampleProperties.keyList, 0, newProperties⟩)

def copiedHeap : Heap ℚ where
  data := { noObjects with
    objects := [.json sampleProperties 0, .json newProperties 0, .string "a" 0] }
  objectsList := [.object 1, .object 3]
  building := Function.update startedHeap.building 0 (some ⟨1, 2, [], 1, sampleEntries⟩)

def listedHeap : Heap ℚ where
  data := { noObjects with
    objects := [.json sampleProperties 2, .json { sampleEntries with isImmutable := true } 0, .string "a" 0] }
  objectsList := [.object 1, .object 3]
  building := Function.update copiedHeap.building 0 none

theorem start_step : Step writtenHeap (.keys 0 1) startedHeap := by
  have ho : writtenHeap.data.objects[0]? = some (Object.json sampleProperties 0) := rfl
  exact .start ho nofun rfl rfl

theorem copy_step : Step startedHeap (.copy 0) copiedHeap := by
  have hb : startedHeap.building 0 = some ⟨1, 2, sampleProperties.keyList, 0, newProperties⟩ := rfl
  exact Step.copy hb sampleProperties_keyList

theorem finish_step : Step copiedHeap (.finish 0) listedHeap := by
  have hb : copiedHeap.building 0 = some ⟨1, 2, [], 1, sampleEntries⟩ := rfl
  exact .finish hb rfl

theorem writtenHeap_run : CarefulRun writtenHeap := by
  have hmade : CarefulRun madeHeap := .step (.start rfl) .makeJson trivial
  have ho : madeHeap.data.objects[0]? = some (Object.json newProperties 0) := rfl
  have hwrite : Step madeHeap (.write (0 + 1) "a" .null) writtenHeap := .write ho nofun
  exact hmade.step hwrite nofun

theorem copiedHeap_run : CarefulRun copiedHeap := by
  have hcareful : Careful writtenHeap (.keys 0 1) := by
    intro properties cache ho
    cases ho
    rw [sampleProperties_keyList]
    decide
  exact (writtenHeap_run.step start_step hcareful).step copy_step trivial

theorem keys_right_sample : Right listedHeap 1 2 := by
  have hcareful : Careful copiedHeap (.finish 0) := trivial
  have hreturned : Returned copiedHeap (.finish 0) 1 2 := by
    have hb : copiedHeap.building 0 = some ⟨1, 2, [], 1, sampleEntries⟩ := rfl
    exact .finish hb
  exact keys_right copiedHeap_run hcareful finish_step hreturned nofun

theorem CarefulRun.run (h : CarefulRun s) : Run s := by
  induction h with
  | start hd => exact .start hd
  | step hrun hstep hcareful ih => exact ih.step hstep

def freedHeap : Heap ℚ := { listedHeap with objectsList := [.object 1], freed := [.object 3] }

theorem collect_step : Step listedHeap (.collect [.object 1]) freedHeap := by
  have hmarked : listedHeap.marked [.object 1] = [.object 1] := by decide +kernel
  have hstep : Step listedHeap (.collect [.object 1]) _ := .collect
  rw [hmarked] at hstep
  exact hstep

/-- The next call of `keys` returns the list with the freed string. -/
theorem keys_freed : ∃ (s s' : Heap ℚ) (move : Move ℚ) (object list : Addr), Run s ∧ Step s move s' ∧
    Returned s move object list ∧ .object object ∉ s'.freed ∧ ¬Right s' object list := by
  have hrun : Run freedHeap := ((copiedHeap_run.run.step finish_step).step collect_step)
  have hseen : ¬freedHeap.Hidden (0 + 1) := by
    rintro ⟨thread, b, hb, -⟩
    have hnone : freedHeap.building thread = none := by
      simp [freedHeap, listedHeap, copiedHeap, startedHeap]
    rw [hnone] at hb
    cases hb
  have hstep : Step freedHeap (.keys 0 1) freedHeap := .cached rfl hseen (by decide) rfl
  refine ⟨freedHeap, freedHeap, .keys 0 1, 1, 2, hrun, hstep, .cached rfl (by decide), by decide, ?_⟩
  rintro ⟨properties, cache, entries, c, ho, -, hentries, -, -, hright⟩
  cases ho
  cases hentries
  obtain ⟨address, cache, hget, -, halive⟩ := hright 0 "a" (by rw [sampleProperties_keyList]; rfl)
  have hself : sampleEntries.get (indexName ℚ 0) = some ⟨.str, .raw 3⟩ := ZMap.get_insert_self _ _ rfl
  have hsame := hself.symm.trans hget
  cases hsame
  exact halive (by decide)

end Zeroscript.KeyLists
