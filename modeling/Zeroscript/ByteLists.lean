import Mathlib.Data.List.Basic
import Mathlib.Tactic.Common

/-! # `arraylist.c`, byte by byte

`ArrayList` counts in items. Here `top` and every `memcpy` are in bytes, as in the source, and the two
functions that remove items are there. A byte that no `memcpy` has reached holds `none`; an operation has no
result where the code would read such a byte as part of an item, or leave the allocation. -/
namespace Zeroscript.ByteLists

structure Item (s : ℕ) where
  bytes : List UInt8
  length : bytes.length = s
  deriving DecidableEq

/-- `arraylist_t`, for items of `s` bytes. `top` is an offset into `data`. -/
structure ArrayListT (s : ℕ) where
  size : ℕ
  capacity : ℕ
  data : List (Option UInt8)
  top : ℕ
  deriving DecidableEq

def memcpy (data : List (Option UInt8)) (offset : ℕ) (new : List (Option UInt8)) : Option (List (Option UInt8)) :=
  if offset + new.length ≤ data.length then
    some (data.take offset ++ new ++ data.drop (offset + new.length))
  else none

def slot (s : ℕ) (data : List (Option UInt8)) (i : ℕ) : List (Option UInt8) := (data.drop (i * s)).take s

variable {s : ℕ}

def readItem (cells : List (Option UInt8)) : Option (Item s) := do
  let bytes ← cells.mapM id
  if h : bytes.length = s then some ⟨bytes, h⟩ else none

namespace ArrayListT

def newCapacity (initialCapacity : ℕ) : ArrayListT s :=
  ⟨0, initialCapacity, List.replicate (s * initialCapacity) none, 0⟩

def extendCapacity (l : ArrayListT s) : Option (ArrayListT s) := do
  if l.size * s ≤ l.data.length then
    let data ← memcpy (List.replicate (l.capacity * s * 2) none) 0 (l.data.take (l.size * s))
    some ⟨l.size, l.capacity * 2, data, l.size * s⟩
  else none

def ensureCapacity (l : ArrayListT s) : Option (ArrayListT s) :=
  if l.capacity ≤ l.size then l.extendCapacity else some l

/-- `arraylist_push`, with the index it returns. -/
def push (l : ArrayListT s) (item : Item s) : Option (ArrayListT s × ℕ) := do
  let l ← l.ensureCapacity
  let data ← memcpy l.data l.top (item.bytes.map some)
  some (⟨l.size + 1, l.capacity, data, l.top + s⟩, l.size)

def set (l : ArrayListT s) (item : Item s) (index : ℕ) : Option (ArrayListT s) := do
  let l ← l.ensureCapacity
  let data ← memcpy l.data (s * index) (item.bytes.map some)
  some { l with data := data }

/-- `arraylist_top`, and the read of the item. -/
def topItem (l : ArrayListT s) : Option (Item s) :=
  if s ≤ l.top then readItem ((l.data.drop (l.top - s)).take s) else none

def pop (l : ArrayListT s) : Option (ArrayListT s × Item s) := do
  if s ≤ l.top ∧ 0 < l.size then
    let item ← readItem ((l.data.drop (l.top - s)).take s)
    some ({ l with size := l.size - 1, top := l.top - s }, item)
  else none

def get (l : ArrayListT s) (index : ℕ) : Option (Item s) := readItem (slot s l.data index)

/-- `arraylist_remove_index`. The third argument of the `memcpy` is a number of items. Where the ranges overlap,
the bytes are taken to arrive as they were. -/
def removeIndex (l : ArrayListT s) (i : ℕ) : Option (ArrayListT s) := do
  let size := l.size - 1
  if (i + 1) * s + (size - i) ≤ l.data.length then
    let data ← memcpy l.data (i * s) ((l.data.drop ((i + 1) * s)).take (size - i))
    some { l with size := size, data := data }
  else none

/-- The inner loop of `arraylist_remove_item`: whether the bytes of an item are those of another one. -/
def found : List UInt8 → List (Option UInt8) → Option Bool
  | [], _ => some true
  | b :: bytes, some c :: cells => if b = c then found bytes cells else some false
  | _, _ => none

/-- The outer loop: `remaining` items from the `i`-th. -/
def search (l : ArrayListT s) (item : Item s) : (remaining i : ℕ) → Option (Option ℕ)
  | 0, _ => some none
  | remaining + 1, i => do
    if ← found item.bytes (slot s l.data i) then some (some i) else search l item remaining (i + 1)

def removeItem (l : ArrayListT s) (item : Item s) : Option (ArrayListT s) := do
  match ← search l item l.size 0 with
  | some i => l.removeIndex i
  | none => some l

end ArrayListT

inductive Operation (s : ℕ) where
  | push (item : Item s)
  | set (item : Item s) (index : ℕ)
  | pop
  | top
  | get (index : ℕ)
  | removeItem (item : Item s)
  | removeIndex (index : ℕ)

inductive Result (s : ℕ) where
  | done
  | index (i : ℕ)
  | item (item : Item s)

namespace Operation

def perform (l : ArrayListT s) : Operation s → Option (ArrayListT s × Result s)
  | .push item => (l.push item).map fun (l, i) => (l, .index i)
  | .set item index => (l.set item index).map (·, .done)
  | .pop => l.pop.map fun (l, item) => (l, .item item)
  | .top => l.topItem.map (l, .item ·)
  | .get index => (l.get index).map (l, .item ·)
  | .removeItem item => (l.removeItem item).map (·, .done)
  | .removeIndex index => (l.removeIndex index).map (·, .done)

def onItems (items : List (Item s)) : Operation s → Option (List (Item s) × Result s)
  | .push item => some (items ++ [item], .index items.length)
  | .set item index => if index < items.length then some (items.set index item, .done) else none
  | .pop => items.getLast?.map (items.dropLast, .item ·)
  | .top => items.getLast?.map (items, .item ·)
  | .get index => items[index]?.map (items, .item ·)
  | .removeItem item => some (items.erase item, .done)
  | .removeIndex index => if index < items.length then some (items.eraseIdx index, .done) else none

end Operation

/-- The list stands for the items. -/
structure Refines (l : ArrayListT s) (items : List (Item s)) : Prop where
  size : l.size = items.length
  room : l.size ≤ l.capacity
  top : l.top = l.size * s
  items : ∀ (i : ℕ) (item : Item s), items[i]? = some item → slot s l.data i = item.bytes.map some

/-- The operations do on the list what they do on the items, and the list stands for them all the time. -/
def Follows (l : ArrayListT s) (items : List (Item s)) : List (Operation s) → Prop
  | [] => Refines l items
  | op :: ops => Refines l items ∧ ∀ items' result, op.onItems items = some (items', result) →
      ∃ l', op.perform l = some (l', result) ∧ Follows l' items' ops

/-- What the code gets right, on a list that was made with a capacity. -/
def Operation.Sound (initialCapacity : ℕ) (items : List (Item s)) : Operation s → Prop
  | .push _ => 0 < initialCapacity
  | .removeItem item => item ∉ items
  | .removeIndex _ => False
  | .set _ _ | .pop | .top | .get _ => True

def AllSound (initialCapacity : ℕ) (items : List (Item s)) : List (Operation s) → Prop
  | [] => True
  | op :: ops => ∀ items' result, op.onItems items = some (items', result) →
      op.Sound initialCapacity items ∧ AllSound initialCapacity items' ops

section

variable {data data' new : List (Option UInt8)} {offset : ℕ}

theorem memcpy_length (h : memcpy data offset new = some data') : data'.length = data.length := by
  obtain ⟨hbound, h⟩ := Option.ite_none_right_eq_some.mp h
  cases h
  simp only [List.length_append, List.length_take, List.length_drop]
  omega

theorem memcpy_getElem? (h : memcpy data offset new = some data') (k : ℕ) :
    data'[k]? = if k < offset then data[k]?
      else if k < offset + new.length then new[k - offset]? else data[k]? := by
  obtain ⟨hbound, h⟩ := Option.ite_none_right_eq_some.mp h
  cases h
  have hfront : (data.take offset).length = offset := by
    rw [List.length_take]
    omega
  by_cases hlow : k < offset
  · rw [if_pos hlow, List.append_assoc, List.getElem?_append_left (by omega), List.getElem?_take_of_lt hlow]
  · by_cases hmid : k < offset + new.length
    · rw [if_neg hlow, if_pos hmid, List.append_assoc, List.getElem?_append_right (by omega), hfront,
        List.getElem?_append_left (by omega)]
    · have hlength : (data.take offset ++ new).length = offset + new.length := by
        rw [List.length_append, hfront]
      rw [if_neg hlow, if_neg hmid, List.getElem?_append_right (by omega), hlength, List.getElem?_drop]
      congr 1
      omega

theorem slot_getElem? (data : List (Option UInt8)) (i k : ℕ) :
    (slot s data i)[k]? = if k < s then data[i * s + k]? else none := by
  unfold slot
  rw [List.getElem?_take, List.getElem?_drop]

theorem slot_memcpy {j : ℕ} (h : memcpy data (j * s) new = some data') (hnew : new.length = s) (i : ℕ) :
    slot s data' i = if i = j then new else slot s data i := by
  apply List.ext_getElem?
  intro k
  rw [slot_getElem?, memcpy_getElem? h, hnew]
  by_cases hk : k < s
  · rw [if_pos hk]
    rcases Nat.lt_trichotomy i j with hij | rfl | hij
    · have hle := Nat.mul_le_mul_right s hij
      rw [Nat.succ_mul] at hle
      rw [if_pos (by omega), if_neg (Nat.ne_of_lt hij), slot_getElem?, if_pos hk]
    · rw [if_neg (by omega), if_pos (by omega), if_pos rfl, Nat.add_sub_cancel_left]
    · have hle := Nat.mul_le_mul_right s hij
      rw [Nat.succ_mul] at hle
      rw [if_neg (by omega), if_neg (by omega), if_neg (Nat.ne_of_gt hij), slot_getElem?, if_pos hk]
  · rw [if_neg hk]
    split
    · rw [List.getElem?_eq_none (by omega)]
    · rw [slot_getElem?, if_neg hk]

theorem memcpy_fits (h : offset + new.length ≤ data.length) : ∃ data', memcpy data offset new = some data' :=
  ⟨_, if_pos h⟩

theorem readItem_map (item : Item s) : readItem (item.bytes.map some) = some item := by
  have hread : ∀ bytes : List UInt8, (bytes.map some).mapM id = some bytes := by
    intro bytes
    induction bytes with
    | nil => rfl
    | cons b bytes ih => simp [ih]
  unfold readItem
  simp [hread, item.length]

end

structure Holds (l : ArrayListT s) (items : List (Item s)) : Prop extends Refines l items where
  allocated : l.data.length = l.capacity * s

section

variable {l l' : ArrayListT s} {items items' : List (Item s)} {item : Item s} {index : ℕ}

theorem newCapacity_holds (initialCapacity : ℕ) : Holds (.newCapacity initialCapacity : ArrayListT s) [] where
  size := rfl
  room := Nat.zero_le _
  top := (Nat.zero_mul s).symm
  items i item h := by cases h
  allocated := by
    unfold ArrayListT.newCapacity
    rw [List.length_replicate, Nat.mul_comm]

theorem ensureCapacity_holds (h : Holds l items) (hcapacity : 0 < l.capacity) :
    ∃ l', l.ensureCapacity = some l' ∧ Holds l' items ∧ l'.size < l'.capacity := by
  unfold ArrayListT.ensureCapacity
  by_cases hfull : l.capacity ≤ l.size
  · have hbytes : l.size * s ≤ l.data.length := by
      rw [h.allocated]
      exact Nat.mul_le_mul_right s h.room
    have htake : (l.data.take (l.size * s)).length = l.size * s := by
      rw [List.length_take]
      omega
    obtain ⟨data, hdata⟩ := @memcpy_fits (List.replicate (l.capacity * s * 2) none)
      (l.data.take (l.size * s)) 0 (by
        rw [htake, List.length_replicate]
        rw [h.allocated] at hbytes
        omega)
    have hextend : l.extendCapacity = some ⟨l.size, l.capacity * 2, data, l.size * s⟩ := by
      unfold ArrayListT.extendCapacity
      rw [if_pos hbytes, hdata]
      rfl
    rw [if_pos hfull]
    refine ⟨_, hextend, ⟨⟨h.size, ?_, rfl, ?_⟩, ?_⟩, ?_⟩
    · have := h.room
      dsimp only
      omega
    · intro i item hitem
      have hi : i < l.size := by
        rw [h.size]
        exact (List.getElem?_eq_some_iff.mp hitem).1
      have hle := Nat.mul_le_mul_right s hi
      rw [Nat.succ_mul] at hle
      rw [← h.items i item hitem]
      apply List.ext_getElem?
      intro k
      rw [slot_getElem?, slot_getElem?]
      by_cases hk : k < s
      · rw [if_pos hk, if_pos hk, memcpy_getElem? hdata, htake, if_neg (Nat.not_lt_zero _), if_pos (by omega),
          Nat.sub_zero, List.getElem?_take_of_lt (by omega)]
      · rw [if_neg hk, if_neg hk]
    · dsimp only
      rw [memcpy_length hdata, List.length_replicate, Nat.mul_right_comm]
    · have := h.room
      dsimp only
      omega
  · rw [if_neg hfull]
    exact ⟨l, rfl, h, Nat.lt_of_not_le hfull⟩

theorem Holds.memcpy (h : Holds l items) (item : Item s) (hindex : index < l.capacity) :
    ∃ data, memcpy l.data (index * s) (item.bytes.map some) = some data := by
  refine memcpy_fits ?_
  have hle := Nat.mul_le_mul_right s hindex
  rw [Nat.succ_mul] at hle
  rw [List.length_map, item.length, h.allocated]
  exact hle

theorem push_holds (h : Holds l items) (hcapacity : 0 < l.capacity) (item : Item s) :
    ∃ l', l.push item = some (l', items.length) ∧ Holds l' (items ++ [item]) := by
  obtain ⟨l', hensure, h', hroom⟩ := ensureCapacity_holds h hcapacity
  obtain ⟨data, hdata⟩ := h'.memcpy item hroom
  have hlength : (item.bytes.map some).length = s := by rw [List.length_map, item.length]
  refine ⟨⟨l'.size + 1, l'.capacity, data, l'.top + s⟩, ?_, ⟨⟨?_, hroom, ?_, ?_⟩, ?_⟩⟩
  · unfold ArrayListT.push
    rw [hensure, ← h'.size]
    simp only [Option.bind_eq_bind, Option.bind_some, h'.top, hdata]
  · dsimp only
    rw [h'.size, List.length_append]
    rfl
  · dsimp only
    rw [h'.top, Nat.succ_mul]
  · intro i other hother
    rw [slot_memcpy hdata hlength]
    rw [List.getElem?_append] at hother
    by_cases hi : i < items.length
    · rw [if_pos hi] at hother
      rw [if_neg (by rw [h'.size]; omega)]
      exact h'.items i other hother
    · rw [if_neg hi, List.getElem?_singleton] at hother
      obtain ⟨hzero, hsame⟩ := Option.ite_none_right_eq_some.mp hother
      cases hsame
      rw [if_pos (by rw [h'.size]; omega)]
  · dsimp only
    rw [memcpy_length hdata, h'.allocated]

theorem set_holds (h : Holds l items) (item : Item s) (hindex : index < items.length) :
    ∃ l', l.set item index = some l' ∧ Holds l' (items.set index item) := by
  have hsize := h.size
  have hroom := h.room
  obtain ⟨l', hensure, h', hroom'⟩ := ensureCapacity_holds h (by omega)
  have hsize' := h'.size
  obtain ⟨data, hdata⟩ := h'.memcpy item (by omega : index < l'.capacity)
  have hlength : (item.bytes.map some).length = s := by rw [List.length_map, item.length]
  refine ⟨{ l' with data := data }, ?_, ⟨⟨?_, h'.room, h'.top, ?_⟩, ?_⟩⟩
  · unfold ArrayListT.set
    rw [hensure, Nat.mul_comm s index]
    simp only [Option.bind_eq_bind, Option.bind_some, hdata]
  · rw [List.length_set]
    exact h'.size
  · intro i other hother
    rw [slot_memcpy hdata hlength]
    by_cases hi : i = index
    · subst hi
      rw [List.getElem?_set_self hindex] at hother
      cases hother
      rw [if_pos rfl]
    · rw [List.getElem?_set_ne (Ne.symm hi)] at hother
      rw [if_neg hi]
      exact h'.items i other hother
  · dsimp only
    rw [memcpy_length hdata, h'.allocated]

theorem Refines.last (h : Refines l items) (hlast : items.getLast? = some item) :
    s ≤ l.top ∧ 0 < l.size ∧ (l.data.drop (l.top - s)).take s = item.bytes.map some := by
  have hget : items[items.length - 1]? = some item := by rw [← List.getLast?_eq_getElem?, hlast]
  have hpos : 0 < items.length := by
    have := (List.getElem?_eq_some_iff.mp hget).1
    omega
  obtain ⟨n, hn⟩ : ∃ n, l.size = n + 1 := ⟨l.size - 1, by have := h.size; omega⟩
  have htop : l.top = n * s + s := by rw [h.top, hn, Nat.succ_mul]
  refine ⟨by omega, by omega, ?_⟩
  have hslot := h.items (items.length - 1) item hget
  have hindex : items.length - 1 = n := by
    have := h.size
    omega
  rw [hindex] at hslot
  rw [htop, Nat.add_sub_cancel]
  exact hslot

theorem topItem_holds (h : Refines l items) (hlast : items.getLast? = some item) : l.topItem = some item := by
  obtain ⟨htop, -, hcells⟩ := h.last hlast
  unfold ArrayListT.topItem
  rw [if_pos htop, hcells, readItem_map]

theorem pop_holds (h : Holds l items) (hlast : items.getLast? = some item) :
    ∃ l', l.pop = some (l', item) ∧ l'.capacity = l.capacity ∧ Holds l' items.dropLast := by
  obtain ⟨htop, hsize, hcells⟩ := h.last hlast
  refine ⟨{ l with size := l.size - 1, top := l.top - s }, ?_, rfl, ⟨⟨?_, ?_, ?_, ?_⟩, h.allocated⟩⟩
  · unfold ArrayListT.pop
    rw [if_pos ⟨htop, hsize⟩, hcells, readItem_map]
    rfl
  · dsimp only
    rw [List.length_dropLast, h.size]
  · exact Nat.le_trans (Nat.sub_le _ _) h.room
  · dsimp only
    rw [h.top, Nat.sub_mul, Nat.one_mul]
  · intro i other hother
    rw [List.getElem?_dropLast] at hother
    obtain ⟨-, hother⟩ := Option.ite_none_right_eq_some.mp hother
    exact h.items i other hother

theorem get_holds (h : Refines l items) (hget : items[index]? = some item) : l.get index = some item := by
  unfold ArrayListT.get
  rw [h.items index item hget, readItem_map]

theorem found_map (bytes other : List UInt8) (h : bytes.length = other.length) :
    ArrayListT.found bytes (other.map some) = some (decide (bytes = other)) := by
  induction bytes generalizing other with
  | nil =>
    cases other with
    | nil => rfl
    | cons c other => cases h
  | cons b bytes ih =>
    cases other with
    | nil => cases h
    | cons c other =>
      rw [List.map_cons, ArrayListT.found]
      by_cases hb : b = c
      · rw [if_pos hb, ih other (Nat.succ.inj h)]
        simp [hb]
      · rw [if_neg hb]
        simp [hb]

theorem search_absent (h : Refines l items) (habsent : item ∉ items) (remaining i : ℕ)
    (hbound : i + remaining = items.length) : l.search item remaining i = some none := by
  induction remaining generalizing i with
  | zero => rfl
  | succ remaining ih =>
    have hi : i < items.length := by omega
    have hother := h.items i items[i] (List.getElem?_eq_getElem hi)
    have hne : item.bytes ≠ items[i].bytes := by
      intro heq
      have hitem : item = items[i] := by
        cases item
        cases hcell : items[i]
        rw [hcell] at heq
        cases heq
        rfl
      exact habsent (hitem ▸ List.getElem_mem hi)
    rw [ArrayListT.search, hother, found_map _ _ (by rw [item.length, items[i].length]), decide_eq_false hne]
    exact ih (i + 1) (by omega)

theorem removeItem_absent (h : Refines l items) (habsent : item ∉ items) : l.removeItem item = some l := by
  unfold ArrayListT.removeItem
  rw [search_absent h habsent l.size 0 (by rw [h.size, Nat.zero_add])]
  rfl

end

section

variable {l l' : ArrayListT s} {items items' : List (Item s)} {op : Operation s} {result : Result s}

theorem ensureCapacity_capacity (h : l.ensureCapacity = some l') : l'.capacity = 0 ↔ l.capacity = 0 := by
  unfold ArrayListT.ensureCapacity at h
  split at h
  · unfold ArrayListT.extendCapacity at h
    split at h
    · obtain ⟨data, -, h⟩ := Option.bind_eq_some_iff.mp h
      cases h
      dsimp only
      omega
    · cases h
  · cases h
    exact Iff.rfl

theorem perform_capacity (h : op.perform l = some (l', result)) : l'.capacity = 0 ↔ l.capacity = 0 := by
  have hremove : ∀ {i : ℕ} {l' : ArrayListT s}, l.removeIndex i = some l' → l'.capacity = l.capacity := by
    intro i l' h
    obtain ⟨-, h⟩ := Option.ite_none_right_eq_some.mp h
    obtain ⟨data, -, h⟩ := Option.bind_eq_some_iff.mp h
    cases h
    rfl
  cases op with
  | push item =>
    obtain ⟨⟨pushed, i⟩, hpush, h⟩ := Option.map_eq_some_iff.mp h
    cases h
    obtain ⟨mid, hensure, hpush⟩ := Option.bind_eq_some_iff.mp hpush
    obtain ⟨data, -, hpush⟩ := Option.bind_eq_some_iff.mp hpush
    cases hpush
    have hmid := ensureCapacity_capacity hensure
    exact hmid
  | set item index =>
    obtain ⟨mid, hset, h⟩ := Option.map_eq_some_iff.mp h
    cases h
    obtain ⟨mid, hensure, hset⟩ := Option.bind_eq_some_iff.mp hset
    obtain ⟨data, -, hset⟩ := Option.bind_eq_some_iff.mp hset
    cases hset
    have hmid := ensureCapacity_capacity hensure
    exact hmid
  | pop =>
    obtain ⟨⟨mid, item⟩, hpop, h⟩ := Option.map_eq_some_iff.mp h
    cases h
    obtain ⟨-, hpop⟩ := Option.ite_none_right_eq_some.mp hpop
    obtain ⟨read, -, hpop⟩ := Option.bind_eq_some_iff.mp hpop
    cases hpop
    exact Iff.rfl
  | top =>
    obtain ⟨item, -, h⟩ := Option.map_eq_some_iff.mp h
    cases h
    exact Iff.rfl
  | get index =>
    obtain ⟨item, -, h⟩ := Option.map_eq_some_iff.mp h
    cases h
    exact Iff.rfl
  | removeItem item =>
    obtain ⟨mid, hremoved, h⟩ := Option.map_eq_some_iff.mp h
    cases h
    obtain ⟨found, -, hremoved⟩ := Option.bind_eq_some_iff.mp hremoved
    cases found with
    | none =>
      cases hremoved
      exact Iff.rfl
    | some i => rw [hremove hremoved]
  | removeIndex index =>
    obtain ⟨mid, hremoved, h⟩ := Option.map_eq_some_iff.mp h
    cases h
    rw [hremove hremoved]

theorem perform_holds {initialCapacity : ℕ} (h : Holds l items) (hcapacity : l.capacity = 0 ↔ initialCapacity = 0)
    (hsound : op.Sound initialCapacity items) (hitems : op.onItems items = some (items', result)) :
    ∃ l', op.perform l = some (l', result) ∧ Holds l' items' := by
  cases op with
  | push item =>
    cases hitems
    have hpos : 0 < initialCapacity := hsound
    obtain ⟨l', hpush, h'⟩ := push_holds h (by omega) item
    exact ⟨l', by rw [Operation.perform, hpush]; rfl, h'⟩
  | set item index =>
    obtain ⟨hindex, hitems⟩ := Option.ite_none_right_eq_some.mp hitems
    cases hitems
    obtain ⟨l', hset, h'⟩ := set_holds h item hindex
    exact ⟨l', by rw [Operation.perform, hset]; rfl, h'⟩
  | pop =>
    obtain ⟨item, hlast, hitems⟩ := Option.map_eq_some_iff.mp hitems
    cases hitems
    obtain ⟨l', hpop, -, h'⟩ := pop_holds h hlast
    exact ⟨l', by rw [Operation.perform, hpop]; rfl, h'⟩
  | top =>
    obtain ⟨item, hlast, hitems⟩ := Option.map_eq_some_iff.mp hitems
    cases hitems
    exact ⟨l, by rw [Operation.perform, topItem_holds h.toRefines hlast]; rfl, h⟩
  | get index =>
    obtain ⟨item, hget, hitems⟩ := Option.map_eq_some_iff.mp hitems
    cases hitems
    exact ⟨l, by rw [Operation.perform, get_holds h.toRefines hget]; rfl, h⟩
  | removeItem item =>
    cases hitems
    have habsent : item ∉ items := hsound
    rw [List.erase_of_not_mem habsent]
    exact ⟨l, by rw [Operation.perform, removeItem_absent h.toRefines habsent]; rfl, h⟩
  | removeIndex index => exact hsound.elim

/-- `arraylist_remove_index` leaves `top` behind the old last item. -/
theorem removeIndex_wrong (hs : 0 < s) (h : Refines l items) (hsize : 0 < l.size) {i : ℕ}
    (hremove : l.removeIndex i = some l') : ¬ Refines l' items' := by
  obtain ⟨-, hremove⟩ := Option.ite_none_right_eq_some.mp hremove
  obtain ⟨data, -, hremove⟩ := Option.bind_eq_some_iff.mp hremove
  cases hremove
  intro h'
  have htop : l.top = (l.size - 1) * s := h'.top
  rw [h.top] at htop
  have := Nat.eq_of_mul_eq_mul_right hs htop
  omega

theorem perform_wrong {initialCapacity : ℕ} (hs : 0 < s) (h : Refines l items)
    (hcapacity : l.capacity = 0 ↔ initialCapacity = 0)
    (hsound : ¬ op.Sound initialCapacity items) (hitems : op.onItems items = some (items', result))
    (hperform : op.perform l = some (l', result)) : ¬ Refines l' items' := by
  cases op with
  | push item =>
    -- there is no room, and `extend_capacity` makes none
    have hzero : l.capacity = 0 := hcapacity.mpr (Nat.eq_zero_of_not_pos hsound)
    obtain ⟨⟨pushed, i⟩, hpush, hperform⟩ := Option.map_eq_some_iff.mp hperform
    cases hperform
    intro h'
    obtain ⟨mid, hensure, hpush⟩ := Option.bind_eq_some_iff.mp hpush
    obtain ⟨data, -, hpush⟩ := Option.bind_eq_some_iff.mp hpush
    cases hpush
    have hmid := (ensureCapacity_capacity hensure).mpr hzero
    have hroom : mid.size + 1 ≤ mid.capacity := h'.room
    omega
  | removeItem item =>
    cases hitems
    have hmem : item ∈ items := not_not.mp hsound
    have hlength := List.length_erase_of_mem hmem
    have hpos := List.length_pos_of_mem hmem
    have hsize := h.size
    obtain ⟨mid, hremoved, hperform⟩ := Option.map_eq_some_iff.mp hperform
    cases hperform
    obtain ⟨found, -, hremoved⟩ := Option.bind_eq_some_iff.mp hremoved
    cases found with
    | none =>
      cases hremoved
      intro h'
      have hsize' := h'.size
      omega
    | some i => exact removeIndex_wrong hs h (by omega) hremoved
  | removeIndex index =>
    obtain ⟨hindex, hitems⟩ := Option.ite_none_right_eq_some.mp hitems
    obtain ⟨mid, hremoved, hperform⟩ := Option.map_eq_some_iff.mp hperform
    cases hperform
    exact removeIndex_wrong hs h (by rw [h.size]; omega) hremoved
  | set item index => exact absurd trivial hsound
  | pop => exact absurd trivial hsound
  | top => exact absurd trivial hsound
  | get index => exact absurd trivial hsound

theorem Follows.refines {ops : List (Operation s)} (h : Follows l items ops) : Refines l items := by
  cases ops with
  | nil => exact h
  | cons op ops => exact h.1

theorem follows_iff_of_holds {initialCapacity : ℕ} (hs : 0 < s) (ops : List (Operation s)) (h : Holds l items)
    (hcapacity : l.capacity = 0 ↔ initialCapacity = 0) :
    Follows l items ops ↔ AllSound initialCapacity items ops := by
  induction ops generalizing l items with
  | nil => exact iff_of_true h.toRefines trivial
  | cons op ops ih =>
    constructor
    · rintro ⟨-, hfollows⟩ items' result hitems
      obtain ⟨l', hperform, hrest⟩ := hfollows items' result hitems
      have hsound : op.Sound initialCapacity items := by
        by_contra hsound
        exact perform_wrong hs h.toRefines hcapacity hsound hitems hperform hrest.refines
      obtain ⟨next, hnext, h'⟩ := perform_holds h hcapacity hsound hitems
      rw [hperform] at hnext
      cases hnext
      exact ⟨hsound, (ih h' ((perform_capacity hperform).trans hcapacity)).mp hrest⟩
    · intro hsound
      refine ⟨h.toRefines, fun items' result hitems => ?_⟩
      obtain ⟨hop, hrest⟩ := hsound items' result hitems
      obtain ⟨l', hperform, h'⟩ := perform_holds h hcapacity hop hitems
      exact ⟨l', hperform, (ih h' ((perform_capacity hperform).trans hcapacity)).mpr hrest⟩

/-- The list stands for the items in every state of a run exactly if it has a capacity for what is pushed and
nothing is removed. -/
theorem follows_iff (hs : 0 < s) (initialCapacity : ℕ) (ops : List (Operation s)) :
    Follows (.newCapacity initialCapacity) [] ops ↔ AllSound initialCapacity [] ops :=
  follows_iff_of_holds hs ops (newCapacity_holds initialCapacity) Iff.rfl

end

def word (low high : UInt8) : Item 8 := ⟨[low, high, 0, 0, 0, 0, 0, 0], rfl⟩

/-- A push, a write and a pop. -/
theorem follows_pushed : Follows (.newCapacity 3) [] [.push (word 1 1), .set (word 2 2) 0, .pop] := by
  refine (follows_iff (by decide) 3 _).mpr ?_
  rintro items result -
  refine ⟨Nat.succ_pos 2, ?_⟩
  rintro items result -
  refine ⟨trivial, ?_⟩
  rintro items result -
  exact ⟨trivial, trivial⟩

/-- Two words, of which the first one is removed: one byte of the second is copied, and `top` stays. A list
without a capacity has no room for its first item. -/
theorem removed_first :
    (([.push (word 1 1), .push (word 2 2), .removeIndex 0] : List (Operation 8)).foldlM
        (fun l op => (Operation.perform l op).map Prod.fst) (ArrayListT.newCapacity 3)).map
        (fun l => (l.size, l.top, l.get 0)) =
      some (1, 16, some (word 2 1)) ∧
    ¬ Follows (.newCapacity 3) [] [.push (word 1 1), .push (word 2 2), .removeIndex 0] ∧
    ¬ Follows (.newCapacity 0) [] [.push (word 1 1)] := by
  refine ⟨by decide, fun h => ?_, fun h => ?_⟩
  · have hsound := (follows_iff_of_holds (by decide) _ (newCapacity_holds 3) Iff.rfl).mp h
    obtain ⟨-, hsound⟩ := hsound _ _ rfl
    obtain ⟨-, hsound⟩ := hsound _ _ rfl
    exact (hsound _ _ rfl).1
  · have hsound := (follows_iff_of_holds (by decide) _ (newCapacity_holds 0) Iff.rfl).mp h
    exact absurd (hsound _ _ rfl).1 (Nat.lt_irrefl 0)

end Zeroscript.ByteLists
