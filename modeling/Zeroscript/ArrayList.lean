import Mathlib.Data.List.Basic

/-! # `common/data_structures/arraylist.c`

A growing array. A cell that no `memcpy` has reached holds `none`; an operation has no result where
the code would read such a cell or leave the allocation. -/
namespace Zeroscript

/-- `arraylist_t`. `top` is an index into `data`, counted in items. -/
structure ArrayList (β : Type) where
  size : ℕ
  capacity : ℕ
  data : List (Option β)
  top : ℕ
  deriving DecidableEq, Repr

namespace ArrayList

variable {β : Type}

def newCapacity (initialCapacity : ℕ) : ArrayList β :=
  ⟨0, initialCapacity, List.replicate initialCapacity none, 0⟩

def new : ArrayList β := newCapacity 3

def extendCapacity (l : ArrayList β) : Option (ArrayList β) :=
  if l.size ≤ l.data.length ∧ l.size ≤ l.capacity * 2 then
    some { l with
      capacity := l.capacity * 2
      data := l.data.take l.size ++ List.replicate (l.capacity * 2 - l.size) none
      top := l.size }
  else none

/-- Both `arraylist_push` and `arraylist_set` start with this test. -/
def ensureCapacity (l : ArrayList β) : Option (ArrayList β) :=
  if l.capacity ≤ l.size then l.extendCapacity else some l

def write (l : ArrayList β) (index : ℕ) (item : β) : Option (ArrayList β) :=
  if index < l.data.length then some { l with data := l.data.set index (some item) } else none

def push (l : ArrayList β) (item : β) : Option (ArrayList β × ℕ) := do
  let l ← l.ensureCapacity
  let l ← l.write l.top item
  some ({ l with top := l.top + 1, size := l.size + 1 }, l.size)

def set (l : ArrayList β) (item : β) (index : ℕ) : Option (ArrayList β) := do
  let l ← l.ensureCapacity
  l.write index item

def get (l : ArrayList β) (index : ℕ) : Option β := l.data[index]?.join

structure Holds (l : ArrayList β) (items : List β) : Prop where
  size : l.size = items.length
  top : l.top = items.length
  allocated : l.data.length = l.capacity
  room : items.length ≤ l.capacity
  positive : 0 < l.capacity
  cells : l.data.take items.length = items.map some

theorem new_holds : (new : ArrayList β).Holds [] := by
  refine ⟨rfl, rfl, rfl, ?_, ?_, rfl⟩
  · exact Nat.zero_le 3
  · exact Nat.succ_pos 2

theorem ensureCapacity_holds {l : ArrayList β} {items : List β} (h : l.Holds items) :
    ∃ l', l.ensureCapacity = some l' ∧ l'.Holds items ∧ items.length < l'.capacity := by
  obtain ⟨hsize, htop, hallocated, hroom, hpositive, hcells⟩ := h
  unfold ensureCapacity
  by_cases hfull : l.capacity ≤ l.size
  · have hbounds : l.size ≤ l.data.length ∧ l.size ≤ l.capacity * 2 := by omega
    rw [if_pos hfull, extendCapacity, if_pos hbounds]
    refine ⟨_, rfl, ⟨hsize, hsize, ?_, ?_, ?_, ?_⟩, ?_⟩
    · simp only [List.length_append, List.length_take, List.length_replicate]
      omega
    · simp only
      omega
    · simp only
      omega
    · simp only [hsize]
      rw [List.take_append_of_le_length]
      · rw [List.take_take, Nat.min_self, hcells]
      · rw [List.length_take]
        omega
    · simp only
      omega
  · rw [if_neg hfull]
    exact ⟨l, rfl, ⟨hsize, htop, hallocated, hroom, hpositive, hcells⟩, by omega⟩

theorem push_holds {l : ArrayList β} {items : List β} (h : l.Holds items) (item : β) :
    ∃ l', l.push item = some (l', items.length) ∧ l'.Holds (items ++ [item]) := by
  obtain ⟨l', hensure, h', hroom⟩ := ensureCapacity_holds h
  have htop := h'.top
  have hbound : l'.top < l'.data.length := by
    rw [h'.allocated]
    omega
  refine ⟨{ l' with data := l'.data.set l'.top (some item), top := l'.top + 1, size := l'.size + 1 },
    ?_, ?_⟩
  · rw [push, hensure]
    simp only [Option.bind_eq_bind, Option.bind_some, write, if_pos hbound, h'.size]
  · refine ⟨?_, ?_, ?_, ?_, h'.positive, ?_⟩
    · simp [h'.size]
    · simp [htop]
    · simp [h'.allocated]
    · rw [List.length_append]
      exact hroom
    · rw [htop] at hbound
      simp only [List.length_append, List.length_cons, List.length_nil, htop, List.map_append,
        List.map_cons, List.map_nil]
      rw [Nat.zero_add, List.take_add_one, List.take_set_of_le (Nat.le_refl _), h'.cells,
        List.getElem?_set_self hbound]
      rfl

theorem set_holds {l : ArrayList β} {items : List β} (h : l.Holds items) (item : β) {i : ℕ}
    (hi : i < items.length) : ∃ l', l.set item i = some l' ∧ l'.Holds (items.set i item) := by
  obtain ⟨l', hensure, h', -⟩ := ensureCapacity_holds h
  have hbound : i < l'.data.length := by
    have hroom := h'.room
    rw [h'.allocated]
    omega
  refine ⟨{ l' with data := l'.data.set i (some item) }, ?_, ?_⟩
  · rw [set, hensure]
    simp only [Option.bind_eq_bind, Option.bind_some, write, if_pos hbound]
  · refine ⟨?_, ?_, ?_, ?_, h'.positive, ?_⟩
    · simp [h'.size]
    · simp [h'.top]
    · simp [h'.allocated]
    · simpa using h'.room
    · simp only [List.length_set]
      rw [List.take_set, h'.cells, List.map_set]

theorem get_of_holds {l : ArrayList β} {items : List β} (h : l.Holds items) {i : ℕ}
    (hi : i < items.length) : l.get i = some items[i] := by
  have hcell : l.data[i]? = some (some items[i]) := by
    rw [← List.getElem?_take_of_lt hi, h.cells, List.getElem?_map, List.getElem?_eq_getElem hi]
    rfl
  rw [get, hcell]
  rfl

end ArrayList

end Zeroscript
