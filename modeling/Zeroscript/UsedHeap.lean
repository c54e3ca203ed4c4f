import Mathlib.Algebra.BigOperators.Group.Finset.Basic
import Mathlib.Algebra.BigOperators.Group.List.Basic
import Mathlib.Data.BitVec
import Mathlib.Data.Fintype.BigOperators
import Mathlib.Tactic.Abel

/-! # `used_heap`

The counter of `common/alloc.c`, the headers in front of the blocks, and the calls of any number of threads
that change both. A call adds to the counter under its lock and writes the header later; a collection frees
and allocates in the middle of `z_alloc_or_gc`. -/
namespace Zeroscript.UsedHeap

def wordSize : BitVec 64 := 8

def heapLimit : BitVec 64 := 1024 * 1024

/-- A block that has been decorated: where it begins, and the size in its header. -/
structure Block where
  ptr : ℕ
  header : BitVec 64
  deriving DecidableEq, Repr

inductive Frame where
  /-- `z_alloc_or_gc` has counted the size, and compares the counter with the limit. -/
  | testing (size : BitVec 64)
  /-- In `schedule_gc`. -/
  | collecting (size : BitVec 64)
  /-- Before `Z_MALLOC`. -/
  | allocating (size : BitVec 64)
  /-- Before `z_decorate_ptr`. -/
  | decorating (ptr : ℕ) (size : BitVec 64)
  /-- `native_readln` has read so many characters into its buffer. -/
  | reading (buff : ℕ) (length : BitVec 64)
  /-- `z_free`, before `Z_FREE`. -/
  | releasing (ptr : ℕ)
  deriving DecidableEq, Repr

def Frame.header : Frame → BitVec 64
  | .testing size | .collecting size | .allocating size | .decorating _ size => size
  | .reading _ _ | .releasing _ => 0

def Frame.ptr : Frame → Option ℕ
  | .testing _ | .collecting _ | .allocating _ => none
  | .decorating ptr _ | .reading ptr _ | .releasing ptr => some ptr

structure State (n : ℕ) where
  usedHeap : BitVec 64
  live : List Block
  frames : Fin n → List Frame

section

variable {n : ℕ}

def initial (n : ℕ) : State n := ⟨0, [], fun _ => []⟩

inductive Event (n : ℕ) where
  | allocOrDie (t : Fin n) (size : BitVec 64)
  | allocOrGc (t : Fin n) (size : BitVec 64)
  | test (t : Fin n)
  | collected (t : Fin n)
  | malloc (t : Fin n) (ptr : ℕ)
  | decorate (t : Fin n)
  | readln (t : Fin n) (buff : ℕ)
  | getchar (t : Fin n) (buff : ℕ)
  | endLine (t : Fin n)
  | free (t : Fin n) (block : Block)
  | release (t : Fin n)

/-- The code of the program, or of a collection. -/
def canCall : List Frame → Bool
  | [] | .collecting _ :: _ => true
  | _ => false

/-- What `malloc` does not return. -/
def Occupied (s : State n) (ptr : ℕ) : Prop :=
  (∃ block ∈ s.live, block.ptr = ptr) ∨ ∃ t, ∃ frame ∈ s.frames t, frame.ptr = some ptr

instance (s : State n) (ptr : ℕ) : Decidable (Occupied s ptr) :=
  inferInstanceAs (Decidable (_ ∨ _))

def State.setFrames (s : State n) (t : Fin n) (frames : List Frame) : State n :=
  { s with frames := Function.update s.frames t frames }

def State.push (s : State n) (t : Fin n) (frame : Frame) : State n := s.setFrames t (frame :: s.frames t)

/-- One step of a thread. An allocation that fails ends the process. -/
def next (s : State n) : Event n → Option (State n)
  | .allocOrDie t size =>
    let size := size + wordSize
    if canCall (s.frames t) then some { s.push t (.allocating size) with usedHeap := s.usedHeap + size } else none
  | .allocOrGc t size =>
    let size := size + wordSize
    if canCall (s.frames t) then some { s.push t (.testing size) with usedHeap := s.usedHeap + size } else none
  | .test t =>
    match s.frames t with
    | .testing size :: frames =>
      some (s.setFrames t ((if heapLimit.slt s.usedHeap then .collecting size else .allocating size) :: frames))
    | _ => none
  | .collected t =>
    match s.frames t with
    | .collecting size :: frames => some (s.setFrames t (.allocating size :: frames))
    | _ => none
  | .malloc t ptr =>
    match s.frames t with
    | .allocating size :: frames =>
      if Occupied s ptr then none else some (s.setFrames t (.decorating ptr size :: frames))
    | _ => none
  | .decorate t =>
    match s.frames t with
    | .decorating ptr size :: frames => some { s.setFrames t frames with live := ⟨ptr, size⟩ :: s.live }
    | _ => none
  | .readln t buff =>
    if canCall (s.frames t) ∧ ¬ Occupied s buff then some (s.push t (.reading buff 0)) else none
  | .getchar t buff =>
    match s.frames t with
    | .reading old length :: frames =>
      if buff = old ∨ ¬ Occupied s buff then some (s.setFrames t (.reading buff (length + 1) :: frames)) else none
    | _ => none
  | .endLine t =>
    match s.frames t with
    | .reading buff length :: frames =>
      -- the header is going to be the length
      some { s.setFrames t (.decorating buff length :: frames) with usedHeap := s.usedHeap + (length + wordSize) }
    | _ => none
  | .free t block =>
    if canCall (s.frames t) ∧ block ∈ s.live then
      some { s.push t (.releasing block.ptr) with
        usedHeap := s.usedHeap - block.header
        live := s.live.erase block }
    else none
  | .release t =>
    match s.frames t with
    | .releasing _ :: frames => some (s.setFrames t frames)
    | _ => none

/-- The lines that an event adds to the counter. -/
def Event.lines : Event n → ℕ
  | .endLine _ => 1
  | _ => 0

/-- A run, and how many calls of `native_readln` have counted their line in it. -/
inductive Run : State n → ℕ → Prop where
  | start : Run (initial n) 0
  | step {s s' : State n} {lines : ℕ} {e : Event n} (h : Run s lines) (hnext : next s e = some s') :
      Run s' (lines + e.lines)

def liveBytes (s : State n) : BitVec 64 := (s.live.map Block.header).sum

/-- What the calls in flight have counted, as far as they are going to write it into a header. -/
def inFlight (s : State n) : BitVec 64 := ∑ t, ((s.frames t).map Frame.header).sum

def Right (s : State n) : Prop := s.usedHeap = liveBytes s + inFlight s

def Quiescent (s : State n) : Prop := ∀ t, s.frames t = []

/-- The counter beyond what is live and in flight. -/
def excess (s : State n) : BitVec 64 := s.usedHeap - (liveBytes s + inFlight s)

variable {s s' : State n}

theorem inFlight_setFrames (s : State n) (t : Fin n) (frames : List Frame) :
    inFlight (s.setFrames t frames) =
      inFlight s - ((s.frames t).map Frame.header).sum + (frames.map Frame.header).sum := by
  have hupdate : (fun u => (((s.setFrames t frames).frames u).map Frame.header).sum) =
      Function.update (fun u => ((s.frames u).map Frame.header).sum) t (frames.map Frame.header).sum := by
    funext u
    unfold State.setFrames
    by_cases hu : u = t
    · subst hu
      simp
    · simp [hu]
  unfold inFlight
  rw [hupdate, Finset.sum_update_of_mem (Finset.mem_univ t), ← Finset.erase_eq,
    ← Finset.add_sum_erase Finset.univ _ (Finset.mem_univ t)]
  abel

theorem inFlight_push (s : State n) (t : Fin n) (frame : Frame) :
    inFlight (s.push t frame) = inFlight s + frame.header := by
  unfold State.push
  rw [inFlight_setFrames, List.map_cons, List.sum_cons]
  abel

theorem inFlight_go {t : Fin n} {frame : Frame} {frames : List Frame} (h : s.frames t = frame :: frames)
    (frame' : Frame) : inFlight (s.setFrames t (frame' :: frames)) = inFlight s - frame.header + frame'.header := by
  rw [inFlight_setFrames, h, List.map_cons, List.sum_cons, List.map_cons, List.sum_cons]
  abel

theorem inFlight_pop {t : Fin n} {frame : Frame} {frames : List Frame} (h : s.frames t = frame :: frames) :
    inFlight (s.setFrames t frames) = inFlight s - frame.header := by
  rw [inFlight_setFrames, h, List.map_cons, List.sum_cons]
  abel

theorem liveBytes_erase {block : Block} (h : block ∈ s.live) :
    ((s.live.erase block).map Block.header).sum = liveBytes s - block.header := by
  have hsum := List.sum_map_erase Block.header h
  unfold liveBytes
  rw [← hsum]
  abel

theorem excess_count (s : State n) (t : Fin n) (frame : Frame) :
    excess { s.push t frame with usedHeap := s.usedHeap + frame.header } = excess s := by
  change s.usedHeap + frame.header - (liveBytes s + inFlight (s.push t frame)) = excess s
  rw [inFlight_push]
  unfold excess
  abel

theorem excess_go {t : Fin n} {frame frame' : Frame} {frames : List Frame} (h : s.frames t = frame :: frames)
    (hheader : frame'.header = frame.header) : excess (s.setFrames t (frame' :: frames)) = excess s := by
  change s.usedHeap - (liveBytes s + inFlight (s.setFrames t _)) = excess s
  rw [inFlight_go h, hheader, sub_add_cancel]
  rfl

theorem excess_decorate {t : Fin n} {ptr : ℕ} {size : BitVec 64} {frames : List Frame}
    (h : s.frames t = .decorating ptr size :: frames) :
    excess { s.setFrames t frames with live := ⟨ptr, size⟩ :: s.live } = excess s := by
  change s.usedHeap - (size + liveBytes s + inFlight (s.setFrames t frames)) = excess s
  rw [inFlight_pop h]
  unfold excess Frame.header
  abel

theorem excess_free (t : Fin n) {block : Block} (h : block ∈ s.live) :
    excess { s.push t (.releasing block.ptr) with
      usedHeap := s.usedHeap - block.header
      live := s.live.erase block } = excess s := by
  change s.usedHeap - block.header - (((s.live.erase block).map Block.header).sum + inFlight (s.push t _)) = excess s
  rw [inFlight_push, liveBytes_erase h]
  unfold excess Frame.header
  abel

theorem excess_endLine {t : Fin n} {buff : ℕ} {length : BitVec 64} {frames : List Frame}
    (h : s.frames t = .reading buff length :: frames) :
    excess { s.setFrames t (.decorating buff length :: frames) with
      usedHeap := s.usedHeap + (length + wordSize) } = excess s + wordSize := by
  change s.usedHeap + (length + wordSize) - (liveBytes s + inFlight (s.setFrames t _)) = excess s + wordSize
  rw [inFlight_go h]
  unfold excess Frame.header
  abel

theorem excess_next {e : Event n} (h : next s e = some s') :
    excess s' = excess s + BitVec.ofNat 64 (8 * e.lines) := by
  have hkept : ∀ {x : BitVec 64}, x = excess s → x = excess s + BitVec.ofNat 64 (8 * 0) := by
    rintro x rfl
    exact (add_zero _).symm
  unfold next at h
  cases e with
  | allocOrDie t size =>
    obtain ⟨-, h⟩ := Option.ite_none_right_eq_some.mp h
    cases h
    exact hkept (excess_count s t (.allocating (size + wordSize)))
  | allocOrGc t size =>
    obtain ⟨-, h⟩ := Option.ite_none_right_eq_some.mp h
    cases h
    exact hkept (excess_count s t (.testing (size + wordSize)))
  | test t =>
    dsimp only at h
    split at h
    · rename_i size frames hframes
      cases h
      refine hkept (excess_go hframes ?_)
      split
      · rfl
      · rfl
    · cases h
  | collected t =>
    dsimp only at h
    split at h
    · rename_i size frames hframes
      cases h
      exact hkept (excess_go hframes rfl)
    · cases h
  | malloc t ptr =>
    dsimp only at h
    split at h
    · rename_i size frames hframes
      obtain ⟨-, h⟩ := Option.ite_none_left_eq_some.mp h
      cases h
      exact hkept (excess_go hframes rfl)
    · cases h
  | decorate t =>
    dsimp only at h
    split at h
    · rename_i ptr size frames hframes
      cases h
      exact hkept (excess_decorate hframes)
    · cases h
  | readln t buff =>
    obtain ⟨-, h⟩ := Option.ite_none_right_eq_some.mp h
    cases h
    have hcount := excess_count s t (.reading buff 0)
    rw [Frame.header, add_zero] at hcount
    exact hkept hcount
  | getchar t buff =>
    dsimp only at h
    split at h
    · rename_i old length frames hframes
      obtain ⟨-, h⟩ := Option.ite_none_right_eq_some.mp h
      cases h
      exact hkept (excess_go hframes rfl)
    · cases h
  | endLine t =>
    dsimp only at h
    split at h
    · rename_i buff length frames hframes
      cases h
      exact excess_endLine hframes
    · cases h
  | free t block =>
    obtain ⟨hfree, h⟩ := Option.ite_none_right_eq_some.mp h
    cases h
    exact hkept (excess_free t hfree.2)
  | release t =>
    dsimp only at h
    split at h
    · rename_i ptr frames hframes
      cases h
      refine hkept ?_
      change s.usedHeap - (liveBytes s + inFlight (s.setFrames t frames)) = excess s
      rw [inFlight_pop hframes]
      exact congrArg (fun x => s.usedHeap - (liveBytes s + x)) (sub_zero _)
    · cases h

theorem run_excess {lines : ℕ} (h : Run s lines) : excess s = BitVec.ofNat 64 (8 * lines) := by
  induction h with
  | start =>
    have hflight : inFlight (initial n) = 0 := Finset.sum_eq_zero fun t _ => rfl
    unfold excess
    rw [hflight]
    change (0 : BitVec 64) - (0 + 0) = 0
    decide
  | step h hnext ih => rw [excess_next hnext, ih, Nat.mul_add, BitVec.ofNat_add]

theorem right_iff : Right s ↔ excess s = 0 := by
  unfold Right excess
  rw [sub_eq_zero]

theorem drift_eq_zero_iff (lines : ℕ) : BitVec.ofNat 64 (8 * lines) = 0 ↔ 2 ^ 61 ∣ lines := by
  rw [← BitVec.toNat_inj, BitVec.toNat_ofNat]
  change 8 * lines % 2 ^ 64 = 0 ↔ _
  omega

theorem inFlight_quiescent (h : Quiescent s) : inFlight s = 0 := by
  unfold inFlight
  refine Finset.sum_eq_zero fun t _ => ?_
  rw [h t]
  rfl

/-- The counter says what is live, is back at 0 when everything has been freed, and starts collections by what is
live, exactly if no line was read (eight bytes for each line come to 0 after 2 ^ 61 of them). -/
theorem run_balanced_iff {lines : ℕ} (h : Run s lines) :
    (Right s ↔ 2 ^ 61 ∣ lines) ∧
      (Quiescent s → (s.usedHeap = liveBytes s ↔ 2 ^ 61 ∣ lines)) ∧
      (Quiescent s → s.live = [] → (s.usedHeap = 0 ↔ 2 ^ 61 ∣ lines)) ∧
      (2 ^ 61 ∣ lines → ∀ t size frames, s.frames t = .testing size :: frames →
        next s (.test t) = some (s.setFrames t ((if heapLimit.slt (liveBytes s + inFlight s) then .collecting size
          else .allocating size) :: frames))) := by
  have hright : Right s ↔ 2 ^ 61 ∣ lines := by
    rw [right_iff, run_excess h, drift_eq_zero_iff]
  have hquiescent : Quiescent s → (s.usedHeap = liveBytes s ↔ 2 ^ 61 ∣ lines) := by
    intro hs
    rw [← hright, Right, inFlight_quiescent hs, add_zero]
  refine ⟨hright, hquiescent, ?_, ?_⟩
  · intro hs hfreed
    have hzero : liveBytes s = 0 := by
      rw [liveBytes, hfreed]
      rfl
    rw [← hquiescent hs, hzero]
  · intro hlines t size frames hframes
    rw [← hright.mpr hlines]
    simp only [next, hframes]

theorem Run.events {lines : ℕ} {events : List (Event n)} (h : Run s lines) (hrun : events.foldlM next s = some s') :
    Run s' (lines + (events.map Event.lines).sum) := by
  induction events generalizing s lines with
  | nil =>
    cases hrun
    exact h
  | cons e events ih =>
    obtain ⟨mid, hnext, hrest⟩ := Option.bind_eq_some_iff.mp hrun
    rw [List.map_cons, List.sum_cons, ← Nat.add_assoc]
    exact ih (.step h hnext) hrest

end

theorem allocated : ∃ s : State 1, Run s 0 ∧ Quiescent s ∧ s.live = [⟨1, 11⟩] := by
  have hrun : ∃ s, [Event.allocOrDie 0 3, .malloc 0 1, .decorate 0].foldlM next (initial 1) = some s ∧
      Quiescent s ∧ s.live = [⟨1, 11⟩] := ⟨_, rfl, by unfold Quiescent; decide, rfl⟩
  obtain ⟨s, hrun, hs, hlive⟩ := hrun
  exact ⟨s, Run.start.events hrun, hs, hlive⟩

theorem allocated_right : ∃ s : State 1, Run s 0 ∧ s.usedHeap = 11 ∧ Right s := by
  obtain ⟨s, hrun, hs, hlive⟩ := allocated
  obtain ⟨hright, hlines, -⟩ := run_balanced_iff hrun
  have hused := (hlines hs).mpr (Nat.dvd_zero _)
  refine ⟨s, hrun, ?_, hright.mpr (Nat.dvd_zero _)⟩
  rw [hused, liveBytes, hlive]
  rfl

/-- A line of one character is read and freed, and eight bytes stay in the counter. -/
theorem line_freed : ∃ s : State 1, Run s 1 ∧ Quiescent s ∧ s.live = [] ∧ s.usedHeap = 8 ∧ ¬ Right s := by
  have hrun : ∃ s, [Event.readln 0 1, .getchar 0 1, .endLine 0, .decorate 0, .free 0 ⟨1, 1⟩, .release 0].foldlM next
      (initial 1) = some s ∧ Quiescent s ∧ s.live = [] ∧ s.usedHeap = 8 :=
    ⟨_, rfl, by unfold Quiescent; decide, rfl, rfl⟩
  obtain ⟨s, hrun, hs, hlive, hused⟩ := hrun
  refine ⟨s, Run.start.events hrun, hs, hlive, hused, ?_⟩
  rw [Right, inFlight_quiescent hs, hused, liveBytes, hlive]
  decide

end Zeroscript.UsedHeap
