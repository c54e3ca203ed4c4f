import Mathlib.Data.Int.Basic
import Mathlib.Data.List.Basic
import Mathlib.Logic.Relation
import Mathlib.Order.Basic
import Mathlib.Tactic.Common
import Zeroscript.Lib.Counting

/-! # `schedule_gc` on many threads

The barriers of `common/alloc.c`, and the threads that `z_thread_gc_safe_start_thread` and
`z_thread_gc_safe_end_thread` count. Every access to a shared variable is a step of its own, a wait
at a barrier is a step that blocks, and steps of threads interleave. -/
namespace Zeroscript.GcBarrier

/-- Why a thread is in `schedule_gc`: its heap is full, or it starts a thread, or it ends. -/
inductive Reason where
  | alloc
  | start
  | finish
  deriving DecidableEq, Repr

/-- `gc_safe_barrier1` and `gc_safe_barrier2`. -/
inductive Side where
  | first
  | second
  deriving DecidableEq, Repr

def Side.other : Side → Side
  | .first => .second
  | .second => .first

@[simp] theorem Side.other_other (b : Side) : b.other.other = b := by cases b <;> rfl

@[simp] theorem Side.other_ne (b : Side) : b.other ≠ b := by cases b <;> decide

@[simp] theorem Side.ne_other (b : Side) : b ≠ b.other := b.other_ne.symm

/-- Where a thread is. From its first wait on it carries the number of the collection. -/
inductive Phase where
  | running
  /-- At the entry of `schedule_gc`; the thread count is up to date. -/
  | entered (r : Reason)
  /-- `gc_count` has been read, and tells the barrier. -/
  | picked (r : Reason) (b : Side)
  /-- `gc_safe_barrier` has been written. -/
  | pointed (r : Reason)
  /-- `gc_safe_barrier` has been read again, for the first wait. -/
  | arriving (r : Reason) (b : Side)
  | waitingFirst (r : Reason) (b : Side)
  /-- The first wait has returned `PTHREAD_BARRIER_SERIAL_THREAD`. -/
  | elected (r : Reason) (collection : ℕ)
  /-- `gc_count` has been incremented. -/
  | counted (r : Reason) (collection : ℕ)
  /-- In `gc`. -/
  | collecting (r : Reason) (collection : ℕ)
  | collected (r : Reason) (collection : ℕ)
  /-- Before the second wait, for every thread. -/
  | between (r : Reason) (collection : ℕ)
  /-- `gc_safe_barrier` has been read, for the second wait. -/
  | returning (r : Reason) (b : Side) (collection : ℕ)
  | waitingSecond (r : Reason) (b : Side) (collection : ℕ)
  /-- Before `pthread_create`. -/
  | creating
  | ended
  deriving DecidableEq, Repr

/-- A `pthread_barrier_t`. A count of 0 stands for a barrier that is not initialised, since
`pthread_barrier_init` refuses that count. -/
structure Barrier where
  count : ℕ
  waiting : ℕ := 0
  deriving DecidableEq, Repr

/-- `collections` counts the waits that have been passed; the code has no such variable. -/
structure State where
  threads : List Phase
  totalThreadCount : ℤ
  gcCount : BitVec 32
  gcSafeBarrier : Side
  barriers : Side → Barrier
  collections : ℕ

/-- `gc_count % 2 == 0 ? &gc_safe_barrier1 : &gc_safe_barrier2` -/
def side (gcCount : BitVec 32) : Side := if gcCount.toNat % 2 = 0 then .first else .second

theorem side_succ (gcCount : BitVec 32) : side (gcCount + 1) = (side gcCount).other := by
  have hnat : (gcCount + 1).toNat = (gcCount.toNat + 1) % 2 ^ 32 := BitVec.toNat_add _ _
  unfold side
  rw [hnat]
  by_cases h : gcCount.toNat % 2 = 0
  · rw [if_pos h, if_neg (by omega)]
    rfl
  · rw [if_neg h, if_pos (by omega)]
    rfl

def Reason.resume : Reason → Phase
  | .alloc => .running
  | .start => .creating
  | .finish => .ended

def Phase.release (b : Side) (collection : ℕ) : Phase → Phase
  | .waitingFirst r b' => if b' = b then .between r collection else .waitingFirst r b'
  | .waitingSecond r b' k => if b' = b then r.resume else .waitingSecond r b' k
  | p => p

/-- The thread that `pthread_barrier_wait` tells apart; the second wait does not look. -/
def Phase.elect : Phase → Phase
  | .between r collection => .elected r collection
  | p => p

def Phase.blockedAt (b : Side) : Phase → Bool
  | .waitingFirst _ b' | .waitingSecond _ b' _ => b' = b
  | _ => false

namespace State

def setPhase (s : State) (i : ℕ) (p : Phase) : State := { s with threads := s.threads.set i p }

def setBarrier (s : State) (b : Side) (barrier : Barrier) : State :=
  { s with barriers := Function.update s.barriers b barrier }

def block (s : State) (i : ℕ) (b : Side) (p : Phase) : State :=
  (s.setPhase i p).setBarrier b ⟨(s.barriers b).count, (s.barriers b).waiting + 1⟩

/-- `pthread_barrier_wait` of the last thread: every thread that waits there goes on, and thread `j`
is told apart. -/
def openBarrier (s : State) (i : ℕ) (b : Side) (p : Phase) (j : ℕ) : State :=
  let threads := (s.threads.set i p).map (Phase.release b s.collections)
  { s with
    threads := threads.modify j Phase.elect
    barriers := Function.update s.barriers b ⟨(s.barriers b).count, 0⟩
    collections := s.collections + 1 }

/-- `init_gc_barrier`, which converts the count. -/
def prepare (s : State) : State :=
  s.setBarrier (side s.gcCount) ⟨s.totalThreadCount.toNat, 0⟩

end State

def initial : State where
  threads := [.running]
  totalThreadCount := 1
  gcCount := 0
  gcSafeBarrier := .first
  barriers := fun _ => ⟨1, 0⟩
  collections := 0

inductive Step (s : State) : State → Prop where
  | alloc {i : ℕ} (h : s.threads[i]? = some .running) : Step s (s.setPhase i (.entered .alloc))
  | start {i : ℕ} (h : s.threads[i]? = some .running) :
      Step s ({ s with totalThreadCount := s.totalThreadCount + 1 }.setPhase i (.entered .start))
  | finish {i : ℕ} (h : s.threads[i]? = some .running) :
      Step s ({ s with totalThreadCount := s.totalThreadCount - 1 }.setPhase i (.entered .finish))
  | pick {i : ℕ} {r : Reason} (h : s.threads[i]? = some (.entered r)) :
      Step s (s.setPhase i (.picked r (side s.gcCount)))
  | point {i : ℕ} {r : Reason} {b : Side} (h : s.threads[i]? = some (.picked r b)) :
      Step s ({ s with gcSafeBarrier := b }.setPhase i (.pointed r))
  | arrive {i : ℕ} {r : Reason} (h : s.threads[i]? = some (.pointed r)) :
      Step s (s.setPhase i (.arriving r s.gcSafeBarrier))
  | waitFirst {i : ℕ} {r : Reason} {b : Side} (h : s.threads[i]? = some (.arriving r b))
      (hmore : (s.barriers b).waiting + 1 < (s.barriers b).count) :
      Step s (s.block i b (.waitingFirst r b))
  | openFirst {i j : ℕ} {r : Reason} {b : Side} (h : s.threads[i]? = some (.arriving r b))
      (hlast : (s.barriers b).waiting + 1 = (s.barriers b).count)
      (hj : ∃ p, (s.threads.set i (.waitingFirst r b))[j]? = some p ∧ p.blockedAt b) :
      Step s (s.openBarrier i b (.waitingFirst r b) j)
  | count {i k : ℕ} {r : Reason} (h : s.threads[i]? = some (.elected r k)) :
      Step s ({ s with gcCount := s.gcCount + 1 }.setPhase i (.counted r k))
  | collect {i k : ℕ} {r : Reason} (h : s.threads[i]? = some (.counted r k)) :
      Step s (s.setPhase i (.collecting r k))
  | collected {i k : ℕ} {r : Reason} (h : s.threads[i]? = some (.collecting r k)) :
      Step s (s.setPhase i (.collected r k))
  | prepare {i k : ℕ} {r : Reason} (h : s.threads[i]? = some (.collected r k)) :
      Step s (s.prepare.setPhase i (.between r k))
  | turnBack {i k : ℕ} {r : Reason} (h : s.threads[i]? = some (.between r k)) :
      Step s (s.setPhase i (.returning r s.gcSafeBarrier k))
  | waitSecond {i k : ℕ} {r : Reason} {b : Side} (h : s.threads[i]? = some (.returning r b k))
      (hmore : (s.barriers b).waiting + 1 < (s.barriers b).count) :
      Step s (s.block i b (.waitingSecond r b k))
  | openSecond {i j k : ℕ} {r : Reason} {b : Side} (h : s.threads[i]? = some (.returning r b k))
      (hlast : (s.barriers b).waiting + 1 = (s.barriers b).count)
      (hj : ∃ p, (s.threads.set i (.waitingSecond r b k))[j]? = some p ∧ p.blockedAt b) :
      Step s (s.openBarrier i b (.waitingSecond r b k) j)
  | create {i : ℕ} (h : s.threads[i]? = some .creating) :
      Step s { s with threads := s.threads.set i .running ++ [.running] }

def Reachable (s : State) : Prop := Relation.ReflTransGen Step initial s

namespace Phase

def present : Phase → Bool
  | .ended => false
  | _ => true

def reason? : Phase → Option Reason
  | .entered r | .picked r _ | .pointed r | .arriving r _ | .waitingFirst r _ | .elected r _
  | .counted r _ | .collecting r _ | .collected r _ | .between r _ | .returning r _ _
  | .waitingSecond r _ _ => some r
  | .running | .creating | .ended => none

def stays (p : Phase) : Bool := p.present && p.reason? != some .finish

def starts (p : Phase) : Bool := p == .creating || p.reason? == some .start

def creates (p : Phase) : Bool := p == .creating

/-- The thread that collects, from its election to the second wait. -/
def leads : Phase → Bool
  | .elected _ _ | .counted _ _ | .collecting _ _ | .collected _ _ => true
  | _ => false

def isElected : Phase → Bool
  | .elected _ _ => true
  | _ => false

def before (b : Side) : Phase → Prop
  | .running | .entered _ | .pointed _ | .creating | .ended => True
  | .picked _ b' | .arriving _ b' | .waitingFirst _ b' => b' = b
  | _ => False

def pointsBefore : Phase → Bool
  | .pointed _ | .arriving _ _ | .waitingFirst _ _ => true
  | _ => false

def betweenWaits (b : Side) (k : ℕ) : Phase → Prop
  | .between _ k' => k' = k
  | .returning _ b' k' | .waitingSecond _ b' k' => b' = b ∧ k' = k
  | _ => False

def during (b : Side) (k : ℕ) : Phase → Prop
  | .elected _ k' | .counted _ k' | .collecting _ k' | .collected _ k' => k' = k
  | .ended => True
  | p => p.betweenWaits b k

@[simp] theorem stays_release (b : Side) (k : ℕ) (p : Phase) : (p.release b k).stays = p.stays := by
  cases p with
  | waitingFirst r b' =>
    rw [release]
    split <;> rfl
  | waitingSecond r b' k' =>
    rw [release]
    split
    · cases r <;> rfl
    · rfl
  | _ => rfl

@[simp] theorem starts_release (b : Side) (k : ℕ) (p : Phase) :
    (p.release b k).starts = p.starts := by
  cases p with
  | waitingFirst r b' =>
    rw [release]
    split <;> rfl
  | waitingSecond r b' k' =>
    rw [release]
    split
    · cases r <;> rfl
    · rfl
  | _ => rfl

@[simp] theorem stays_elect (p : Phase) : p.elect.stays = p.stays := by cases p <;> rfl

@[simp] theorem starts_elect (p : Phase) : p.elect.starts = p.starts := by cases p <;> rfl

theorem present_of_blockedAt {b : Side} {p : Phase} (h : p.blockedAt b) : p.present := by
  cases p <;> first | rfl | cases h

theorem leads_of_isElected {p : Phase} (h : p.isElected) : p.leads := by
  cases p <;> first | rfl | cases h

end Phase

/-- The threads that are live, without those that have announced their end, and the threads that are
about to start. -/
def population (threads : List Phase) : ℕ := threads.countP Phase.stays + threads.countP Phase.starts

theorem population_set {threads : List Phase} {i : ℕ} {p q : Phase} (h : threads[i]? = some p)
    (hstays : q.stays = p.stays) (hstarts : q.starts = p.starts) :
    population (threads.set i q) = population threads := by
  unfold population
  rw [Counting.countP_set_of_eq h hstays, Counting.countP_set_of_eq h hstarts]

theorem population_open {threads : List Phase} {b : Side} {k j : ℕ} :
    population ((threads.map (Phase.release b k)).modify j Phase.elect) = population threads := by
  unfold population
  rw [Counting.countP_modify_of_eq Phase.stays_elect, Counting.countP_modify_of_eq Phase.starts_elect,
    Counting.countP_map_of_eq (Phase.stays_release b k),
    Counting.countP_map_of_eq (Phase.starts_release b k)]

/-- No collection is on: the next barrier expects every thread, the new ones that are about to start
as well. -/
structure Gathering (s : State) : Prop where
  phases : ∀ p ∈ s.threads, p.before (side s.gcCount)
  pointer : ∀ p ∈ s.threads, p.pointsBefore → s.gcSafeBarrier = side s.gcCount
  count : (s.barriers (side s.gcCount)).count =
    s.threads.countP Phase.present + s.threads.countP Phase.creates
  waiting : (s.barriers (side s.gcCount)).waiting =
    s.threads.countP (Phase.blockedAt (side s.gcCount))

/-- Collection `k` is on, at the barrier `b`. -/
structure Collecting (s : State) (b : Side) (k : ℕ) : Prop where
  phases : ∀ p ∈ s.threads, p.during b k
  pointer : s.gcSafeBarrier = b
  count : (s.barriers b).count = s.threads.countP Phase.present
  waiting : (s.barriers b).waiting = s.threads.countP (Phase.blockedAt b)
  leader : s.threads.countP Phase.leads ≤ 1
  old : 0 < s.threads.countP Phase.isElected → side s.gcCount = b
  new : s.threads.countP Phase.isElected = 0 → side s.gcCount = b.other
  next : s.threads.countP Phase.leads = 0 → s.barriers b.other = ⟨population s.threads, 0⟩

structure Invariant (s : State) : Prop where
  total : s.totalThreadCount = population s.threads
  mode : Gathering s ∨ ∃ b k, Collecting s b k

theorem Gathering.setPhase {s : State} (h : Gathering s) {i : ℕ} {p q : Phase}
    (hi : s.threads[i]? = some p) (hq : q.before (side s.gcCount))
    (hpointer : q.pointsBefore → s.gcSafeBarrier = side s.gcCount)
    (hpresent : q.present = p.present) (hcreates : q.creates = p.creates)
    (hblocked : q.blockedAt (side s.gcCount) = p.blockedAt (side s.gcCount)) :
    Gathering (s.setPhase i q) where
  phases x hx := by
    rcases List.mem_or_eq_of_mem_set hx with hx | rfl
    · exact h.phases x hx
    · exact hq
  pointer x hx := by
    rcases List.mem_or_eq_of_mem_set hx with hx | rfl
    · exact h.pointer x hx
    · exact hpointer
  count := by
    refine h.count.trans ?_
    rw [State.setPhase, Counting.countP_set_of_eq hi hpresent, Counting.countP_set_of_eq hi hcreates]
  waiting := by
    refine h.waiting.trans ?_
    rw [State.setPhase, Counting.countP_set_of_eq hi hblocked]

theorem Collecting.setPhase {s : State} {b : Side} {k : ℕ} (h : Collecting s b k) {i : ℕ} {p q : Phase}
    (hi : s.threads[i]? = some p) (hq : q.during b k) (hpresent : q.present = p.present)
    (hblocked : q.blockedAt b = p.blockedAt b) (hleads : q.leads = p.leads)
    (helected : q.isElected = p.isElected) (hstays : q.stays = p.stays)
    (hstarts : q.starts = p.starts) : Collecting (s.setPhase i q) b k where
  phases x hx := by
    rcases List.mem_or_eq_of_mem_set hx with hx | rfl
    · exact h.phases x hx
    · exact hq
  pointer := h.pointer
  count := by
    refine h.count.trans ?_
    rw [State.setPhase, Counting.countP_set_of_eq hi hpresent]
  waiting := by
    refine h.waiting.trans ?_
    rw [State.setPhase, Counting.countP_set_of_eq hi hblocked]
  leader := by
    rw [State.setPhase, Counting.countP_set_of_eq hi hleads]
    exact h.leader
  old := by
    rw [State.setPhase, Counting.countP_set_of_eq hi helected]
    exact h.old
  new := by
    rw [State.setPhase, Counting.countP_set_of_eq hi helected]
    exact h.new
  next := by
    rw [State.setPhase, Counting.countP_set_of_eq hi hleads, population_set hi hstays hstarts]
    exact h.next

theorem mem_of_getElem {s : State} {i : ℕ} {p : Phase} (h : s.threads[i]? = some p) : p ∈ s.threads :=
  List.mem_of_getElem? h

theorem Gathering.block {s : State} (h : Gathering s) {i : ℕ} {r : Reason} {b : Side}
    (hi : s.threads[i]? = some (.arriving r b)) : Gathering (s.block i b (.waitingFirst r b)) := by
  obtain rfl : b = side s.gcCount := h.phases _ (mem_of_getElem hi)
  refine ⟨fun x hx => ?_, fun x hx => ?_, ?_, ?_⟩
  · rcases List.mem_or_eq_of_mem_set hx with hx | rfl
    · exact h.phases x hx
    · exact rfl
  · rcases List.mem_or_eq_of_mem_set hx with hx | rfl
    · exact h.pointer x hx
    · exact fun _ => h.pointer _ (mem_of_getElem hi) rfl
  · have hpresent := Counting.countP_set_of_eq (f := Phase.present)
      (q := .waitingFirst r (side s.gcCount)) hi rfl
    have hcreates := Counting.countP_set_of_eq (f := Phase.creates)
      (q := .waitingFirst r (side s.gcCount)) hi rfl
    simpa [State.block, State.setBarrier, State.setPhase, hpresent, hcreates] using h.count
  · have hblocked := Counting.countP_set (f := Phase.blockedAt (side s.gcCount))
      (.waitingFirst r (side s.gcCount)) hi
    have hwaiting := h.waiting
    simp only [Phase.blockedAt, decide_true, if_true, Bool.false_eq_true, if_false,
      Nat.add_zero] at hblocked
    simp only [State.block, State.setBarrier, State.setPhase, Function.update_self]
    omega

theorem Collecting.block {s : State} {b b' : Side} {k k' : ℕ} (h : Collecting s b k) {i : ℕ} {r : Reason}
    (hi : s.threads[i]? = some (.returning r b' k')) :
    Collecting (s.block i b' (.waitingSecond r b' k')) b k := by
  obtain ⟨rfl, rfl⟩ : b' = b ∧ k' = k := h.phases _ (mem_of_getElem hi)
  have hpresent := Counting.countP_set_of_eq (f := Phase.present) (q := .waitingSecond r b' k') hi rfl
  have hleads := Counting.countP_set_of_eq (f := Phase.leads) (q := .waitingSecond r b' k') hi rfl
  have helected := Counting.countP_set_of_eq (f := Phase.isElected) (q := .waitingSecond r b' k') hi rfl
  have hpopulation := population_set (q := .waitingSecond r b' k') hi rfl rfl
  refine ⟨fun x hx => ?_, h.pointer, ?_, ?_, ?_, ?_, ?_, ?_⟩
  · rcases List.mem_or_eq_of_mem_set hx with hx | rfl
    · exact h.phases x hx
    · exact ⟨rfl, rfl⟩
  · simpa [State.block, State.setBarrier, State.setPhase, hpresent] using h.count
  · have hblocked := Counting.countP_set (f := Phase.blockedAt b') (.waitingSecond r b' k') hi
    have hwaiting := h.waiting
    simp only [Phase.blockedAt, decide_true, if_true, Bool.false_eq_true, if_false,
      Nat.add_zero] at hblocked
    simp only [State.block, State.setBarrier, State.setPhase, Function.update_self]
    omega
  · simpa [State.block, State.setBarrier, State.setPhase, hleads] using h.leader
  · simpa [State.block, State.setBarrier, State.setPhase, helected] using h.old
  · simpa [State.block, State.setBarrier, State.setPhase, helected] using h.new
  · simpa [State.block, State.setBarrier, State.setPhase, hleads, hpopulation] using h.next

theorem Gathering.all_wait {s : State} (h : Gathering s) {i : ℕ} {r : Reason} {b : Side}
    (hi : s.threads[i]? = some (.arriving r b))
    (hlast : (s.barriers b).waiting + 1 = (s.barriers b).count) :
    ∀ p ∈ s.threads.set i (.waitingFirst r b), p = .ended ∨ ∃ r', p = .waitingFirst r' b := by
  have hblock := h.block hi
  obtain rfl : b = side s.gcCount := h.phases _ (mem_of_getElem hi)
  have hcount := hblock.count
  have hwaiting := hblock.waiting
  simp only [State.block, State.setBarrier, State.setPhase, Function.update_self] at hcount hwaiting
  have hle : (s.threads.set i (.waitingFirst r (side s.gcCount))).countP (Phase.blockedAt (side s.gcCount)) ≤
      (s.threads.set i (.waitingFirst r (side s.gcCount))).countP Phase.present :=
    List.countP_mono_left fun p _ => Phase.present_of_blockedAt
  have heq : (s.threads.set i (.waitingFirst r (side s.gcCount))).countP (Phase.blockedAt (side s.gcCount)) =
      (s.threads.set i (.waitingFirst r (side s.gcCount))).countP Phase.present := by omega
  intro p hp
  have hbefore := hblock.phases p hp
  have hblocked := Counting.of_countP_eq (fun _ => Phase.present_of_blockedAt) heq p hp
  cases p with
  | ended => exact Or.inl rfl
  | waitingFirst r' b' =>
    obtain rfl : b' = side s.gcCount := hbefore
    exact Or.inr ⟨r', rfl⟩
  | waitingSecond _ _ _ => exact absurd hbefore id
  | _ => exact absurd (hblocked rfl) Bool.false_ne_true

theorem Collecting.all_wait {s : State} {b : Side} {k : ℕ} (h : Collecting s b k) {i : ℕ} {r : Reason}
    (hi : s.threads[i]? = some (.returning r b k))
    (hlast : (s.barriers b).waiting + 1 = (s.barriers b).count) :
    ∀ p ∈ s.threads.set i (.waitingSecond r b k), p = .ended ∨ ∃ r', p = .waitingSecond r' b k := by
  have hblock := h.block hi
  have hcount := hblock.count
  have hwaiting := hblock.waiting
  simp only [State.block, State.setBarrier, State.setPhase, Function.update_self] at hcount hwaiting
  have heq : (s.threads.set i (.waitingSecond r b k)).countP (Phase.blockedAt b) =
      (s.threads.set i (.waitingSecond r b k)).countP Phase.present := by omega
  intro p hp
  have hduring := hblock.phases p hp
  have hblocked := Counting.of_countP_eq (fun _ => Phase.present_of_blockedAt) heq p hp
  cases p with
  | ended => exact Or.inl rfl
  | waitingSecond r' b' k' =>
    obtain ⟨rfl, rfl⟩ : b' = b ∧ k' = k := hduring
    exact Or.inr ⟨r', rfl⟩
  | waitingFirst _ _ => exact absurd hduring id
  | _ => exact absurd (hblocked rfl) Bool.false_ne_true

def opened (threads : List Phase) (b : Side) (k j : ℕ) : List Phase :=
  (threads.map (Phase.release b k)).modify j Phase.elect

theorem mem_opened {threads : List Phase} {b : Side} {k j : ℕ} {q : Phase}
    (h : q ∈ opened threads b k j) :
    ∃ p ∈ threads, q = p.release b k ∨ q = (p.release b k).elect := by
  rcases Counting.mem_of_modify h with h | ⟨p, hp, rfl⟩
  · obtain ⟨p, hp, rfl⟩ := List.mem_map.mp h
    exact ⟨p, hp, Or.inl rfl⟩
  · obtain ⟨p₀, hp₀, rfl⟩ := List.mem_map.mp (List.mem_of_getElem? hp)
    exact ⟨p₀, hp₀, Or.inr rfl⟩

theorem opened_first {threads : List Phase} {b : Side} {k j : ℕ}
    (hall : ∀ p ∈ threads, p = .ended ∨ ∃ r, p = .waitingFirst r b) :
    ∀ q ∈ opened threads b k j, q = .ended ∨ (∃ r, q = .between r k) ∨ ∃ r, q = .elected r k := by
  intro q hq
  obtain ⟨p, hp, hq⟩ := mem_opened hq
  rcases hall p hp with rfl | ⟨r, rfl⟩
  · rcases hq with rfl | rfl
    · exact Or.inl rfl
    · exact Or.inl rfl
  · have hrelease : Phase.release b k (.waitingFirst r b) = .between r k := if_pos rfl
    rw [hrelease] at hq
    rcases hq with rfl | rfl
    · exact Or.inr (Or.inl ⟨r, rfl⟩)
    · exact Or.inr (Or.inr ⟨r, rfl⟩)

theorem opened_present {threads : List Phase} {b : Side} {k j : ℕ}
    (hall : ∀ p ∈ threads, p = .ended ∨ ∃ r, p = .waitingFirst r b) :
    (opened threads b k j).countP Phase.present =
      threads.countP Phase.present + threads.countP Phase.creates := by
  have hcreates : threads.countP Phase.creates = 0 := by
    refine List.countP_eq_zero.mpr fun p hp => ?_
    rcases hall p hp with rfl | ⟨r, rfl⟩ <;> exact Bool.false_ne_true
  rw [hcreates, Nat.add_zero, opened, Counting.countP_modify_of_eq fun p => ?_]
  · refine Counting.countP_map_congr fun p hp => ?_
    rcases hall p hp with rfl | ⟨r, rfl⟩
    · rfl
    · simp [Phase.release, Phase.present]
  · cases p <;> rfl

theorem opened_leads {threads : List Phase} {b : Side} {k j : ℕ}
    (hall : ∀ p ∈ threads, p = .ended ∨ ∃ r, p = .waitingFirst r b) :
    (opened threads b k j).countP Phase.leads ≤ 1 := by
  refine le_trans Counting.countP_modify_le (Nat.succ_le_succ (Nat.le_zero.mpr ?_))
  refine List.countP_eq_zero.mpr fun q hq => ?_
  obtain ⟨p, hp, rfl⟩ := List.mem_map.mp hq
  rcases hall p hp with rfl | ⟨r, rfl⟩
  · exact Bool.false_ne_true
  · simp [Phase.release, Phase.leads]

theorem opened_elected {threads : List Phase} {b : Side} {k j : ℕ}
    (hall : ∀ p ∈ threads, p = .ended ∨ ∃ r, p = .waitingFirst r b)
    (hj : ∃ p, threads[j]? = some p ∧ p.blockedAt b) :
    0 < (opened threads b k j).countP Phase.isElected := by
  obtain ⟨p, hp, hblocked⟩ := hj
  rcases hall p (List.mem_of_getElem? hp) with rfl | ⟨r, rfl⟩
  · exact absurd hblocked Bool.false_ne_true
  · refine List.countP_pos_iff.mpr ⟨.elected r k, List.mem_of_getElem? (i := j) ?_, rfl⟩
    have hrelease : Phase.release b k (.waitingFirst r b) = .between r k := if_pos rfl
    simp [opened, hp, hrelease, Phase.elect]

theorem Gathering.open {s : State} (h : Gathering s) {i j : ℕ} {r : Reason} {b : Side}
    (hi : s.threads[i]? = some (.arriving r b))
    (hlast : (s.barriers b).waiting + 1 = (s.barriers b).count)
    (hj : ∃ p, (s.threads.set i (.waitingFirst r b))[j]? = some p ∧ p.blockedAt b) :
    Collecting (s.openBarrier i b (.waitingFirst r b) j) b s.collections := by
  have hall := h.all_wait hi hlast
  have hblock := h.block hi
  obtain rfl : b = side s.gcCount := h.phases _ (mem_of_getElem hi)
  have hcount := hblock.count
  simp only [State.block, State.setBarrier, State.setPhase, Function.update_self] at hcount
  change Collecting { s with
    threads := opened (s.threads.set i (.waitingFirst r (side s.gcCount))) (side s.gcCount) s.collections j
    barriers := _
    collections := _ } _ _
  generalize s.threads.set i (.waitingFirst r (side s.gcCount)) = threads at hall hj hcount
  have hphases := opened_first (k := s.collections) (j := j) hall
  have helected := opened_elected (k := s.collections) hall hj
  have hleads : 0 < (opened threads (side s.gcCount) s.collections j).countP Phase.leads :=
     lt_of_lt_of_le helected (List.countP_mono_left fun p _ => Phase.leads_of_isElected)
  refine ⟨fun q hq => ?_, ?_, ?_, ?_, ?_, ?_, ?_, ?_⟩
  · rcases hphases q hq with rfl | ⟨r', rfl⟩ | ⟨r', rfl⟩
    · exact trivial
    · exact rfl
    · exact rfl
  · exact h.pointer _ (mem_of_getElem hi) rfl
  · dsimp only
    rw [Function.update_self, opened_present hall]
    exact hcount
  · dsimp only
    rw [Function.update_self]
    refine (List.countP_eq_zero.mpr fun q hq => ?_).symm
    rcases hphases q hq with rfl | ⟨r', rfl⟩ | ⟨r', rfl⟩ <;> exact Bool.false_ne_true
  · exact opened_leads hall
  · exact fun _ => rfl
  · exact fun hnone => absurd hnone (Nat.ne_of_gt helected)
  · exact fun hnone => absurd hnone (Nat.ne_of_gt hleads)

theorem opened_second {threads : List Phase} {b : Side} {k k' j : ℕ}
    (hall : ∀ p ∈ threads, p = .ended ∨ ∃ r, p = .waitingSecond r b k') :
    ∀ q ∈ opened threads b k j, q = .running ∨ q = .creating ∨ q = .ended := by
  intro q hq
  obtain ⟨p, hp, hq⟩ := mem_opened hq
  rcases hall p hp with rfl | ⟨r, rfl⟩
  · rcases hq with rfl | rfl
    · exact Or.inr (Or.inr rfl)
    · exact Or.inr (Or.inr rfl)
  · have hrelease : Phase.release b k (.waitingSecond r b k') = r.resume := if_pos rfl
    rw [hrelease] at hq
    cases r <;> rcases hq with rfl | rfl <;> simp [Reason.resume, Phase.elect]

theorem Collecting.open {s : State} {b : Side} {k : ℕ} (h : Collecting s b k) {i j : ℕ} {r : Reason}
    (hi : s.threads[i]? = some (.returning r b k))
    (hlast : (s.barriers b).waiting + 1 = (s.barriers b).count) :
    Gathering (s.openBarrier i b (.waitingSecond r b k) j) := by
  have hall := h.all_wait hi hlast
  have hblock := h.block hi
  have hnone : (s.threads.set i (.waitingSecond r b k)).countP Phase.leads = 0 := by
    refine List.countP_eq_zero.mpr fun p hp => ?_
    rcases hall p hp with rfl | ⟨r', rfl⟩ <;> exact Bool.false_ne_true
  have hunelected : (s.threads.set i (.waitingSecond r b k)).countP Phase.isElected = 0 := by
    refine List.countP_eq_zero.mpr fun p hp => ?_
    rcases hall p hp with rfl | ⟨r', rfl⟩ <;> exact Bool.false_ne_true
  have hside : side s.gcCount = b.other := hblock.new hunelected
  have hnext : s.barriers b.other = ⟨population (s.threads.set i (.waitingSecond r b k)), 0⟩ := by
    have hnext := hblock.next hnone
    simpa [State.block, State.setBarrier, State.setPhase] using hnext
  change Gathering { s with
    threads := opened (s.threads.set i (.waitingSecond r b k)) b s.collections j
    barriers := _
    collections := _ }
  generalize s.threads.set i (.waitingSecond r b k) = threads at hall hnext
  have hphases := opened_second (k := s.collections) (j := j) hall
  have hpopulation : population (opened threads b s.collections j) = population threads :=
    population_open
  refine ⟨fun q hq => ?_, fun q hq => ?_, ?_, ?_⟩
  · rcases hphases q hq with rfl | rfl | rfl <;> exact trivial
  · rcases hphases q hq with rfl | rfl | rfl <;> exact fun hp => absurd hp Bool.false_ne_true
  · dsimp only
    rw [hside, Function.update_of_ne b.other_ne, hnext]
    refine hpopulation.symm.trans ?_
    unfold population
    congr 1
    · refine List.countP_congr fun q hq => ?_
      rcases hphases q hq with rfl | rfl | rfl <;> decide
    · refine List.countP_congr fun q hq => ?_
      rcases hphases q hq with rfl | rfl | rfl <;> decide
  · dsimp only
    rw [hside, Function.update_of_ne b.other_ne, hnext]
    refine (List.countP_eq_zero.mpr fun q hq => ?_).symm
    rcases hphases q hq with rfl | rfl | rfl <;> exact Bool.false_ne_true

theorem population_counted {threads : List Phase} {i : ℕ} {p q : Phase} (h : threads[i]? = some p) :
    population (threads.set i q) + ((if p.stays then 1 else 0) + if p.starts then 1 else 0) =
      population threads + ((if q.stays then 1 else 0) + if q.starts then 1 else 0) := by
  have hstays := Counting.countP_set (f := Phase.stays) q h
  have hstarts := Counting.countP_set (f := Phase.starts) q h
  unfold population
  omega

theorem population_start {threads : List Phase} {i : ℕ} (h : threads[i]? = some .running) :
    population (threads.set i (.entered .start)) = population threads + 1 := by
  have hcount := population_counted (q := .entered .start) h
  simp [Phase.stays, Phase.starts, Phase.present, Phase.reason?] at hcount
  omega

theorem population_finish {threads : List Phase} {i : ℕ} (h : threads[i]? = some .running) :
    population (threads.set i (.entered .finish)) + 1 = population threads := by
  have hcount := population_counted (q := .entered .finish) h
  simpa [Phase.stays, Phase.starts, Phase.present, Phase.reason?] using hcount

theorem population_create {threads : List Phase} {i : ℕ} (h : threads[i]? = some .creating) :
    population (threads.set i .running ++ [.running]) = population threads := by
  have hcount := population_counted (q := .running) h
  have happend : population (threads.set i .running ++ [Phase.running]) =
      population (threads.set i .running) + 1 := by
    simp [population, Phase.stays, Phase.starts, Phase.present, Phase.reason?]
    omega
  simp [Phase.stays, Phase.starts, Phase.present, Phase.reason?] at hcount
  omega

theorem total_set {total : ℤ} {threads : List Phase} (htotal : total = population threads) {i : ℕ}
    {p q : Phase} (hi : threads[i]? = some p) (hstays : q.stays = p.stays)
    (hstarts : q.starts = p.starts) : total = population (threads.set i q) := by
  rw [population_set hi hstays hstarts]
  exact htotal

theorem total_open {s : State} (htotal : s.totalThreadCount = population s.threads) {i j : ℕ} {b : Side}
    {p q : Phase} (hi : s.threads[i]? = some p) (hstays : q.stays = p.stays)
    (hstarts : q.starts = p.starts) :
    (s.openBarrier i b q j).totalThreadCount = population (s.openBarrier i b q j).threads := by
  have hset := total_set htotal hi hstays hstarts
  rw [← population_open (b := b) (k := s.collections) (j := j)] at hset
  exact hset

theorem Step.total {s s' : State} (h : Step s s')
    (htotal : s.totalThreadCount = population s.threads) :
    s'.totalThreadCount = population s'.threads := by
  cases h with
  | start hi =>
    have hstart := population_start hi
    simp only [State.setPhase, htotal]
    omega
  | finish hi =>
    have hfinish := population_finish hi
    simp only [State.setPhase, htotal]
    omega
  | create hi =>
    have hcreate := population_create hi
    simp only [htotal]
    omega
  | openFirst hi => exact total_open htotal hi rfl rfl
  | openSecond hi => exact total_open htotal hi rfl rfl
  | alloc hi => exact total_set htotal hi rfl rfl
  | pick hi => exact total_set htotal hi rfl rfl
  | point hi => exact total_set htotal hi rfl rfl
  | arrive hi => exact total_set htotal hi rfl rfl
  | waitFirst hi => exact total_set htotal hi rfl rfl
  | count hi => exact total_set htotal hi rfl rfl
  | collect hi => exact total_set htotal hi rfl rfl
  | collected hi => exact total_set htotal hi rfl rfl
  | prepare hi => exact total_set htotal hi rfl rfl
  | turnBack hi => exact total_set htotal hi rfl rfl
  | waitSecond hi => exact total_set htotal hi rfl rfl

theorem Gathering.create {s : State} (h : Gathering s) {i : ℕ} (hi : s.threads[i]? = some .creating) :
    Gathering { s with threads := s.threads.set i .running ++ [.running] } := by
  have hmem : ∀ x ∈ s.threads.set i .running ++ [Phase.running], x ∈ s.threads ∨ x = .running := by
    intro x hx
    rcases List.mem_append.mp hx with hx | hx
    · exact List.mem_or_eq_of_mem_set hx
    · exact Or.inr (List.mem_singleton.mp hx)
  have hpresent := Counting.countP_set_of_eq (f := Phase.present) (q := .running) hi rfl
  have hblocked := Counting.countP_set_of_eq (f := Phase.blockedAt (side s.gcCount)) (q := .running) hi rfl
  have hcreates := Counting.countP_set (f := Phase.creates) .running hi
  refine ⟨fun x hx => ?_, fun x hx => ?_, ?_, ?_⟩
  · rcases hmem x hx with hx | rfl
    · exact h.phases x hx
    · exact trivial
  · rcases hmem x hx with hx | rfl
    · exact h.pointer x hx
    · exact fun hp => absurd hp Bool.false_ne_true
  · refine h.count.trans ?_
    simp [Phase.creates] at hcreates
    simp [hpresent, Phase.present, Phase.creates]
    omega
  · refine h.waiting.trans ?_
    simp [hblocked, Phase.blockedAt]

theorem Gathering.step {s s' : State} (h : Gathering s) (hstep : Step s s') :
    Gathering s' ∨ ∃ b k, Collecting s' b k := by
  cases hstep with
  | alloc hi =>
    exact Or.inl (h.setPhase hi trivial (fun hp => absurd hp Bool.false_ne_true) rfl rfl rfl)
  | start hi =>
    have h' : Gathering { s with totalThreadCount := s.totalThreadCount + 1 } :=
      ⟨h.phases, h.pointer, h.count, h.waiting⟩
    exact Or.inl (h'.setPhase hi trivial (fun hp => absurd hp Bool.false_ne_true) rfl rfl rfl)
  | finish hi =>
    have h' : Gathering { s with totalThreadCount := s.totalThreadCount - 1 } :=
      ⟨h.phases, h.pointer, h.count, h.waiting⟩
    exact Or.inl (h'.setPhase hi trivial (fun hp => absurd hp Bool.false_ne_true) rfl rfl rfl)
  | pick hi =>
    exact Or.inl (h.setPhase hi rfl (fun hp => absurd hp Bool.false_ne_true) rfl rfl rfl)
  | @point i r b hi =>
    obtain rfl : b = side s.gcCount := h.phases _ (mem_of_getElem hi)
    have h' : Gathering { s with gcSafeBarrier := side s.gcCount } :=
      ⟨h.phases, fun _ _ _ => rfl, h.count, h.waiting⟩
    exact Or.inl (h'.setPhase hi trivial (fun _ => rfl) rfl rfl rfl)
  | arrive hi =>
    have hpointer := h.pointer _ (mem_of_getElem hi) rfl
    exact Or.inl (h.setPhase hi hpointer (fun _ => hpointer) rfl rfl rfl)
  | waitFirst hi => exact Or.inl (h.block hi)
  | openFirst hi hlast hj => exact Or.inr ⟨_, _, h.open hi hlast hj⟩
  | create hi => exact Or.inl (h.create hi)
  | count hi => exact absurd (h.phases _ (mem_of_getElem hi)) id
  | collect hi => exact absurd (h.phases _ (mem_of_getElem hi)) id
  | collected hi => exact absurd (h.phases _ (mem_of_getElem hi)) id
  | prepare hi => exact absurd (h.phases _ (mem_of_getElem hi)) id
  | turnBack hi => exact absurd (h.phases _ (mem_of_getElem hi)) id
  | waitSecond hi => exact absurd (h.phases _ (mem_of_getElem hi)) id
  | openSecond hi => exact absurd (h.phases _ (mem_of_getElem hi)) id

theorem Collecting.count_up {s : State} {b : Side} {k k' i : ℕ} {r : Reason} (h : Collecting s b k)
    (hi : s.threads[i]? = some (.elected r k')) :
    Collecting ({ s with gcCount := s.gcCount + 1 }.setPhase i (.counted r k')) b k := by
  have hpresent := Counting.countP_set_of_eq (f := Phase.present) (q := .counted r k') hi rfl
  have hblocked := Counting.countP_set_of_eq (f := Phase.blockedAt b) (q := .counted r k') hi rfl
  have hleads := Counting.countP_set_of_eq (f := Phase.leads) (q := .counted r k') hi rfl
  have helected := Counting.countP_set (f := Phase.isElected) (.counted r k') hi
  have hfew : s.threads.countP Phase.isElected ≤ s.threads.countP Phase.leads :=
    List.countP_mono_left fun p _ => Phase.leads_of_isElected
  have hleader := h.leader
  simp [Phase.isElected] at helected
  have hside : side s.gcCount = b := h.old (by omega)
  have hpos : 0 < s.threads.countP Phase.leads :=
    List.countP_pos_iff.mpr ⟨_, mem_of_getElem hi, rfl⟩
  refine ⟨fun x hx => ?_, h.pointer, ?_, ?_, ?_, ?_, ?_, ?_⟩
  · rcases List.mem_or_eq_of_mem_set hx with hx | rfl
    · exact h.phases x hx
    · have hk : k' = k := h.phases _ (mem_of_getElem hi)
      exact hk
  · exact h.count.trans hpresent.symm
  · exact h.waiting.trans hblocked.symm
  · exact hleads.trans_le h.leader
  · intro hsome
    simp only [State.setPhase] at hsome
    omega
  · intro _
    exact (side_succ s.gcCount).trans (congrArg Side.other hside)
  · intro hnone
    rw [State.setPhase, hleads] at hnone
    exact absurd hnone (Nat.ne_of_gt hpos)

theorem Collecting.unelected {s : State} {b : Side} {k i : ℕ} {p : Phase} (h : Collecting s b k)
    (hi : s.threads[i]? = some p) (hleads : p.leads) (helected : ¬p.isElected) :
    s.threads.countP Phase.isElected = 0 := by
  have hfew : s.threads.countP Phase.isElected ≤ s.threads.countP Phase.leads :=
    List.countP_mono_left fun p _ => Phase.leads_of_isElected
  have hne : s.threads.countP Phase.isElected ≠ s.threads.countP Phase.leads := fun heq =>
    helected (Counting.of_countP_eq (fun _ => Phase.leads_of_isElected) heq p (mem_of_getElem hi) hleads)
  have hleader := h.leader
  omega

theorem Collecting.prepare {s : State} {b : Side} {k k' i : ℕ} {r : Reason} (h : Collecting s b k)
    (htotal : s.totalThreadCount = population s.threads)
    (hi : s.threads[i]? = some (.collected r k')) :
    Collecting (s.prepare.setPhase i (.between r k')) b k := by
  have hpresent := Counting.countP_set_of_eq (f := Phase.present) (q := .between r k') hi rfl
  have hblocked := Counting.countP_set_of_eq (f := Phase.blockedAt b) (q := .between r k') hi rfl
  have helected := Counting.countP_set_of_eq (f := Phase.isElected) (q := .between r k') hi rfl
  have hleads := Counting.countP_set (f := Phase.leads) (.between r k') hi
  have hpopulation := population_set (q := .between r k') hi rfl rfl
  have hnone := h.unelected hi rfl Bool.false_ne_true
  have hside : side s.gcCount = b.other := h.new hnone
  have hleader := h.leader
  simp [Phase.leads] at hleads
  refine ⟨fun x hx => ?_, h.pointer, ?_, ?_, ?_, ?_, ?_, ?_⟩
  · rcases List.mem_or_eq_of_mem_set hx with hx | rfl
    · exact h.phases x hx
    · have hk : k' = k := h.phases _ (mem_of_getElem hi)
      exact hk
  · simpa [State.setPhase, State.prepare, State.setBarrier, hside, hpresent] using h.count
  · simpa [State.setPhase, State.prepare, State.setBarrier, hside, hblocked] using h.waiting
  · simp only [State.setPhase, State.prepare, State.setBarrier]
    omega
  · simpa [State.setPhase, State.prepare, State.setBarrier, helected] using h.old
  · simpa [State.setPhase, State.prepare, State.setBarrier, helected] using h.new
  · intro _
    simp [State.setPhase, State.prepare, State.setBarrier, hside, hpopulation, htotal]

theorem Collecting.step {s s' : State} {b : Side} {k : ℕ} (h : Collecting s b k)
    (htotal : s.totalThreadCount = population s.threads) (hstep : Step s s') :
    Gathering s' ∨ ∃ b k, Collecting s' b k := by
  cases hstep with
  | count hi => exact Or.inr ⟨b, k, h.count_up hi⟩
  | collect hi =>
    have hk := h.phases _ (mem_of_getElem hi)
    exact Or.inr ⟨b, k, h.setPhase hi hk rfl rfl rfl rfl rfl rfl⟩
  | collected hi =>
    have hk := h.phases _ (mem_of_getElem hi)
    exact Or.inr ⟨b, k, h.setPhase hi hk rfl rfl rfl rfl rfl rfl⟩
  | prepare hi => exact Or.inr ⟨b, k, h.prepare htotal hi⟩
  | turnBack hi =>
    have hk := h.phases _ (mem_of_getElem hi)
    exact Or.inr ⟨b, k, h.setPhase hi ⟨h.pointer, hk⟩ rfl rfl rfl rfl rfl rfl⟩
  | waitSecond hi => exact Or.inr ⟨b, k, h.block hi⟩
  | @openSecond i j k' r b' hi hlast hj =>
    obtain ⟨rfl, rfl⟩ : b' = b ∧ k' = k := h.phases _ (mem_of_getElem hi)
    exact Or.inl (h.open hi hlast)
  | alloc hi => exact absurd (h.phases _ (mem_of_getElem hi)) id
  | start hi => exact absurd (h.phases _ (mem_of_getElem hi)) id
  | finish hi => exact absurd (h.phases _ (mem_of_getElem hi)) id
  | pick hi => exact absurd (h.phases _ (mem_of_getElem hi)) id
  | point hi => exact absurd (h.phases _ (mem_of_getElem hi)) id
  | arrive hi => exact absurd (h.phases _ (mem_of_getElem hi)) id
  | waitFirst hi => exact absurd (h.phases _ (mem_of_getElem hi)) id
  | openFirst hi => exact absurd (h.phases _ (mem_of_getElem hi)) id
  | create hi => exact absurd (h.phases _ (mem_of_getElem hi)) id

theorem initial_invariant : Invariant initial := by
  refine ⟨rfl, Or.inl ⟨fun p hp => ?_, fun p hp => ?_, rfl, rfl⟩⟩
  · obtain rfl := List.mem_singleton.mp hp
    exact trivial
  · obtain rfl := List.mem_singleton.mp hp
    exact fun hp => absurd hp Bool.false_ne_true

theorem step_preserves_invariant {s s' : State} (h : Invariant s) (hstep : Step s s') :
    Invariant s' := by
  refine ⟨hstep.total h.total, ?_⟩
  rcases h.mode with hgathering | ⟨b, k, hcollecting⟩
  · exact hgathering.step hstep
  · exact hcollecting.step h.total hstep

theorem reachable_invariant {s : State} (h : Reachable s) : Invariant s := by
  induction h with
  | refl => exact initial_invariant
  | tail _ hstep ih => exact step_preserves_invariant ih hstep

theorem Invariant.leads {s : State} (h : Invariant s) {i : ℕ} {p : Phase}
    (hi : s.threads[i]? = some p) (hp : p.leads) :
    ∃ k, Collecting s s.gcSafeBarrier k ∧ p.during s.gcSafeBarrier k ∧
      ∀ (j : ℕ) (q : Phase), s.threads[j]? = some q → j ≠ i → q ≠ .ended →
        q.betweenWaits s.gcSafeBarrier k := by
  rcases h.mode with hgathering | ⟨b, k, hcollecting⟩
  · have hbefore := hgathering.phases p (mem_of_getElem hi)
    cases p <;> first | exact absurd hbefore id | cases hp
  · obtain rfl := hcollecting.pointer
    refine ⟨k, hcollecting, hcollecting.phases p (mem_of_getElem hi), fun j q hj hne hlive => ?_⟩
    have hduring := hcollecting.phases q (mem_of_getElem hj)
    have hq : ¬q.leads := fun hq =>
      hne (Counting.index_unique hcollecting.leader hj hi hq hp)
    cases q <;> first | exact absurd rfl hq | exact absurd rfl hlive | exact hduring

/-- `gc` runs only while every other live thread is between its two waits of that collection, and
the barrier for the next one gets the threads that are live or about to start as its count, at a time
when no thread waits there. -/
theorem collections_alone {s : State} (h : Reachable s) :
    (∀ (i k : ℕ) (r : Reason), s.threads[i]? = some (.collecting r k) →
      ∀ (j : ℕ) (p : Phase), s.threads[j]? = some p → j ≠ i → p ≠ .ended →
        p.betweenWaits s.gcSafeBarrier k) ∧
    (∀ (i k : ℕ) (r : Reason), s.threads[i]? = some (.collected r k) →
      s.prepare.barriers (side s.gcCount) = ⟨population s.threads, 0⟩ ∧
        ∀ p ∈ s.threads, ¬p.blockedAt (side s.gcCount)) := by
  have hinv := reachable_invariant h
  constructor
  · intro i k r hi j p hj hne hlive
    obtain ⟨k', -, hk, hothers⟩ := hinv.leads hi rfl
    obtain rfl : k = k' := hk
    exact hothers j p hj hne hlive
  · intro i k r hi
    obtain ⟨k', hcollecting, -, -⟩ := hinv.leads hi rfl
    have hside := hcollecting.new (hcollecting.unelected hi rfl Bool.false_ne_true)
    refine ⟨?_, fun p hp hblocked => ?_⟩
    · simp [State.prepare, State.setBarrier, hinv.total]
    · have hduring := hcollecting.phases p hp
      rw [hside] at hblocked
      cases p with
      | waitingSecond r b k =>
        obtain ⟨rfl, -⟩ : b = s.gcSafeBarrier ∧ k = k' := hduring
        simp [Phase.blockedAt] at hblocked
      | waitingFirst r b => exact hduring
      | _ => exact absurd hblocked Bool.false_ne_true

theorem Reachable.next {s s' : State} (h : Reachable s) (hstep : Step s s') : Reachable s' :=
  Relation.ReflTransGen.tail h hstep

/-- The main thread starts another one, which then collects while the main thread waits. -/
theorem started_thread_collects_alone : ∃ s, Reachable s ∧
    s.threads = [.between .alloc 2, .collecting .alloc 2] ∧
    (∀ (i k : ℕ) (r : Reason), s.threads[i]? = some (.collecting r k) →
      ∀ (j : ℕ) (p : Phase), s.threads[j]? = some p → j ≠ i → p ≠ .ended →
        p.betweenWaits s.gcSafeBarrier k) ∧
    (∀ (i k : ℕ) (r : Reason), s.threads[i]? = some (.collected r k) →
      s.prepare.barriers (side s.gcCount) = ⟨population s.threads, 0⟩ ∧
        ∀ p ∈ s.threads, ¬p.blockedAt (side s.gcCount)) := by
  have hinitial : Reachable initial := .refl
  have hstart := (hinitial.next (.start (i := 0) rfl)).next (.pick (i := 0) rfl)
  have harrive := (hstart.next (.point (i := 0) rfl)).next (.arrive (i := 0) rfl)
  have helected := harrive.next (.openFirst (i := 0) (j := 0) rfl rfl ⟨_, rfl, rfl⟩)
  have hcollect := (helected.next (.count (i := 0) rfl)).next (.collect (i := 0) rfl)
  have hprepare := (hcollect.next (.collected (i := 0) rfl)).next (.prepare (i := 0) rfl)
  have hback := hprepare.next (.turnBack (i := 0) rfl)
  have hcreating := hback.next (.openSecond (i := 0) (j := 0) rfl rfl ⟨_, rfl, rfl⟩)
  have htwo := hcreating.next (.create (i := 0) rfl)
  -- both threads run out of memory, and the main thread is the first to wait
  have halloc := (htwo.next (.alloc (i := 0) rfl)).next (.alloc (i := 1) rfl)
  have hpick := (halloc.next (.pick (i := 0) rfl)).next (.pick (i := 1) rfl)
  have hpoint := (hpick.next (.point (i := 0) rfl)).next (.point (i := 1) rfl)
  have harrived := (hpoint.next (.arrive (i := 0) rfl)).next (.arrive (i := 1) rfl)
  have hwait := harrived.next (.waitFirst (i := 0) rfl (by decide))
  have hopen := hwait.next (.openFirst (i := 1) (j := 1) rfl rfl ⟨_, rfl, rfl⟩)
  have hcollecting := (hopen.next (.count (i := 1) rfl)).next (.collect (i := 1) rfl)
  exact ⟨_, hcollecting, rfl, collections_alone hcollecting⟩

end Zeroscript.GcBarrier
