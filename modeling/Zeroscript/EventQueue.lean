import Mathlib.Data.List.Infix
import Zeroscript.ByteLists
import Zeroscript.Control

/-! # `interpreter/event_queue.c`

The queue holds references to functions. `call_next_event` runs the function at its head on the stack of the
state that the function belongs to, and takes the head out when the function has returned; on the way the
function may enqueue more. -/
namespace Zeroscript.EventQueue

open ByteLists

abbrev FunctionRef := Item 8

/-- A function that `call_next_event` runs. The last three fields are not in the source: the depth of the stack
before the call, the count that `OP_FFRAME` has popped, and what the code of the function has left so far on the
stack of its state. -/
structure Running where
  function : FunctionRef
  owner : StateId
  before : ℤ
  argumentsCount : ℤ
  left : ℤ

/-- A call that has returned. -/
structure Call extends Running where
  after : ℤ

/-- The values of the stacks, the depths `stack_ptr - stack_start`, and the history of the queue. -/
structure Loop where
  queue : ArrayListT 8
  valueStacks : StateId → ℤ → ℤ
  depth : StateId → ℤ
  running : Option Running
  enqueued : List FunctionRef
  ran : List Call

/-- `call_next_event` falls into `begin` and `finish`. `push` and `drop` are the stack of a state as its code
goes on, in an event or between two. -/
inductive Event where
  | enqueue (function : FunctionRef)
  | begin
  | push (s : StateId) (val : ℤ)
  | drop (s : StateId)
  | finish

def Running.leave (r : Running) (s : StateId) (items : ℤ) : Running :=
  if s = r.owner then { r with left := r.left + items } else r

/-- One step. `responsible` is the state that a function belongs to. -/
def perform (responsible : FunctionRef → StateId) (l : Loop) : Event → Option Loop
  | .enqueue function => do
    let (queue, _) ← l.queue.push function
    some { l with queue := queue, enqueued := l.enqueued ++ [function] }
  | .begin =>
    -- `wait_for_event` looks at the size first
    if l.queue.size = 0 ∨ l.running.isSome then none
    else do
      let function ← l.queue.get 0
      let owner := responsible function
      let argumentsCount := l.valueStacks owner (l.depth owner)
      -- `OP_FFRAME`, with a loop that does nothing for a negative count
      some { l with
        depth := Function.update l.depth owner (l.depth owner - 1 - argumentsCount.toNat)
        running := some ⟨function, owner, l.depth owner, argumentsCount, 0⟩ }
  | .push s val => some { l with
      valueStacks := Function.update l.valueStacks s (Function.update (l.valueStacks s) (l.depth s + 1) val)
      depth := Function.update l.depth s (l.depth s + 1)
      running := l.running.map (·.leave s 1) }
  | .drop s => some { l with
      depth := Function.update l.depth s (l.depth s - 1)
      running := l.running.map (·.leave s (-1)) }
  | .finish => do
    let r ← l.running
    let queue ← l.queue.removeIndex 0
    some { l with queue := queue, running := none, ran := l.ran ++ [⟨r, l.depth r.owner⟩] }

/-- `native_enqueue` makes the queue when the first event comes. -/
def initial (valueStacks : StateId → ℤ → ℤ) (depth : StateId → ℤ) : Loop :=
  ⟨.newCapacity 3, valueStacks, depth, none, [], []⟩

/-- What the code gets right. An event comes to its place if nothing has been removed since the list grew, or if
the list grows now, or if the place holds the same event already. The bytes that a removal does not copy have to be
the same one item further on. The function has to leave as much as `OP_FFRAME` took. -/
def Meets (l : Loop) : Event → Prop
  | .enqueue function => l.queue.capacity ≤ l.queue.size ∨ l.queue.top = l.queue.size * 8 ∨
      slot 8 l.queue.data l.queue.size = function.bytes.map some ∧ l.queue.top + 8 ≤ l.queue.data.length
  | .finish => (∀ b, l.queue.size - 1 ≤ b → b < (l.queue.size - 1) * 8 → l.queue.data[b]? = l.queue.data[b + 8]?) ∧
      ∀ r ∈ l.running, r.left = 1 + r.argumentsCount.toNat
  | .begin | .push _ _ | .drop _ => True

/-- What `wait_for_event` and the interpreter do next. -/
def Enabled (l : Loop) : Event → Prop
  | .begin => l.queue.size ≠ 0 ∧ l.running = none
  | .finish => l.running ≠ none
  | .enqueue _ | .push _ _ | .drop _ => True

section

variable (responsible : FunctionRef → StateId)

inductive Run : Loop → Prop where
  | start (valueStacks : StateId → ℤ → ℤ) (depth : StateId → ℤ) : Run (initial valueStacks depth)
  | step {l l' : Loop} {e : Event} (h : Run l) (hstep : perform responsible l e = some l') : Run l'

inductive CarefulRun : Loop → Prop where
  | start (valueStacks : StateId → ℤ → ℤ) (depth : StateId → ℤ) : CarefulRun (initial valueStacks depth)
  | step {l l' : Loop} {e : Event} (h : CarefulRun l) (hmeets : Meets l e)
      (hstep : perform responsible l e = some l') : CarefulRun l'

end

/-- The queue holds the pending events in order. `top` may be too far. -/
structure Queue (q : ArrayListT 8) (pending : List FunctionRef) : Prop where
  size : q.size = pending.length
  room : q.size ≤ q.capacity
  positive : 0 < q.capacity
  allocated : q.data.length = q.capacity * 8
  top : ∃ removed, q.top = (q.size + removed) * 8
  items : ∀ (i : ℕ) (item : FunctionRef), pending[i]? = some item → slot 8 q.data i = item.bytes.map some

/-- The events that have run are those that came first, and what runs is the next one. -/
structure InOrder (l : Loop) (pending : List FunctionRef) : Prop where
  queue : Queue l.queue pending
  history : l.enqueued = l.ran.map (fun call => call.function) ++ pending
  running : ∀ r ∈ l.running, pending.head? = some r.function
  balanced : ∀ call ∈ l.ran, call.after = call.before

section

variable {q q' : ArrayListT 8} {pending : List FunctionRef} {function : FunctionRef}

theorem Queue.holds (h : Queue q pending) (top : ℕ) (htop : top = q.size * 8) :
    Holds { q with top := top } pending :=
  ⟨⟨h.size, h.room, htop, h.items⟩, h.allocated⟩

theorem Queue.of_holds (h : Holds q pending) (hpositive : 0 < q.capacity) : Queue q pending where
  size := h.size
  room := h.room
  positive := hpositive
  allocated := h.allocated
  top := ⟨0, h.top⟩
  items := h.items

theorem initial_queue : Queue (.newCapacity 3) [] := .of_holds (newCapacity_holds 3) (Nat.succ_pos 2)

theorem push_extended (h : q.capacity ≤ q.size) (top : ℕ) (function : FunctionRef) :
    q.push function = ({ q with top := top } : ArrayListT 8).push function := by
  unfold ArrayListT.push ArrayListT.ensureCapacity
  rw [if_pos h, if_pos h]
  rfl

theorem push_capacity {i : ℕ} (hpositive : 0 < q.capacity) (hpush : q.push function = some (q', i)) :
    0 < q'.capacity := by
  have hperform : (Operation.push function).perform q = some (q', .index i) := by
    rw [Operation.perform, hpush]
    rfl
  have := perform_capacity hperform
  omega

theorem enqueue_holds (h : Queue q pending) (hplace : q.capacity ≤ q.size ∨ q.top = q.size * 8)
    (function : FunctionRef) : ∃ q' i, q.push function = some (q', i) ∧ Queue q' (pending ++ [function]) := by
  have hholds := h.holds (q.size * 8) rfl
  obtain ⟨q', hpush, h'⟩ := push_holds hholds h.positive function
  have hsame : q.push function = ({ q with top := q.size * 8 } : ArrayListT 8).push function := by
    rcases hplace with hfull | htop
    · exact push_extended hfull _ function
    · rw [← htop]
  rw [← hsame] at hpush
  exact ⟨q', _, hpush, .of_holds h' (push_capacity h.positive hpush)⟩

theorem enqueue_again (h : Queue q pending) (hroom : q.size < q.capacity)
    (hsame : slot 8 q.data q.size = function.bytes.map some) (hfits : q.top + 8 ≤ q.data.length) :
    ∃ q' i, q.push function = some (q', i) ∧ Queue q' (pending ++ [function]) := by
  obtain ⟨removed, htop⟩ := h.top
  have hlength : (function.bytes.map some).length = 8 := by rw [List.length_map, function.length]
  obtain ⟨data, hdata⟩ := @memcpy_fits q.data (function.bytes.map some) q.top (by rw [hlength]; exact hfits)
  have hslots : ∀ i, slot 8 data i = if i = q.size + removed then function.bytes.map some else slot 8 q.data i := by
    rw [htop] at hdata
    exact slot_memcpy hdata hlength
  refine ⟨⟨q.size + 1, q.capacity, data, q.top + 8⟩, q.size, ?_, ⟨?_, hroom, h.positive, ?_, ?_, ?_⟩⟩
  · unfold ArrayListT.push ArrayListT.ensureCapacity
    rw [if_neg (Nat.not_le.mpr hroom)]
    simp only [Option.bind_eq_bind, Option.bind_some, hdata]
  · dsimp only
    rw [h.size, List.length_append]
    rfl
  · exact (memcpy_length hdata).trans h.allocated
  · refine ⟨removed, ?_⟩
    dsimp only
    rw [htop]
    omega
  · intro i item hitem
    have hsize := h.size
    dsimp only
    rw [hslots]
    rw [List.getElem?_append] at hitem
    by_cases hi : i < pending.length
    · rw [if_pos hi] at hitem
      rw [if_neg (by omega)]
      exact h.items i item hitem
    · rw [if_neg hi, List.getElem?_singleton] at hitem
      obtain ⟨hzero, hitem⟩ := Option.ite_none_right_eq_some.mp hitem
      cases hitem
      have heq : i = q.size := by omega
      split
      · rfl
      · rw [heq]
        exact hsame

theorem Queue.head (h : Queue q (function :: pending)) : q.get 0 = some function := by
  unfold ArrayListT.get
  rw [h.items 0 function rfl, readItem_map]

theorem Queue.removeIndex (h : Queue q (function :: pending))
    (hsame : ∀ b, q.size - 1 ≤ b → b < (q.size - 1) * 8 → q.data[b]? = q.data[b + 8]?) :
    ∃ q', q.removeIndex 0 = some q' ∧ Queue q' pending := by
  have hsize : q.size = pending.length + 1 := h.size
  have hroom := h.room
  have hallocated := h.allocated
  have hcopied : ((q.data.drop ((0 + 1) * 8)).take (q.size - 1 - 0)).length = q.size - 1 := by
    rw [List.length_take, List.length_drop]
    omega
  obtain ⟨data, hdata⟩ := @memcpy_fits q.data ((q.data.drop ((0 + 1) * 8)).take (q.size - 1 - 0)) (0 * 8)
    (by rw [hcopied]; omega)
  have hbytes : ∀ b, b < (q.size - 1) * 8 → data[b]? = q.data[b + 8]? := by
    intro b hb
    rw [memcpy_getElem? hdata, hcopied, if_neg (by omega)]
    by_cases hlow : b < q.size - 1
    · rw [if_pos (by omega), List.getElem?_take_of_lt (by omega), List.getElem?_drop]
      congr 1
      omega
    · rw [if_neg (by omega)]
      exact hsame b (by omega) hb
  refine ⟨{ q with size := q.size - 1, data := data }, ?_, ⟨?_, ?_, h.positive, ?_, ?_, ?_⟩⟩
  · unfold ArrayListT.removeIndex
    rw [if_pos (by omega), hdata]
    rfl
  · dsimp only
    omega
  · dsimp only
    omega
  · exact (memcpy_length hdata).trans hallocated
  · obtain ⟨removed, htop⟩ := h.top
    refine ⟨removed + 1, ?_⟩
    dsimp only
    omega
  · intro i item hitem
    have hi : i < pending.length := (List.getElem?_eq_some_iff.mp hitem).1
    have hnext := h.items (i + 1) item hitem
    rw [← hnext]
    apply List.ext_getElem?
    intro k
    rw [slot_getElem?, slot_getElem?]
    by_cases hk : k < 8
    · rw [if_pos hk, if_pos hk]
      dsimp only
      rw [hbytes (i * 8 + k) (by omega)]
      congr 1
      omega
    · rw [if_neg hk, if_neg hk]

end

structure Tracked (l : Loop) : Prop where
  running : ∀ r ∈ l.running, l.depth r.owner = r.before - 1 - r.argumentsCount.toNat + r.left
  ran : ∀ call ∈ l.ran, call.after = call.before - 1 - call.argumentsCount.toNat + call.left

section

variable {responsible : FunctionRef → StateId} {l l' : Loop} {e : Event} {pending : List FunctionRef}

theorem Tracked.move (h : Tracked l) (valueStacks : StateId → ℤ → ℤ) (s : StateId) (items : ℤ) :
    Tracked { l with
      valueStacks := valueStacks
      depth := Function.update l.depth s (l.depth s + items)
      running := l.running.map (·.leave s items) } where
  running r hr := by
    obtain ⟨old, hold, rfl⟩ := Option.map_eq_some_iff.mp hr
    have hdepth := h.running old hold
    unfold Running.leave
    by_cases hs : s = old.owner
    · subst hs
      rw [if_pos rfl]
      dsimp only
      rw [Function.update_self]
      omega
    · rw [if_neg hs]
      dsimp only
      rw [Function.update_of_ne (Ne.symm hs)]
      exact hdepth
  ran := h.ran

theorem perform_tracked (h : Tracked l) (hstep : perform responsible l e = some l') : Tracked l' := by
  cases e with
  | enqueue function =>
    obtain ⟨⟨queue, i⟩, -, hstep⟩ := Option.bind_eq_some_iff.mp hstep
    cases hstep
    exact ⟨h.running, h.ran⟩
  | begin =>
    obtain ⟨-, hstep⟩ := Option.ite_none_left_eq_some.mp hstep
    obtain ⟨function, -, hstep⟩ := Option.bind_eq_some_iff.mp hstep
    cases hstep
    refine ⟨fun r hr => ?_, h.ran⟩
    cases hr
    dsimp only
    rw [Function.update_self]
    omega
  | push s val =>
    cases hstep
    exact h.move _ s 1
  | drop s =>
    cases hstep
    exact h.move l.valueStacks s (-1)
  | finish =>
    obtain ⟨r, hr, hstep⟩ := Option.bind_eq_some_iff.mp hstep
    obtain ⟨queue, -, hstep⟩ := Option.bind_eq_some_iff.mp hstep
    cases hstep
    refine ⟨fun r hr => (by cases hr), fun call hcall => ?_⟩
    rcases List.mem_append.mp hcall with hcall | hcall
    · exact h.ran call hcall
    · rw [List.mem_singleton.mp hcall]
      exact h.running r hr

theorem run_tracked (h : Run responsible l) : Tracked l := by
  induction h with
  | start valueStacks depth => exact ⟨fun r hr => (by cases hr), fun call hcall => absurd hcall List.not_mem_nil⟩
  | step h hstep ih => exact perform_tracked ih hstep

theorem call_balanced_iff (h : Run responsible l) {call : Call} (hcall : call ∈ l.ran) :
    call.after = call.before ↔ call.left = 1 + call.argumentsCount.toNat := by
  have hafter := (run_tracked h).ran call hcall
  omega

theorem perform_inOrder (h : InOrder l pending) (htracked : Tracked l) (hmeets : Meets l e) (henabled : Enabled l e) :
    ∃ l' pending', perform responsible l e = some l' ∧ InOrder l' pending' := by
  cases e with
  | enqueue function =>
    obtain ⟨queue, i, hpush, hqueue⟩ : ∃ q' i, l.queue.push function = some (q', i) ∧
        Queue q' (pending ++ [function]) := by
      by_cases hfull : l.queue.capacity ≤ l.queue.size
      · exact enqueue_holds h.queue (.inl hfull) function
      · rcases hmeets with hcapacity | htop | ⟨hsame, hfits⟩
        · exact absurd hcapacity hfull
        · exact enqueue_holds h.queue (.inr htop) function
        · exact enqueue_again h.queue (Nat.lt_of_not_le hfull) hsame hfits
    refine ⟨{ l with queue := queue, enqueued := l.enqueued ++ [function] }, pending ++ [function], ?_, hqueue, ?_,
      ?_, h.balanced⟩
    · rw [perform, hpush]
      rfl
    · dsimp only
      rw [h.history, List.append_assoc]
    · intro r hr
      obtain ⟨rest, hrest⟩ := List.head?_eq_some_iff.mp (h.running r hr)
      rw [hrest]
      rfl
  | begin =>
    obtain ⟨hsize, hidle⟩ := henabled
    cases pending with
    | nil => exact absurd h.queue.size hsize
    | cons function rest =>
      have hget := h.queue.head
      have hready : ¬ (l.queue.size = 0 ∨ l.running.isSome) := by
        rw [hidle]
        simpa using hsize
      rw [perform, if_neg hready, hget]
      refine ⟨_, function :: rest, rfl, h.queue, h.history, fun r hr => ?_, h.balanced⟩
      cases hr
      rfl
  | push s val =>
    refine ⟨_, pending, rfl, h.queue, h.history, fun r hr => ?_, h.balanced⟩
    obtain ⟨old, hold, rfl⟩ := Option.map_eq_some_iff.mp hr
    rw [h.running old hold]
    unfold Running.leave
    split
    · rfl
    · rfl
  | drop s =>
    refine ⟨_, pending, rfl, h.queue, h.history, fun r hr => ?_, h.balanced⟩
    obtain ⟨old, hold, rfl⟩ := Option.map_eq_some_iff.mp hr
    rw [h.running old hold]
    unfold Running.leave
    split
    · rfl
    · rfl
  | finish =>
    obtain ⟨r, hr⟩ := Option.ne_none_iff_exists'.mp henabled
    obtain ⟨rest, rfl⟩ := List.head?_eq_some_iff.mp (h.running r hr)
    obtain ⟨queue, hremove, hqueue⟩ := h.queue.removeIndex hmeets.1
    have hleft := hmeets.2 r hr
    have hdepth := htracked.running r hr
    refine ⟨{ l with queue := queue, running := none, ran := l.ran ++ [⟨r, l.depth r.owner⟩] }, rest, ?_, hqueue, ?_,
      fun r hr => (by cases hr), fun call hcall => ?_⟩
    · rw [perform, hr]
      simp only [Option.bind_eq_bind, Option.bind_some, hremove]
    · dsimp only
      rw [h.history, List.map_append, List.append_assoc]
      rfl
    · rcases List.mem_append.mp hcall with hcall | hcall
      · exact h.balanced call hcall
      · rw [List.mem_singleton.mp hcall]
        dsimp only
        omega

theorem enabled_of_perform (hstep : perform responsible l e = some l') : Enabled l e := by
  cases e with
  | begin =>
    obtain ⟨hready, -⟩ := Option.ite_none_left_eq_some.mp hstep
    refine ⟨fun hsize => hready (.inl hsize), ?_⟩
    by_contra hrunning
    exact hready (.inr (Option.isSome_iff_ne_none.mpr hrunning))
  | finish =>
    obtain ⟨r, hr, -⟩ := Option.bind_eq_some_iff.mp hstep
    exact Option.ne_none_iff_exists'.mpr ⟨r, hr⟩
  | enqueue _ => trivial
  | push _ _ => trivial
  | drop _ => trivial

theorem CarefulRun.run (h : CarefulRun responsible l) : Run responsible l := by
  induction h with
  | start valueStacks depth => exact .start valueStacks depth
  | step h hmeets hstep ih => exact ih.step hstep

theorem careful_inOrder (h : CarefulRun responsible l) : ∃ pending, InOrder l pending := by
  induction h with
  | start valueStacks depth =>
    exact ⟨[], initial_queue, rfl, fun r hr => (by cases hr), fun call hcall => absurd hcall List.not_mem_nil⟩
  | step h hmeets hstep ih =>
    obtain ⟨pending, hpending⟩ := ih
    obtain ⟨next, pending', hnext, hpending'⟩ :=
      perform_inOrder hpending (run_tracked h.run) hmeets (enabled_of_perform hstep)
    rw [hstep] at hnext
    cases hnext
    exact ⟨pending', hpending'⟩

/-- Events run in the order in which they were enqueued, each once and with the depth of the stack unchanged, and
the loop does not get stuck. -/
theorem careful_right (h : CarefulRun responsible l) :
    (l.ran.map fun call => call.function) <+: l.enqueued ∧
      (∀ r ∈ l.running, (l.ran.map fun call => call.function) ++ [r.function] <+: l.enqueued) ∧
      (∀ call ∈ l.ran, call.after = call.before) ∧
      ∀ e, Meets l e → Enabled l e → ∃ l', perform responsible l e = some l' := by
  obtain ⟨pending, hpending⟩ := careful_inOrder h
  refine ⟨⟨pending, hpending.history.symm⟩, ?_, hpending.balanced, ?_⟩
  · intro r hr
    obtain ⟨rest, hrest⟩ := List.head?_eq_some_iff.mp (hpending.running r hr)
    refine ⟨rest, ?_⟩
    rw [hpending.history, hrest, List.append_assoc]
    rfl
  · intro e hmeets henabled
    obtain ⟨l', -, hstep, -⟩ := perform_inOrder hpending (run_tracked h.run) hmeets henabled
    exact ⟨l', hstep⟩

theorem Run.events {events : List Event} (h : Run responsible l)
    (hrun : events.foldlM (perform responsible) l = some l') : Run responsible l' := by
  induction events generalizing l with
  | nil =>
    cases hrun
    exact h
  | cons e events ih =>
    obtain ⟨mid, hstep, hrest⟩ := Option.bind_eq_some_iff.mp hrun
    exact ih (h.step hstep) hrest

end

instance (l : Loop) (e : Event) : Decidable (Meets l e) := by
  cases e with
  | finish => exact inferInstanceAs (Decidable ((∀ b, _ → _ → _) ∧ ∀ r ∈ l.running, _))
  | enqueue => exact inferInstanceAs (Decidable (_ ∨ _ ∨ _ ∧ _))
  | begin | push | drop => exact inferInstanceAs (Decidable True)

def carefully (responsible : FunctionRef → StateId) : Loop → List Event → Option Loop
  | l, [] => some l
  | l, e :: events =>
    if Meets l e then (perform responsible l e).bind fun l => carefully responsible l events else none

theorem CarefulRun.carefully {responsible : FunctionRef → StateId} {l l' : Loop} {events : List Event}
    (h : CarefulRun responsible l) (hrun : EventQueue.carefully responsible l events = some l') :
    CarefulRun responsible l' := by
  induction events generalizing l with
  | nil =>
    cases hrun
    exact h
  | cons e events ih =>
    unfold EventQueue.carefully at hrun
    split at hrun
    · rename_i hmeets
      obtain ⟨mid, hstep, hrest⟩ := Option.bind_eq_some_iff.mp hrun
      exact ih (h.step hmeets hstep) hrest
    · cases hrun

theorem leaving_run : ∃ l, CarefulRun (fun _ => 1) l ∧
    l.ran.map (fun call => call.function) = [word 1 1, word 2 1] := by
  have hrun : (carefully (fun _ => 1) (initial (fun _ _ => 0) fun _ => 0)
      [.enqueue (word 1 1), .enqueue (word 2 1), .begin, .push 1 0, .finish, .begin, .push 1 0, .finish]).map
        (fun l => l.ran.map fun call => call.function) = some [word 1 1, word 2 1] := by decide +kernel
  obtain ⟨l, hcarefully, hran⟩ := Option.map_eq_some_iff.mp hrun
  exact ⟨l, (CarefulRun.start _ _).carefully hcarefully, hran⟩

theorem leaving_right : ∃ l : Loop, l.ran.map (fun call => call.function) = [word 1 1, word 2 1] ∧
    [word 1 1, word 2 1] <+: l.enqueued ∧ ∀ call ∈ l.ran, call.after = call.before := by
  obtain ⟨l, hl, hran⟩ := leaving_run
  obtain ⟨horder, -, hbalanced, -⟩ := careful_right hl
  rw [hran] at horder
  exact ⟨l, hran, horder, hbalanced⟩

/-- A function that leaves nothing makes the stack of its state one value shorter. With two events, the second one
that runs is none of those that were enqueued. -/
theorem events_wrong :
    (∃ l, Run (fun _ => 1) l ∧ ∃ call ∈ l.ran, call.after ≠ call.before) ∧
      ∃ l r, Run (fun _ => 1) l ∧ l.running = some r ∧ r.function ∉ l.enqueued := by
  have hone : ∃ l, [.enqueue (word 1 1), .begin, .finish].foldlM (perform fun _ => 1)
      (initial (fun _ _ => 0) fun _ => 0) = some l ∧ l.ran.map (fun call => (call.before, call.after)) = [(0, -1)] :=
    ⟨_, rfl, rfl⟩
  have htwo : ∃ l, [.enqueue (word 1 1), .enqueue (word 2 2), .begin, .finish, .begin].foldlM (perform fun _ => 1)
      (initial (fun _ _ => 0) fun _ => 0) = some l ∧ l.running.map (fun r => r.function) = some (word 2 1) ∧
        l.enqueued = [word 1 1, word 2 2] :=
    ⟨_, rfl, rfl, rfl⟩
  obtain ⟨l, hrun, hran⟩ := hone
  obtain ⟨l', hrun', hrunning, henqueued⟩ := htwo
  constructor
  · have hmem : ((0 : ℤ), (-1 : ℤ)) ∈ l.ran.map fun call => (call.before, call.after) := by
      rw [hran]
      exact List.mem_singleton_self _
    obtain ⟨call, hcall, hdepths⟩ := List.mem_map.mp hmem
    refine ⟨l, Run.events (.start _ _) hrun, call, hcall, ?_⟩
    rw [Prod.mk.injEq] at hdepths
    rw [hdepths.1, hdepths.2]
    decide
  · obtain ⟨r, hr, hfunction⟩ := Option.map_eq_some_iff.mp hrunning
    refine ⟨l', r, Run.events (.start _ _) hrun', hr, ?_⟩
    rw [hfunction, henqueued]
    decide

end Zeroscript.EventQueue
