import Zeroscript.ControlFlow
import Zeroscript.Number
import Zeroscript.SavedState
import Zeroscript.Scopes

/-! # `OP_CALL` of another state's function, in two critical sections

`OP_CALL` tests `is_running` in one critical section, and `z_interpreter_run` sets it in another.
Between the two sections other threads take their steps. -/
namespace Zeroscript.OtherCalls

section

variable {α : Type} [NumOps α]

/-- A thread between the two sections: the function it calls, and what the test found. -/
structure Entry where
  start : ℕ
  isAsync : Bool
  parent : ContextId
  target : StateId
  found : StateControl
  deriving DecidableEq, Repr

/-- A machine whose thread `t` is between the two sections when `entries t` says so. -/
structure Concurrent (α : Type) where
  machine : Machine α
  entries : ℕ → Option Entry := fun _ => none

def otherCall (m : Machine α) (thread : ℕ) : Option Entry := do
  let activations ← m.threads[thread]?
  let a ← activations.head?
  let i ← m.fetch a
  let r0 := m.data.regs a.currentContext i.r0.reg
  match i.opcode, r0.type, m.data.object r0 with
  | .CALL, .functionRef, some (.functionRef start isAsync parent target) =>
    if target = a.state then none
    else some ⟨start, isAsync, parent, target, m.control.states target⟩
  | _, _, _ => none

/-- The control state that the rest of the call sees, which does not test again. -/
def tested (k : ControlState) (entry : Entry) : ControlState :=
  k.setState entry.target { k.states entry.target with
    isRunning := entry.found.isRunning
    currentContext := entry.found.currentContext }

/-- The rest of the call, into the state itself or into a clone, as the test has found. -/
def enterOther (m : Machine α) (thread : ℕ) (entry : Entry) : Option (Machine α) := do
  let activations ← m.threads[thread]?
  let a ← activations.head?
  let i ← m.fetch a
  let e ← callFunction m.data (tested m.control entry) a entry.start entry.isAsync entry.parent
    entry.target i.r1.reg i.r2.reg
  let outcome := m.control.perform activations e.action
  return { m with
    data := e.data
    control := outcome.control
    threads := m.threads.set thread outcome.activations }

/-- What a thread does next: an instruction, or one of the two halves of such a call. -/
inductive Move where
  | run (thread : ℕ)
  | test (thread : ℕ)
  | enter (thread : ℕ)
  deriving DecidableEq, Repr

def Concurrent.step (classes : String → Option Code) (c : Concurrent α) :
    Move → Option (Concurrent α)
  | .run thread =>
    if (c.entries thread).isSome ∨ (otherCall c.machine thread).isSome then none
    else (c.machine.step classes thread).map fun m => { c with machine := m }
  | .test thread =>
    if (c.entries thread).isSome ∨ c.machine.exited.isSome then none
    else (otherCall c.machine thread).map fun entry =>
      { c with entries := Function.update c.entries thread (some entry) }
  | .enter thread => do
    if c.machine.exited.isSome then none
    let m ← enterOther c.machine thread (← c.entries thread)
    return ⟨m, Function.update c.entries thread none⟩

/-- The runs of a program. -/
inductive Run (classes : String → Option Code) : Concurrent α → Prop where
  | boot {className : String} {code : Code} {input : List String} {m : Machine α}
      (hcode : classes className = some code) (hboot : boot className code input = some m) :
      Run classes { machine := m }
  | step {c c' : Concurrent α} {move : Move} (h : Run classes c)
      (hstep : c.step classes move = some c') : Run classes c'

/-- No state is run by two activations, or is about to be. -/
structure Exclusive (c : Concurrent α) : Prop where
  running : (c.machine.activations.map (·.state)).Nodup
  entered : ∀ (thread : ℕ) (entry : Entry), c.entries thread = some entry →
    entry.found.isRunning = false → ∀ a ∈ c.machine.activations, a.state ≠ entry.target
  apart : ∀ (thread thread' : ℕ) (entry entry' : Entry), c.entries thread = some entry →
    c.entries thread' = some entry' → entry.found.isRunning = false →
    entry'.found.isRunning = false → thread ≠ thread' → entry.target ≠ entry'.target

/-- No state is tested while another thread is about to enter it. -/
def Careful (c : Concurrent α) : Move → Prop
  | .test thread => ∀ entry, otherCall c.machine thread = some entry →
    ∀ (thread' : ℕ) (entry' : Entry), c.entries thread' = some entry' →
      entry'.found.isRunning = false → entry'.target ≠ entry.target
  | _ => True

inductive CarefulRun (classes : String → Option Code) : Concurrent α → Prop where
  | boot {className : String} {code : Code} {input : List String} {m : Machine α}
      (hcode : classes className = some code) (hboot : boot className code input = some m) :
      CarefulRun classes { machine := m }
  | step {c c' : Concurrent α} {move : Move} (h : CarefulRun classes c)
      (hstep : c.step classes move = some c') (hcareful : Careful c move) : CarefulRun classes c'

def runMoves (classes : String → Option Code) : List Move → Concurrent α → Option (Concurrent α)
  | [], c => some c
  | move :: moves, c => (c.step classes move).bind (runMoves classes moves)

variable {classes : String → Option Code} {d : Data α} {k : ControlState} {a : Activation} {e : Effect α}

theorem callFunction_other {start : ℕ} {isAsync : Bool} {parent : ContextId} {target : StateId}
    {register n : ℕ} (hother : target ≠ a.state)
    (h : callFunction d k a start isAsync parent target register n = some e) :
    (∃ entry, e.action = .callOther target (k.states target).isRunning entry register n) ∧
      e.data.objects = d.objects := by
  unfold callFunction at h
  obtain ⟨arguments, -, h⟩ := Option.bind_eq_some_iff.mp h
  obtain ⟨d₁, hpush, h⟩ := Option.bind_eq_some_iff.mp h
  have hobjects : d₁.objects = d.objects := by
    unfold Data.pushItem at hpush
    split at hpush
    · cases hpush
      rfl
    · cases hpush
  dsimp only at h
  obtain ⟨⟨entry, symbols⟩, -, h⟩ := Option.bind_eq_some_iff.mp h
  dsimp only at h
  rw [if_pos hother] at h
  split at h
  · rename_i hrunning
    cases h
    exact ⟨⟨entry, by rw [hrunning]⟩, hobjects⟩
  · rename_i hrunning
    cases h
    exact ⟨⟨entry, by rw [Bool.eq_false_iff.mpr hrunning]⟩, hobjects⟩

theorem call_functionRef {callee register n start : ℕ} {isAsync : Bool} {parent : ContextId}
    {target : StateId} (h : call classes d k a callee register n = some e)
    (hobject : d.object (d.regs a.currentContext callee) = some (.functionRef start isAsync parent target))
    (hcalled : e.action.called.isSome) : (d.regs a.currentContext callee).type = .functionRef := by
  unfold call at h
  dsimp only at h
  split at h
  · rename_i hval
    unfold Data.object at hobject
    rw [hval] at hobject
    cases hobject
  · assumption
  · rw [hobject] at h
    cases h
  · cases h
  · cases h
    cases hcalled

theorem otherCall_of_action {m m' : Machine α} {thread : ℕ} {rest : List Activation} {i : Instruction}
    {outcome : Outcome} (hs : StepOf classes m m' thread a rest i e outcome) {target : StateId}
    {cloned : Bool} {entry register n : ℕ} (haction : e.action = .callOther target cloned entry register n) :
    (otherCall m thread).isSome := by
  obtain ⟨start, isAsync, parent, target', hobject, hcall⟩ :=
    effect_function hs.effect (by rw [haction]; rfl)
  have hne : target' ≠ a.state := by
    obtain ⟨_, _, -, ⟨_, hne, -⟩ | ⟨-, hasync | hown⟩⟩ := callFunction_enters hcall
    · exact hne
    · rw [haction] at hasync
      cases hasync
    · rw [haction] at hown
      cases hown
  have hi : i.opcode = .CALL := by
    have hasks := effect_asks hs.effect
    generalize e.data = d' at hasks
    rw [haction] at hasks
    cases hasks with
    | callOther hi | callClone hi => exact hi
  have htype : (m.data.regs a.currentContext i.r0.reg).type = .functionRef := by
    have heffect := hs.effect
    obtain ⟨opcode, r0, r1, r2⟩ := i
    obtain rfl : opcode = .CALL := hi
    change call classes m.data m.control a r0.reg r1.reg r2.reg = some e at heffect
    exact call_functionRef heffect hobject (by rw [haction]; rfl)
  unfold otherCall
  simp only [hs.activations, Option.bind_eq_bind, Option.bind_some, List.head?_cons, hs.fetch, hi, htype,
    hobject, if_neg hne, Option.isSome_some]

theorem otherCall_cases {m : Machine α} {thread : ℕ} {entry : Entry} (h : otherCall m thread = some entry) :
    ∃ a rest i, m.threads[thread]? = some (a :: rest) ∧ m.fetch a = some i ∧ entry.target ≠ a.state ∧
      entry.found = m.control.states entry.target ∧
      m.data.object (m.data.regs a.currentContext i.r0.reg) =
        some (.functionRef entry.start entry.isAsync entry.parent entry.target) := by
  unfold otherCall at h
  obtain ⟨activations, hthread, hactivation⟩ := Option.bind_eq_some_iff.mp h
  obtain ⟨a, hhead, hinstruction⟩ := Option.bind_eq_some_iff.mp hactivation
  obtain ⟨i, hi, hcall⟩ := Option.bind_eq_some_iff.mp hinstruction
  obtain ⟨rest, rfl⟩ := List.head?_eq_some_iff.mp hhead
  clear h hactivation hinstruction
  rename' hcall => h
  dsimp only at h
  split at h
  · rename_i hobject
    split at h
    · cases h
    · rename_i hne
      cases h
      exact ⟨a, rest, i, hthread, hi, hne, rfl, hobject⟩
  · cases h

structure Invariant (c : Concurrent α) : Prop where
  linked : Linked c.machine.control (frames c.machine.activations)
  objects : ∀ (y : ℕ) (o : Object α) (s : StateId), c.machine.data.objects[y]? = some o →
    SavedState.state? o = some s → s < c.machine.control.nextState
  calling : ∀ (thread : ℕ) (entry : Entry), c.entries thread = some entry →
    ∃ a rest, c.machine.threads[thread]? = some (a :: rest) ∧ entry.target ≠ a.state
  bounded : ∀ (thread : ℕ) (entry : Entry), c.entries thread = some entry →
    entry.target < c.machine.control.nextState
  idle : ∀ (thread : ℕ) (entry : Entry), c.entries thread = some entry →
    entry.found.isRunning = false → (c.machine.control.states entry.target).isRunning = false
  apart : ∀ (thread thread' : ℕ) (entry entry' : Entry), c.entries thread = some entry →
    c.entries thread' = some entry' → entry.found.isRunning = false →
    entry'.found.isRunning = false → thread ≠ thread' → entry.target ≠ entry'.target

omit [NumOps α] in
theorem Invariant.not_running {c : Concurrent α} (h : Invariant c) {thread : ℕ} {entry : Entry}
    (hentry : c.entries thread = some entry) (hfound : entry.found.isRunning = false) :
    ∀ b ∈ c.machine.activations, b.state ≠ entry.target := by
  rintro b hb heq
  have hrunning := h.linked.running (b.state, b.currentContext) (List.mem_map_of_mem hb)
  rw [heq, h.idle thread entry hentry hfound] at hrunning
  cases hrunning

omit [NumOps α] in
theorem Invariant.exclusive {c : Concurrent α} (h : Invariant c) : Exclusive c where
  running := by
    have hdistinct := h.linked.distinct
    unfold frames at hdistinct
    rw [List.map_map] at hdistinct
    exact hdistinct
  entered _ _ hentry hfound := h.not_running hentry hfound
  apart := h.apart

theorem boot_invariant {className : String} {code : Code} {input : List String} {m : Machine α}
    (hboot : boot className code input = some m) : Invariant { machine := m } where
  linked := boot_linked hboot
  objects y o s hy := by
    rw [SavedState.boot_objects hboot] at hy
    cases hy
  calling _ _ h := by cases h
  bounded _ _ h := by cases h
  idle _ _ h := by cases h
  apart _ _ _ _ h := by cases h

variable {c c' : Concurrent α} {thread : ℕ}

omit [NumOps α] in
theorem starting_cases {action : Action} {s : StateId} (h : action.starting k = some s) :
    s = k.nextState ∨ ∃ cloned entry register n, action = .callOther s cloned entry register n := by
  cases action with
  | callAsync | construct | load =>
    cases h
    exact Or.inl rfl
  | callOther target cloned entry register n =>
    obtain rfl : (if cloned then k.nextState else target) = s := Option.some.inj h
    cases cloned with
    | true => exact Or.inl rfl
    | false => exact Or.inr ⟨_, _, _, _, rfl⟩
  | next | jump | push | pop | native | raise | throwing | setCatch | clearCatch | ret | callOwn | write
  | reject | exit => cases h

theorem run_invariant {m' : Machine α} (h : Invariant c) (hentry : c.entries thread = none)
    (hother : otherCall c.machine thread = none) (hstep : c.machine.step classes thread = some m') :
    Invariant { c with machine := m' } := by
  obtain ⟨a, rest, i, e, outcome, hs⟩ := Machine.step_cases hstep
  have hmono := SavedState.step_nextState hs
  have hthread : ∀ {thread' : ℕ} {entry : Entry}, c.entries thread' = some entry → thread' ≠ thread := by
    rintro thread' entry hpending rfl
    rw [hentry] at hpending
    cases hpending
  refine ⟨step_linked hstep h.linked, fun y o s => SavedState.bounded_step h.linked hs h.objects,
    fun thread' entry hpending => ?_, fun thread' entry hpending => ?_,
    fun thread' entry hpending hfound => ?_, h.apart⟩
  · obtain ⟨b, others, hb, hne⟩ := h.calling thread' entry hpending
    refine ⟨b, others, ?_, hne⟩
    have hlt : thread' < c.machine.threads.length := (List.getElem?_eq_some_iff.mp hb).1
    rw [hs.threads, List.getElem?_append_left (by rwa [List.length_set]),
      List.getElem?_set_ne (hthread hpending).symm]
    exact hb
  · exact lt_of_lt_of_le (h.bounded thread' entry hpending) hmono
  · by_contra hrunning
    rw [Bool.not_eq_false, hs.control, ← hs.perform] at hrunning
    rcases perform_running hrunning with hbefore | hstarts
    · rw [h.idle thread' entry hpending hfound] at hbefore
      cases hbefore
    · have hbound := h.bounded thread' entry hpending
      rcases starting_cases hstarts with hnext | ⟨cloned, address, register, n, haction⟩
      · rw [hnext] at hbound
        exact absurd hbound (lt_irrefl _)
      · have hcalls := otherCall_of_action hs haction
        rw [hother] at hcalls
        cases hcalls

/-- The test: what it finds stays true as long as no other thread enters the state. -/
theorem test_invariant {entry : Entry} (h : Invariant c) (hother : otherCall c.machine thread = some entry)
    (hcareful : Careful c (.test thread)) :
    Invariant { c with entries := Function.update c.entries thread (some entry) } := by
  obtain ⟨a, rest, i, hthread, -, hne, hfound, hobject⟩ := otherCall_cases hother
  have hpending : ∀ {thread' : ℕ} {entry' : Entry},
      Function.update c.entries thread (some entry) thread' = some entry' →
      thread' = thread ∧ entry' = entry ∨ thread' ≠ thread ∧ c.entries thread' = some entry' := by
    intro thread' entry' hupdate
    by_cases heq : thread' = thread
    · subst heq
      rw [Function.update_self] at hupdate
      exact Or.inl ⟨rfl, (Option.some.inj hupdate).symm⟩
    · rw [Function.update_of_ne heq] at hupdate
      exact Or.inr ⟨heq, hupdate⟩
  refine ⟨h.linked, h.objects, fun thread' entry' hentry => ?_, fun thread' entry' hentry => ?_,
    fun thread' entry' hentry hidle => ?_,
    fun thread₁ thread₂ entry₁ entry₂ h₁ h₂ hidle₁ hidle₂ hapart => ?_⟩
  · rcases hpending hentry with ⟨rfl, rfl⟩ | ⟨-, hold⟩
    · exact ⟨a, rest, hthread, hne⟩
    · exact h.calling thread' entry' hold
  · rcases hpending hentry with ⟨rfl, rfl⟩ | ⟨-, hold⟩
    · obtain ⟨y, hy⟩ := object_mem hobject
      exact h.objects y _ _ hy rfl
    · exact h.bounded thread' entry' hold
  · rcases hpending hentry with ⟨rfl, rfl⟩ | ⟨-, hold⟩
    · rw [← hfound]
      exact hidle
    · exact h.idle thread' entry' hold hidle
  · rcases hpending h₁ with ⟨rfl, rfl⟩ | ⟨-, hold₁⟩
    · rcases hpending h₂ with ⟨rfl, rfl⟩ | ⟨-, hold₂⟩
      · exact absurd rfl hapart
      · exact (hcareful _ hother thread₂ entry₂ hold₂ hidle₂).symm
    · rcases hpending h₂ with ⟨rfl, rfl⟩ | ⟨-, hold₂⟩
      · exact hcareful _ hother thread₁ entry₁ hold₁ hidle₁
      · exact h.apart thread₁ thread₂ entry₁ entry₂ hold₁ hold₂ hidle₁ hidle₂ hapart

theorem enter_invariant {m' : Machine α} {entry : Entry} (h : Invariant c)
    (hentry : c.entries thread = some entry) (henter : enterOther c.machine thread entry = some m') :
    Invariant ⟨m', Function.update c.entries thread none⟩ := by
  obtain ⟨a, rest, hthread, hne⟩ := h.calling thread entry hentry
  unfold enterOther at henter
  rw [hthread] at henter
  simp only [Option.bind_eq_bind, Option.bind_some, List.head?_cons] at henter
  obtain ⟨i, -, hrest⟩ := Option.bind_eq_some_iff.mp henter
  obtain ⟨e, hcall, houtcome⟩ := Option.bind_eq_some_iff.mp hrest
  obtain rfl := (Option.some.inj houtcome).symm
  obtain ⟨⟨address, haction⟩, hobjects⟩ := callFunction_other hne hcall
  have hcloned : ((tested c.machine.control entry).states entry.target).isRunning = entry.found.isRunning := by
    simp [tested, ControlState.setState]
  rw [hcloned] at haction
  have hmono : c.machine.control.nextState ≤
      (c.machine.control.perform (a :: rest) e.action).control.nextState := SavedState.perform_nextState
  have hpending : ∀ {thread' : ℕ} {entry' : Entry},
      Function.update c.entries thread none thread' = some entry' →
      thread' ≠ thread ∧ c.entries thread' = some entry' := by
    intro thread' entry' hupdate
    by_cases heq : thread' = thread
    · subst heq
      rw [Function.update_self] at hupdate
      cases hupdate
    · rw [Function.update_of_ne heq] at hupdate
      exact ⟨heq, hupdate⟩
  refine ⟨?_, fun y o s ho hs => ?_, fun thread' entry' h' => ?_, fun thread' entry' h' => ?_,
    fun thread' entry' h' hidle => ?_, fun thread₁ thread₂ entry₁ entry₂ h₁ h₂ =>
      h.apart thread₁ thread₂ entry₁ entry₂ (hpending h₁).2 (hpending h₂).2⟩
  · obtain ⟨others, hbefore, hafter⟩ := flatten_set hthread
    have hframes : Linked c.machine.control (frames (a :: rest) ++ frames others) := by
      refine h.linked.perm ?_
      rw [← frames_append]
      exact (hbefore.map fun a => (a.state, a.currentContext)).symm
    have hidle : ∀ f ∈ frames (a :: rest) ++ frames others,
        f.1 ≠ if entry.found.isRunning then c.machine.control.nextState else entry.target := by
      intro f hf
      cases hfound : entry.found.isRunning with
      | true => exact hframes.ne_nextState hf
      | false =>
        rw [← frames_append] at hf
        obtain ⟨b, hb, rfl⟩ := List.mem_map.mp hf
        exact h.not_running hentry hfound b (hbefore.mem_iff.mpr hb)
    have hlinked := hframes.callOther address i.r1.reg i.r2.reg hidle
    rw [haction]
    refine hlinked.perm ?_
    rw [← frames_append]
    exact (hafter _).map _
  · dsimp only at ho
    rw [hobjects] at ho
    exact lt_of_lt_of_le (h.objects y o s ho hs) hmono
  · obtain ⟨hne', hold⟩ := hpending h'
    obtain ⟨b, others, hb, hother⟩ := h.calling thread' entry' hold
    exact ⟨b, others, by rw [List.getElem?_set_ne hne'.symm, hb], hother⟩
  · exact lt_of_lt_of_le (h.bounded thread' entry' (hpending h').2) hmono
  · obtain ⟨hne', hold⟩ := hpending h'
    by_contra hrunning
    rw [Bool.not_eq_false] at hrunning
    rcases perform_running hrunning with hbefore | hstarts
    · rw [h.idle thread' entry' hold hidle] at hbefore
      cases hbefore
    · rcases starting_cases hstarts with hnext | ⟨cloned, address', register, n, hsame⟩
      · exact absurd (h.bounded thread' entry' hold) (by rw [hnext]; exact lt_irrefl _)
      · have htarget : entry.target = entry'.target := by
          rw [haction] at hsame
          exact (Action.callOther.inj hsame).1
        cases hfound : entry.found.isRunning with
        | true =>
          rw [haction, hfound] at hstarts
          have hnext : c.machine.control.nextState = entry'.target := Option.some.inj hstarts
          exact absurd (h.bounded thread' entry' hold) (by rw [hnext]; exact lt_irrefl _)
        | false =>
          exact h.apart thread' thread entry' entry hold hentry hidle hfound hne' htarget.symm

theorem step_invariant {move : Move} (h : Invariant c) (hstep : c.step classes move = some c')
    (hcareful : Careful c move) : Invariant c' := by
  cases move with
  | run thread =>
    rw [Concurrent.step] at hstep
    split at hstep
    · cases hstep
    · rename_i hplain
      rw [not_or, Option.not_isSome_iff_eq_none, Option.not_isSome_iff_eq_none] at hplain
      obtain ⟨m', hm', rfl⟩ := Option.map_eq_some_iff.mp hstep
      exact run_invariant h hplain.1 hplain.2 hm'
  | test thread =>
    rw [Concurrent.step] at hstep
    split at hstep
    · cases hstep
    · obtain ⟨entry, hentry, rfl⟩ := Option.map_eq_some_iff.mp hstep
      exact test_invariant h hentry hcareful
  | enter thread =>
    rw [Concurrent.step] at hstep
    split at hstep
    · cases hstep
    · obtain ⟨entry, hentry, hrest⟩ := Option.bind_eq_some_iff.mp hstep
      obtain ⟨m', henter, hdone⟩ := Option.bind_eq_some_iff.mp hrest
      cases hdone
      exact enter_invariant h hentry henter

theorem carefulRun_invariant (h : CarefulRun classes c) : Invariant c := by
  induction h with
  | boot hcode hboot => exact boot_invariant hboot
  | step h hstep hcareful ih => exact step_invariant ih hstep hcareful

theorem careful_of_exclusive {move : Move} (h : CarefulRun classes c)
    (hstep : c.step classes move = some c') (hexclusive : Exclusive c') : Careful c move := by
  have hinvariant := carefulRun_invariant h
  cases move with
  | run | enter => trivial
  | test thread =>
    intro entry hother thread' entry' hentry' hidle' heq
    rw [Concurrent.step] at hstep
    split at hstep
    · cases hstep
    · rename_i hfree
      rw [not_or, Option.not_isSome_iff_eq_none] at hfree
      rw [hother] at hstep
      cases hstep
      have hthread : thread' ≠ thread := by
        rintro rfl
        rw [hfree.1] at hentry'
        cases hentry'
      obtain ⟨a, rest, i, -, -, -, hfound, -⟩ := otherCall_cases hother
      have hidle : entry.found.isRunning = false := by
        rw [hfound, ← heq]
        exact hinvariant.idle thread' entry' hentry' hidle'
      exact hexclusive.apart thread' thread entry' entry
        ((Function.update_of_ne hthread _ _).trans hentry') (Function.update_self _ _ _)
        hidle' hidle hthread heq

/-- While no state is tested that another thread is about to enter, no state is run twice. -/
theorem exclusive_iff_careful (h : CarefulRun classes c) :
    Exclusive c ∧ ∀ (move : Move) (c' : Concurrent α), c.step classes move = some c' →
      (Exclusive c' ↔ Careful c move) :=
  ⟨(carefulRun_invariant h).exclusive, fun _ _ hstep =>
    ⟨careful_of_exclusive h hstep, fun hcareful => (carefulRun_invariant (h.step hstep hcareful)).exclusive⟩⟩

theorem runMoves_run {moves : List Move} (h : Run classes c) (hmoves : runMoves classes moves c = some c') :
    Run classes c' := by
  induction moves generalizing c with
  | nil =>
    cases hmoves
    exact h
  | cons move moves ih =>
    obtain ⟨c₁, hstep, hrest⟩ := Option.bind_eq_some_iff.mp hmoves
    exact ih (h.step hstep) hrest

theorem runMoves_careful {moves : List Move} (h : CarefulRun classes c)
    (hplain : ∀ move ∈ moves, ∃ thread, move = .run thread) (hmoves : runMoves classes moves c = some c') :
    CarefulRun classes c' := by
  induction moves generalizing c with
  | nil =>
    cases hmoves
    exact h
  | cons move moves ih =>
    obtain ⟨c₁, hstep, hrest⟩ := Option.bind_eq_some_iff.mp hmoves
    have hcareful : Careful c move := by
      obtain ⟨thread, rfl⟩ := hplain move List.mem_cons_self
      trivial
    exact ih (h.step hstep hcareful) (fun move hmem => hplain move (List.mem_cons_of_mem _ hmem)) hrest

end

/-- `var o = Other(); async function g() { o.f(); } g(); o.f();` -/
def sharedInstance : List ClassDeclaration :=
  let constructor : Stmt := .function true false false "__static__constructor__" [] []
  let call : Stmt := .eval (.methodCall (.binary .dot (.ident "o") (.str "f")) [])
  [⟨"Other", [], [.function false false false "f" [] [], constructor], []⟩,
    ⟨"Main", [], [.var "o" (.methodCall (.ident "Other") []) false false,
      .function false true false "g" [] [call], .eval (.methodCall (.ident "g") []), call, constructor], []⟩]

def sharedStart : Option (Machine ℚ) := do boot "Main" (← imagesOf 3 sharedInstance "Main") []

def upToTheCalls : List Move := List.replicate 19 (.run 0) ++ List.replicate 4 (.run 1)

theorem upToTheCalls_run : ∀ move ∈ upToTheCalls, ∃ thread, move = .run thread := by
  intro move hmem
  rcases List.mem_append.mp hmem with hfirst | hsecond
  · exact ⟨0, List.eq_of_mem_replicate hfirst⟩
  · exact ⟨1, List.eq_of_mem_replicate hsecond⟩

theorem sharedStart_boot : ∃ code m, imagesOf 3 sharedInstance "Main" = some code ∧
    boot "Main" code [] = some m ∧ sharedStart = some m := by
  have hsome : sharedStart.isSome = true := by decide +kernel
  obtain ⟨m, hm⟩ := Option.isSome_iff_exists.mp hsome
  have hstart := hm
  unfold sharedStart at hstart
  obtain ⟨code, hcode, hboot⟩ := Option.bind_eq_some_iff.mp hstart
  exact ⟨code, m, hcode, hboot, hm⟩

/-- The theorem at the first of the two tests. -/
theorem first_test_exclusive : ∃ c c' : Concurrent ℚ, CarefulRun (imagesOf 3 sharedInstance) c ∧
    c.step (imagesOf 3 sharedInstance) (.test 0) = some c' ∧ (Exclusive c' ↔ Careful c (.test 0)) := by
  obtain ⟨code, m, hcode, hboot, hm⟩ := sharedStart_boot
  have hsome : (sharedStart.bind fun m => do
      let c ← runMoves (imagesOf 3 sharedInstance) upToTheCalls { machine := m }
      c.step (imagesOf 3 sharedInstance) (.test 0)).isSome = true := by decide +kernel
  obtain ⟨c', hc'⟩ := Option.isSome_iff_exists.mp hsome
  rw [hm, Option.bind_some] at hc'
  obtain ⟨c, hmoves, hstep⟩ := Option.bind_eq_some_iff.mp hc'
  have hcareful : CarefulRun (imagesOf 3 sharedInstance) c :=
    runMoves_careful (.boot hcode hboot) upToTheCalls_run hmoves
  exact ⟨c, c', hcareful, hstep, (exclusive_iff_careful hcareful).2 _ _ hstep⟩

/-- Both threads find the instance idle, and both run it. -/
theorem both_run_the_instance : ∃ c : Concurrent ℚ, Run (imagesOf 3 sharedInstance) c ∧
    c.machine.activations.map (·.state) = [3, 0, 3, 4] ∧ ¬Exclusive c := by
  obtain ⟨code, m, hcode, hboot, hm⟩ := sharedStart_boot
  have hstates : (sharedStart.bind fun m => do
      let c ← runMoves (imagesOf 3 sharedInstance)
        (upToTheCalls ++ [.test 0, .test 1, .enter 0, .enter 1]) { machine := m }
      return c.machine.activations.map (·.state)) = some [3, 0, 3, 4] := by decide +kernel
  rw [hm, Option.bind_some] at hstates
  obtain ⟨c, hmoves, hc⟩ := Option.bind_eq_some_iff.mp hstates
  have hlist : c.machine.activations.map (·.state) = [3, 0, 3, 4] := Option.some.inj hc
  refine ⟨c, runMoves_run (.boot hcode hboot) hmoves, hlist, fun hexclusive => ?_⟩
  have hnodup := hexclusive.running
  rw [hlist] at hnodup
  exact absurd hnodup (by decide)

end Zeroscript.OtherCalls
