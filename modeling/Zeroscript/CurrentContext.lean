import Zeroscript.Frames
import Zeroscript.Number

/-! # `initial_state->current_context`

The interpreter keeps the executing frame in a variable of its own and in the state. `OP_RETURN`
writes the frame that ends into the state, and a refused write moves another instance's state. -/
namespace Zeroscript.CurrentContext

/-- What an instruction of `a` makes of the set of states whose `current_context` is not their
executing frame; `fs` are the executing frames of all. -/
def staleAfter (k : ControlState) (fs : List (StateId × ContextId)) (a : Activation)
    (stale : StateId → Bool) : Action → StateId → Bool
  | .ret =>
    if (k.links a.currentContext).returnContext = 0 then stale
    else Function.update stale a.state true
  | .setCatch _ =>
    if (k.links a.currentContext).catchesList.isNone then Function.update stale a.state false
    else stale
  | .throwing _ | .callOwn _ _ _ => Function.update stale a.state false
  | .callAsync _ _ | .construct _ | .load _ _ _ => Function.update stale k.nextState false
  | .callOther target cloned _ _ _ =>
    Function.update stale (if cloned then k.nextState else target) false
  | .reject target _ =>
    Function.update stale target ((k.handler target).all fun found => (target, found.1) ∉ fs)
  | _ => stale

/-- A state that catches an exception goes on in the frame of the handler. -/
def recovered (stale : StateId → Bool) (caughtBy : Option StateId) : StateId → Bool :=
  match caughtBy with
  | some s => Function.update stale s false
  | none => stale

/-- A run of a program, with the states that it has left behind so far. -/
inductive History {α : Type} [NumOps α] (classes : String → Option Code) :
    Machine α → (StateId → Bool) → Prop where
  | boot {className : String} {code : Code} {input : List String} {m : Machine α}
      (hcode : classes className = some code) (hboot : boot className code input = some m) :
      History classes m fun _ => false
  | step {m m' : Machine α} {stale : StateId → Bool} {thread : ℕ} {a : Activation}
      {rest : List Activation} {i : Instruction} {e : Effect α} {outcome : Outcome}
      (h : History classes m stale) (hstep : StepOf classes m m' thread a rest i e outcome) :
      History classes m'
        (recovered (staleAfter m.control (frames m.activations) a stale e.action) outcome.caughtBy)

def raisedIn (k : ControlState) (a : Activation) : Action → Option (ControlState × String)
  | .raise message => some (k, message)
  | .native pops (some message) => some (k.moveStack a.state (-pops), message)
  | .throwing message =>
    some (k.setState a.state { k.states a.state with currentContext := a.currentContext }, message)
  | .reject target (some message) =>
    let k := k.setState target { k.states target with returnCode := false }
    if (k.handler target).isNone then some (k.throwIn target, message) else none
  | _ => none

theorem perform_raised {k k' : ControlState} {a : Activation} {rest : List Activation}
    {action : Action} {message : String} (h : raisedIn k a action = some (k', message)) :
    k.perform (a :: rest) action = k'.raise message (a :: rest) := by
  cases action <;> try cases h
  case raise => rfl
  case throwing => rfl
  case native pops error =>
    cases error with
    | none => cases h
    | some message =>
      cases h
      rfl
  case reject target again =>
    cases again with
    | none => cases h
    | some message =>
      unfold ControlState.perform
      unfold raisedIn at h
      dsimp only at h ⊢
      split at h
      · rename_i hnone
        rw [Option.isNone_iff_eq_none] at hnone
        cases h
        rw [hnone]
      · cases h

theorem perform_unraised {k : ControlState} {a : Activation} {rest : List Activation}
    {action : Action} (h : raisedIn k a action = none) :
    (k.perform (a :: rest) action).left = [] ∧ (k.perform (a :: rest) action).raised = none ∧
      (k.perform (a :: rest) action).caughtBy = none := by
  cases action <;> try exact ⟨rfl, rfl, rfl⟩
  case raise | throwing => cases h
  case native pops error =>
    cases error with
    | none => exact ⟨rfl, rfl, rfl⟩
    | some message => cases h
  case ret =>
    unfold ControlState.perform
    dsimp only
    split <;> exact ⟨rfl, rfl, rfl⟩
  case reject target again =>
    cases again with
    | none =>
      unfold ControlState.perform
      dsimp only
      split
      · contradiction
      · exact ⟨rfl, rfl, rfl⟩
    | some message =>
      unfold raisedIn at h
      dsimp only at h
      split at h
      · cases h
      · rename_i hsome
        unfold ControlState.perform
        dsimp only
        split
        · rename_i hnone _
          rw [hnone] at hsome
          exact absurd rfl hsome
        · exact ⟨rfl, rfl, rfl⟩

theorem raisedIn_linked {k k' : ControlState} {fs : List (StateId × ContextId)} {a : Activation}
    {action : Action} {message : String} (hl : Linked k fs) (ha : (a.state, a.currentContext) ∈ fs)
    (h : raisedIn k a action = some (k', message)) : Linked k' fs := by
  cases action <;> try cases h
  case raise => exact hl
  case throwing => exact hl.setState rfl (hl.context_lt _ ha)
  case native pops error =>
    cases error with
    | none => cases h
    | some message =>
      cases h
      exact hl.moveStack a.state _
  case reject target again =>
    cases again with
    | none => cases h
    | some message =>
      unfold raisedIn at h
      dsimp only at h
      split at h
      · cases h
        exact (hl.setState (c := { k.states target with returnCode := false }) rfl
          (hl.current_lt target)).throwIn target
      · cases h

/-- A state that runs has its executing frame as current context just when it is not left behind. -/
def Tracks (k : ControlState) (fs : List (StateId × ContextId)) (stale : StateId → Bool) : Prop :=
  ∀ f ∈ fs, (k.states f.1).currentContext = f.2 ↔ stale f.1 = false

variable {k k' : ControlState} {fs fs' : List (StateId × ContextId)} {stale stale' : StateId → Bool}
  {a : Activation}

theorem staleAfter_perm (hp : fs.Perm fs') (action : Action) :
    staleAfter k fs a stale action = staleAfter k fs' a stale action := by
  cases action with
  | reject target again => simp [staleAfter, hp.mem_iff]
  | _ => rfl

theorem Tracks.subset (h : Tracks k fs stale) (hs : fs' ⊆ fs) : Tracks k fs' stale :=
  fun f hf => h f (hs hf)

theorem Tracks.cons {s : StateId} {c : ContextId}
    (hhead : (k.states s).currentContext = c ↔ stale s = false) (h : Tracks k fs stale) :
    Tracks k ((s, c) :: fs) stale := by
  intro f hf
  rcases List.mem_cons.mp hf with rfl | hf
  · exact hhead
  · exact h f hf

theorem Tracks.away {s : StateId} (h : Tracks k fs stale) (hne : ∀ f ∈ fs, f.1 ≠ s)
    (hk : ∀ s', s' ≠ s → (k'.states s').currentContext = (k.states s').currentContext)
    (hstale : ∀ s', s' ≠ s → stale' s' = stale s') : Tracks k' fs stale' := by
  intro f hf
  rw [hk f.1 (hne f hf), hstale f.1 (hne f hf)]
  exact h f hf

theorem Tracks.same (h : Tracks k fs stale)
    (hk : ∀ s, (k'.states s).currentContext = (k.states s).currentContext) : Tracks k' fs stale := by
  intro f hf
  rw [hk f.1]
  exact h f hf

theorem Tracks.setState {s : StateId} {c : StateControl} (h : Tracks k fs stale)
    (hc : c.currentContext = (k.states s).currentContext) : Tracks (k.setState s c) fs stale := by
  refine h.same fun s' => ?_
  by_cases hs : s' = s
  · subst hs
    simpa [ControlState.setState] using hc
  · simp [ControlState.setState, hs]

theorem setState_away {s s' : StateId} {c : StateControl} (hne : s' ≠ s) :
    ((k.setState s c).states s').currentContext = (k.states s').currentContext := by
  simp [ControlState.setState, hne]

theorem throwIn_away {s s' : StateId} (hne : s' ≠ s) :
    ((k.throwIn s).states s').currentContext = (k.states s').currentContext := by
  obtain ⟨c, hthrown⟩ := k.throwIn_setState s
  rw [hthrown]
  exact setState_away hne

theorem Tracks.setLink (h : Tracks k fs stale) (c : ContextId) (link : Link) :
    Tracks (k.setLink c link) fs stale := h.same fun _ => rfl

theorem Tracks.move {s : StateId} {c : ContextId} (c' : ContextId) (state : StateControl) (v : Bool)
    (hl : Linked k ((s, c) :: fs)) (h : Tracks k ((s, c) :: fs) stale)
    (hv : state.currentContext = c' ↔ v = false) :
    Tracks (k.setState s state) ((s, c') :: fs) (Function.update stale s v) := by
  have hrest : Tracks k fs stale := h.subset (List.subset_cons_self _ _)
  refine Tracks.cons ?_ (hrest.away (fun f hf => hl.ne_head hf) (fun s' hs => setState_away hs)
    fun s' hs => ?_)
  · simpa [ControlState.setState] using hv
  · simp [hs]

theorem raise_tracks {activations : List Activation} (message : String)
    (hl : Linked k (frames activations ++ fs)) (h : Tracks k (frames activations ++ fs) stale) :
    Tracks (k.raise message activations).control
      (frames (k.raise message activations).activations ++ fs)
      (recovered stale (k.raise message activations).caughtBy) := by
  induction activations generalizing k with
  | nil => exact h
  | cons a rest ih =>
    have hothers : ∀ f ∈ frames rest ++ fs, f.1 ≠ a.state := fun f hf => hl.ne_head hf
    have hrest : Tracks k (frames rest ++ fs) stale := h.subset (List.subset_cons_self _ _)
    rw [ControlState.raise]
    split
    · rename_i c address hc
      refine Tracks.cons ?_ (hrest.away hothers (fun s' hs => setState_away hs) fun s' hs => ?_)
      · simp [ControlState.caught, ControlState.setState, recovered]
      · simp [recovered, hs]
    · have haway : Tracks ((k.throwIn a.state).stop a.state) (frames rest ++ fs) stale :=
        hrest.away hothers (fun s' hs => (setState_away hs).trans (throwIn_away hs)) fun _ _ => rfl
      split
      · exact ih hl.stopped haway
      · exact haway.subset ((resumeCaller_sublist _ _).append_right fs).subset

theorem Tracks.start (s : StateId) (link : Link) (stack : StackId) (stackPtr : ℤ)
    (h : Tracks k fs stale) (hidle : ∀ f ∈ fs, f.1 ≠ s) :
    Tracks (k.start s link stack stackPtr) ((s, k.nextContext) :: fs)
      (Function.update stale s false) := by
  refine Tracks.cons ?_ (h.away hidle (fun s' hs => ?_) fun s' hs => ?_)
  · simp [ControlState.start]
  · simp [ControlState.start, hs]
  · simp [hs]

theorem throwIn_tracks (target : StateId) (hl : Linked k fs) (h : Tracks k fs stale) :
    Tracks (k.throwIn target) fs
      (Function.update stale target ((k.handler target).all fun found => (target, found.1) ∉ fs)) := by
  intro f hf
  by_cases hs : f.1 = target
  · subst hs
    unfold ControlState.throwIn
    cases hc : k.handler f.1 with
    | none =>
      simpa [ControlState.uncaught, ControlState.setState] using (hl.context_pos f hf).symm
    | some found =>
      obtain ⟨c, address⟩ := found
      have hframe : (f.1, c) ∈ fs ↔ c = f.2 := by
        constructor
        · intro hmem
          have heq := List.inj_on_of_nodup_map hl.distinct hmem hf rfl
          exact congrArg Prod.snd heq
        · rintro rfl
          exact hf
      simp [ControlState.caught, ControlState.setState, hframe]
  · have hk : ((k.throwIn target).states f.1).currentContext = (k.states f.1).currentContext := by
      unfold ControlState.throwIn
      split
      · exact setState_away hs
      · exact setState_away hs
    rw [hk, Function.update_of_ne hs]
    exact h f hf

def TracksAfter (k : ControlState) (a : Activation) (rest : List Activation) (fs : List (StateId × ContextId))
    (stale : StateId → Bool) (action : Action) : Prop :=
  Tracks (k.perform (a :: rest) action).control
    (frames (k.perform (a :: rest) action).activations ++
      (fs ++ frames (k.perform (a :: rest) action).spawned.toList))
    (recovered (staleAfter k (frames (a :: rest) ++ fs) a stale action) (k.perform (a :: rest) action).caughtBy)

section

variable {rest : List Activation}

theorem raise_after (message : String) (hl : Linked k (frames (a :: rest) ++ fs))
    (h : Tracks k (frames (a :: rest) ++ fs) stale) :
    Tracks (k.raise message (a :: rest)).control
      (frames (k.raise message (a :: rest)).activations ++
        (fs ++ frames (k.raise message (a :: rest)).spawned.toList))
      (recovered stale (k.raise message (a :: rest)).caughtBy) := by
  rw [raise_spawned]
  simpa using raise_tracks message hl h

theorem setCatch_tracks (address : ℕ) (hl : Linked k (frames (a :: rest) ++ fs))
    (h : Tracks k (frames (a :: rest) ++ fs) stale) : TracksAfter k a rest fs stale (.setCatch address) := by
  unfold TracksAfter
  have hcons : Linked k ((a.state, a.currentContext) :: (frames rest ++ fs)) := hl
  cases hlist : (k.links a.currentContext).catchesList with
  | none =>
    have hmoved := Tracks.move a.currentContext
      { k.states a.state with currentContext := a.currentContext } false hcons h (by simp)
    simpa [ControlState.perform, staleAfter, recovered, hlist] using hmoved.setLink a.currentContext _
  | some catches =>
    simpa [ControlState.perform, staleAfter, recovered, hlist] using h.setLink a.currentContext _

theorem ret_tracks (hl : Linked k (frames (a :: rest) ++ fs)) (h : Tracks k (frames (a :: rest) ++ fs) stale) :
    TracksAfter k a rest fs stale .ret := by
  have hothers : ∀ f ∈ frames rest ++ fs, f.1 ≠ a.state := fun f hf => hl.ne_head hf
  have hrest : Tracks k (frames rest ++ fs) stale := h.subset (List.subset_cons_self _ _)
  have hcons : Linked k ((a.state, a.currentContext) :: (frames rest ++ fs)) := hl
  unfold TracksAfter
  rw [ControlState.perform]
  dsimp only
  by_cases hreturn : (k.links a.currentContext).returnContext = 0
  · have haway : Tracks (((k.setState a.state { k.states a.state with
        currentContext := a.currentContext }).setState a.state
          { (k.setState a.state { k.states a.state with
            currentContext := a.currentContext }).states a.state with returnCode := false }).stop
          a.state) (frames rest ++ fs) stale :=
      hrest.away hothers (fun s' hs => ((setState_away hs).trans (setState_away hs)).trans
        (setState_away hs)) fun _ _ => rfl
    simpa [staleAfter, recovered, hreturn] using
      haway.subset ((resumeCaller_sublist a.resume rest).append_right fs).subset
  · have hne : a.currentContext ≠ (k.links a.currentContext).returnContext :=
      (ne_of_lt (hl.older _ (hl.context_pos (a.state, a.currentContext) List.mem_cons_self))).symm
    have hmoved := Tracks.move (k.links a.currentContext).returnContext
      { k.states a.state with currentContext := a.currentContext } true hcons h (by simpa using hne)
    simpa [staleAfter, recovered, hreturn] using hmoved

theorem callOwn_tracks (entry register arguments : ℕ) (hl : Linked k (frames (a :: rest) ++ fs))
    (h : Tracks k (frames (a :: rest) ++ fs) stale) :
    TracksAfter k a rest fs stale (.callOwn entry register arguments) := by
  have hcons : Linked k ((a.state, a.currentContext) :: (frames rest ++ fs)) := hl
  unfold TracksAfter
  have hmoved := Tracks.move k.nextContext
    { k.states a.state with
      currentContext := k.nextContext
      stackPtr := (k.states a.state).stackPtr - arguments } false hcons h (by simp)
  have hentered : Tracks (k.enter a.state ⟨a.currentContext, a.instructionPtr, register, none⟩
      arguments) _ _ := hmoved.same fun _ => rfl
  simpa [ControlState.perform, staleAfter, recovered] using hentered

theorem callAsync_tracks (entry arguments : ℕ) (hl : Linked k (frames (a :: rest) ++ fs))
    (h : Tracks k (frames (a :: rest) ++ fs) stale) :
    TracksAfter k a rest fs stale (.callAsync entry arguments) := by
  unfold TracksAfter
  have hpush : Tracks (k.moveStack a.state 1) (frames (a :: rest) ++ fs) stale := h.setState rfl
  have hstart := hpush.start k.nextState {} k.nextStack
    ((k.states a.state).stackPtr - arguments) fun f hf => hl.ne_nextState hf
  refine Tracks.subset (by simpa [ControlState.perform, staleAfter, recovered] using hstart) ?_
  simp only [ControlState.perform, frames_advance, Option.toList_some, frames_cons, frames_nil]
  rw [← List.append_assoc]
  exact (List.perm_append_singleton _ _).subset

theorem callOther_tracks {target : StateId} {cloned : Bool} {entry register arguments : ℕ}
    (hl : Linked k (frames (a :: rest) ++ fs))
    (hlegal : Legal k a.state (.callOther target cloned entry register arguments))
    (h : Tracks k (frames (a :: rest) ++ fs) stale) :
    TracksAfter k a rest fs stale (.callOther target cloned entry register arguments) := by
  unfold TracksAfter
  have hpush : Tracks (k.moveStack a.state 1) (frames (a :: rest) ++ fs) stale := h.setState rfl
  have hstart := hpush.start _ { requestedReturnRegister := register }
    (k.states a.state).stackStart ((k.states a.state).stackPtr - arguments) (hl.callee_idle hlegal)
  simpa [ControlState.perform, staleAfter, recovered, ControlState.moveStack,
    ControlState.setState] using hstart

theorem reject_tracks (target : StateId) (again : Option String) (hl : Linked k (frames (a :: rest) ++ fs))
    (h : Tracks k (frames (a :: rest) ++ fs) stale) :
    TracksAfter k a rest fs stale (.reject target again) := by
  have hset := hl.setState (s := target) (c := { k.states target with returnCode := false }) rfl
    (hl.current_lt target)
  have hsame : (k.setState target { k.states target with returnCode := false }).handler target =
      k.handler target := by
    apply handler_setState
    rfl
  have hthrow := throwIn_tracks target hset (h.setState rfl)
  unfold TracksAfter ControlState.perform
  dsimp only at hset hsame hthrow ⊢
  rw [hsame] at hthrow ⊢
  generalize k.setState target _ = k' at hset hthrow ⊢
  cases hfound : k.handler target with
  | none =>
    cases again with
    | none => simpa [staleAfter, recovered, hfound] using hthrow
    | some message =>
      rw [hfound] at hthrow
      simpa [staleAfter, hfound] using raise_after message (hset.throwIn target) hthrow
  | some handler => simpa [staleAfter, recovered, hfound] using hthrow

theorem perform_tracks {action : Action} (hl : Linked k (frames (a :: rest) ++ fs)) (hlegal : Legal k a.state action)
    (h : Tracks k (frames (a :: rest) ++ fs) stale) : TracksAfter k a rest fs stale action := by
  have hcurrent := hl.context_lt (a.state, a.currentContext) List.mem_cons_self
  have hcons : Linked k ((a.state, a.currentContext) :: (frames rest ++ fs)) := hl
  cases action with
  | next | jump => simpa [TracksAfter, ControlState.perform, staleAfter, recovered] using h
  | push | pop =>
    simpa [TracksAfter, ControlState.perform, staleAfter, recovered] using
      show Tracks (k.moveStack a.state _) _ stale from h.setState rfl
  | native pops error =>
    cases error with
    | none =>
      simpa [TracksAfter, ControlState.perform, staleAfter, recovered] using
        show Tracks (k.moveStack a.state _) _ stale from h.setState rfl
    | some message => exact raise_after message (hl.moveStack a.state _) (h.setState rfl)
  | raise message => exact raise_after message hl h
  | throwing message => exact raise_after message (hl.setState rfl hcurrent) (Tracks.move _ _ false hcons h (by simp))
  | setCatch address => exact setCatch_tracks address hl h
  | clearCatch =>
    simpa [TracksAfter, ControlState.perform, staleAfter, recovered] using h.setLink a.currentContext _
  | ret => exact ret_tracks hl h
  | callOwn entry register arguments => exact callOwn_tracks entry register arguments hl h
  | callAsync entry arguments => exact callAsync_tracks entry arguments hl h
  | callOther => exact callOther_tracks hl hlegal h
  | construct entry =>
    have hstart := h.start k.nextState {} (k.states a.state).stackStart
      (k.states a.state).stackPtr fun f hf => hl.ne_nextState hf
    simpa [TracksAfter, ControlState.perform, staleAfter, recovered] using hstart
  | load className path entry =>
    have hstart := h.start k.nextState {} k.nextStack 0
      fun f hf => hl.ne_nextState hf
    simpa [TracksAfter, ControlState.perform, staleAfter, recovered] using hstart
  | write target =>
    simpa [TracksAfter, ControlState.perform, staleAfter, recovered] using
      h.setState (s := target) (c := { k.states target with returnCode := false }) rfl
  | reject target again => exact reject_tracks target again hl h
  | exit message =>
    simpa [TracksAfter, ControlState.perform, staleAfter, recovered] using
      h.subset (List.subset_append_right _ fs)

end

variable {α : Type} [NumOps α] {classes : String → Option Code}

theorem History.reachable {m : Machine α} (h : History classes m stale) : m.Reachable classes := by
  induction h with
  | boot hcode hboot => exact ⟨_, _, _, _, hcode, hboot, .refl⟩
  | step h hstep ih =>
    obtain ⟨className, code, input, m₀, hcode, hboot, hpath⟩ := ih
    exact ⟨className, code, input, m₀, hcode, hboot, hpath.tail ⟨_, hstep.step⟩⟩

theorem reachable_history {m : Machine α} (h : m.Reachable classes) :
    ∃ stale, History classes m stale := by
  obtain ⟨className, code, input, m₀, hcode, hboot, hpath⟩ := h
  induction hpath with
  | refl => exact ⟨_, .boot hcode hboot⟩
  | tail _ hstep ih =>
    obtain ⟨thread, hstep⟩ := hstep
    obtain ⟨stale, h⟩ := ih
    obtain ⟨a, rest, i, e, outcome, hs⟩ := Machine.step_cases hstep
    exact ⟨_, .step h hs⟩

theorem history_tracks {m : Machine α} (h : History classes m stale) :
    Tracks m.control (frames m.activations) stale := by
  induction h with
  | boot hcode hboot =>
    obtain ⟨staticEntry, entry, hb⟩ := boot_of hboot
    unfold Machine.activations
    rw [hb.control, hb.threads]
    intro f hf
    rcases List.mem_cons.mp hf with rfl | hf
    · simp [ControlState.start]
    · obtain rfl := List.mem_singleton.mp hf
      simp [ControlState.start]
  | @step m m' stale thread a rest i e outcome h hstep ih =>
    obtain ⟨others, hbefore, hafter⟩ := hstep.others
    have hperm : (frames (a :: rest) ++ frames others).Perm (frames m.activations) := by
      rw [← frames_append]
      exact (hbefore.map fun a => (a.state, a.currentContext)).symm
    have hperform := perform_tracks (a := { a with objectToSearchOn := e.objectToSearchOn })
      ((reachable_linked h.reachable).perm hperm) (effect_asks hstep.effect).legal (ih.subset hperm.subset)
    unfold TracksAfter at hperform
    rw [hstep.perform] at hperform
    rw [hstep.control]
    have hstale : staleAfter m.control (frames (a :: rest) ++ frames others)
        { a with objectToSearchOn := e.objectToSearchOn } stale e.action =
          staleAfter m.control (frames m.activations) a stale e.action := by
      rw [staleAfter_perm hperm]
      cases e.action <;> rfl
    rw [← hstale]
    refine hperform.subset ?_
    rw [← frames_append, ← frames_append]
    exact (hafter.map fun a => (a.state, a.currentContext)).subset

def WritesOwnInstance (d : Data α) (a : Activation) (i : Instruction) : Prop :=
  i.opcode = .SET_FIELD ∧ d.object (d.regs a.currentContext i.r0.reg) = some (.instanceObject a.state)

theorem raised_iff {d d' : Data α} {i : Instruction} {action : Action} {message : String}
    (hl : Linked k fs) (hasks : Asks classes d k a i d' action)
    (hf : (a.state, a.currentContext) ∈ fs) (h : Tracks k fs stale)
    (hraised : raisedIn k a action = some (k', message)) :
    (k'.states a.state).currentContext = a.currentContext ↔
      i.opcode = .THROW_EXCEPTION ∨ (stale a.state = false ∧ ¬WritesOwnInstance d a i) := by
  have htracks := h _ hf
  cases hasks <;> try cases hraised
  case raise message hi =>
    have hopcode : i.opcode ≠ .THROW_EXCEPTION ∧ i.opcode ≠ .SET_FIELD := by
      constructor <;>
      · intro ho
        rw [ho] at hi
        cases hi
    simpa [hopcode.1, hopcode.2, WritesOwnInstance] using htracks
  case throwing message hi => simp [hi, ControlState.setState]
  case native f error hi hcallee hs =>
    cases error with
    | none => cases hraised
    | some message =>
      cases hraised
      simpa [hi, WritesOwnInstance, ControlState.moveStack, ControlState.setState] using htracks
  case reject target again hi hobject hs =>
    cases again with
    | none => cases hraised
    | some message =>
      unfold raisedIn at hraised
      dsimp only at hraised
      split at hraised
      · rename_i hnone
        rw [Option.isNone_iff_eq_none] at hnone
        cases hraised
        have hwrites : WritesOwnInstance d a i ↔ target = a.state := by
          simp only [WritesOwnInstance, hi, hobject, true_and, Option.some.injEq,
            Object.instanceObject.injEq]
        rw [hwrites, hi]
        unfold ControlState.throwIn
        rw [hnone]
        by_cases ht : target = a.state
        · subst ht
          have hpos := hl.context_pos _ hf
          simpa [ControlState.uncaught, ControlState.setState] using hpos.symm
        · simpa [ht, Ne.symm ht, ControlState.uncaught, ControlState.setState] using htracks
      · cases hraised

/-- In every run: a state that runs has its executing frame as current context just when it has not
been left behind; and the search for a handler starts at the frame that executes the instruction
just when this is a throw, or the state is not left behind and the instruction does not write a
field of its own instance. -/
theorem search_starts_at_executing_frame_iff {m : Machine α} (h : History classes m stale) :
    (∀ a ∈ m.activations,
      (m.control.states a.state).currentContext = a.currentContext ↔ stale a.state = false) ∧
    ∀ {thread : ℕ} {a : Activation} {rest : List Activation} {i : Instruction} {e : Effect α}
      {raising : ControlState} {message : String},
      m.threads[thread]? = some (a :: rest) → m.fetch a = some i →
      effect classes m.data m.control a rest i = some e →
      raisedIn m.control a e.action = some (raising, message) →
      ((raising.states a.state).currentContext = a.currentContext ↔
        i.opcode = .THROW_EXCEPTION ∨ (stale a.state = false ∧ ¬WritesOwnInstance m.data a i)) := by
  have htracks := history_tracks h
  constructor
  · intro a ha
    exact htracks (a.state, a.currentContext) (List.mem_map_of_mem ha)
  · intro thread a rest i e raising message hthread _ heffect hraised
    have hmem : a ∈ m.activations :=
      List.mem_flatten.mpr ⟨_, List.mem_of_getElem? hthread, List.mem_cons_self⟩
    exact raised_iff (reachable_linked h.reachable) (effect_asks heffect) (List.mem_map_of_mem hmem)
      htracks hraised

/-- `fun f() { return 1; } f(); 1 / 0;` in `class Main`. -/
def sampleProgram : List ClassDeclaration :=
  [⟨"Main", [], [.function false false false "f" [] [.ret (.num "1")],
    .eval (.methodCall (.ident "f") []), .eval (.binary .div (.num "1") (.num "0")),
    .function true false false "__static__constructor__" [] []], []⟩]

def sampleSearch : Option (Opcode × ContextId × ContextId) := do
  let m : Machine ℚ ← runProgram 3 sampleProgram [] (List.replicate 12 0)
  let activations ← m.threads[0]?
  let a ← activations.head?
  let i ← m.fetch a
  let e ← effect (imagesOf 3 sampleProgram) m.data m.control a activations.tail i
  let (raising, _) ← raisedIn m.control a e.action
  return (i.opcode, a.currentContext, (raising.states a.state).currentContext)

theorem sampleSearch_eq : sampleSearch = some (.DIV, 1, 3) := by decide +kernel

/-- After `f()` has returned, the search for a handler of `1 / 0` starts at the frame of `f`. -/
theorem division_searches_returned_frame :
    ∃ (m : Machine ℚ) (a : Activation) (rest : List Activation) (i : Instruction) (e : Effect ℚ)
      (raising : ControlState) (message : String),
      m.Reachable (imagesOf 3 sampleProgram) ∧ m.threads[0]? = some (a :: rest) ∧
        m.fetch a = some i ∧ i.opcode = .DIV ∧
        effect (imagesOf 3 sampleProgram) m.data m.control a rest i = some e ∧
        raisedIn m.control a e.action = some (raising, message) ∧
        a.currentContext = 1 ∧ (raising.states a.state).currentContext = 3 := by
  have h := sampleSearch_eq
  unfold sampleSearch at h
  obtain ⟨m, hm, h⟩ := Option.bind_eq_some_iff.mp h
  obtain ⟨activations, hthread, h⟩ := Option.bind_eq_some_iff.mp h
  obtain ⟨a, hhead, h⟩ := Option.bind_eq_some_iff.mp h
  obtain ⟨rest, rfl⟩ := List.head?_eq_some_iff.mp hhead
  obtain ⟨i, hi, h⟩ := Option.bind_eq_some_iff.mp h
  obtain ⟨e, he, h⟩ := Option.bind_eq_some_iff.mp h
  obtain ⟨⟨raising, message⟩, hraised, h⟩ := Option.bind_eq_some_iff.mp h
  simp only [Option.pure_def, Option.some.injEq, Prod.mk.injEq] at h
  exact ⟨m, a, rest, i, e, raising, message, runProgram_reachable hm, hthread, hi, h.1, he, hraised,
    h.2.1, h.2.2⟩

/-- A state of that run is left behind. -/
theorem sample_left_behind :
    ∃ (m : Machine ℚ) (stale : StateId → Bool), History (imagesOf 3 sampleProgram) m stale ∧
      ∃ a ∈ m.activations, stale a.state = true := by
  have hrun : (runProgram 3 sampleProgram [] (List.replicate 12 0) : Option (Machine ℚ)).map
      (fun m => m.activations.any fun a =>
        (m.control.states a.state).currentContext != a.currentContext) = some true := by
    decide +kernel
  obtain ⟨m, hm, hany⟩ := Option.map_eq_some_iff.mp hrun
  obtain ⟨stale, h⟩ := reachable_history (runProgram_reachable hm)
  obtain ⟨a, ha, hne⟩ := List.any_eq_true.mp hany
  refine ⟨m, stale, h, a, ha, ?_⟩
  have hiff := (search_starts_at_executing_frame_iff h).1 a ha
  rw [← Bool.not_eq_false, ← hiff]
  exact bne_iff_ne.mp hne

end Zeroscript.CurrentContext
