import Zeroscript.Frames

/-! # Where control goes

An action moves activations to the next instruction, to a label, to a function, back to a caller, or to a
handler. Invariants of addresses and frames look at these cases, and at no action. -/
namespace Zeroscript

/-- The contexts where a search for a handler in a state begins. -/
inductive SearchFrom (k : ControlState) (a : Activation) (s : StateId) : ContextId → Prop where
  | current : SearchFrom k a s (k.states s).currentContext
  | frame (hs : s = a.state) : SearchFrom k a s a.currentContext

/-- An activation after an action of `a`, on top of `rest`. -/
inductive Arrives (k : ControlState) (a : Activation) (rest : List Activation) : Action → Activation → Prop where
  | stays {action : Action} {b : Activation} (h : b ∈ a :: rest) : Arrives k a rest action b
  | next {action : Action} (h : action ≠ .ret) :
      Arrives k a rest action { a with instructionPtr := a.instructionPtr + 1 }
  | resumes {action : Action} {b : Activation} (h : b ∈ rest) :
      Arrives k a rest action { b with instructionPtr := b.instructionPtr + 1 }
  | jumps {address : ℕ} : Arrives k a rest (.jump address) { a with instructionPtr := address }
  | catches {action : Action} {b : Activation} {c₀ c : ContextId} {address : ℕ} (h : b ∈ a :: rest)
      (hfrom : SearchFrom k a b.state c₀) (htry : InnermostTry k.links c₀ c address) :
      Arrives k a rest action { b with currentContext := c, instructionPtr := address }
  | returns (h : (k.links a.currentContext).returnContext ≠ 0) :
      Arrives k a rest .ret { a with
        currentContext := (k.links a.currentContext).returnContext
        instructionPtr := (k.links a.currentContext).returnAddress + 1 }
  | enters {entry register n : ℕ} : Arrives k a rest (.callOwn entry register n)
      { a with currentContext := k.nextContext, instructionPtr := entry }
  | async {entry n : ℕ} :
      Arrives k a rest (.callAsync entry n) ⟨k.nextState, k.nextContext, entry, 0, .root⟩
  | other {target : StateId} {cloned : Bool} {entry register n : ℕ} :
      Arrives k a rest (.callOther target cloned entry register n)
        ⟨if cloned then k.nextState else target, k.nextContext, entry, 0, .method register⟩
  | constructs {entry : ℕ} :
      Arrives k a rest (.construct entry) ⟨k.nextState, k.nextContext, entry, 0, .construct⟩
  | loads {className path : String} {entry : ℕ} :
      Arrives k a rest (.load className path entry)
        ⟨k.nextState, k.nextContext, entry, 0, .load className path⟩

def Action.starting (k : ControlState) : Action → Option StateId
  | .callAsync .. | .construct _ | .load .. => some k.nextState
  | .callOther target cloned .. => some (if cloned then k.nextState else target)
  | _ => none

inductive Relinks (k : ControlState) (a : Activation) : Action → ContextId → Link → Prop where
  | same {action : Action} {c : ContextId} : Relinks k a action c (k.links c)
  | armed {address : ℕ} : Relinks k a (.setCatch address) a.currentContext
      { k.links a.currentContext with catchesList := some (address :: (k.links a.currentContext).catches) }
  | cleared : Relinks k a .clearCatch a.currentContext
      { k.links a.currentContext with catchesList := some (k.links a.currentContext).catches.tail }
  | enters {entry register n : ℕ} : Relinks k a (.callOwn entry register n) k.nextContext
      ⟨a.currentContext, a.instructionPtr, register, none⟩
  | starts {action : Action} {s : StateId} {register : ℕ} (h : action.starting k = some s) :
      Relinks k a action k.nextContext { requestedReturnRegister := register }

/-- The current context of a state after an action. -/
inductive Tracked (k : ControlState) (a : Activation) : Action → StateId → ContextId → Prop where
  | same {action : Action} {s : StateId} : Tracked k a action s (k.states s).currentContext
  | none {action : Action} {s : StateId} : Tracked k a action s 0
  | own {action : Action} {s : StateId} (hs : s = a.state) : Tracked k a action s a.currentContext
  | caught {action : Action} {s : StateId} {c₀ c : ContextId} {address : ℕ} (hfrom : SearchFrom k a s c₀)
      (htry : InnermostTry k.links c₀ c address) : Tracked k a action s c
  | enters {entry register n : ℕ} : Tracked k a (.callOwn entry register n) a.state k.nextContext
  | starts {action : Action} {s : StateId} (h : action.starting k = some s) :
      Tracked k a action s k.nextContext

variable {k k' : ControlState} {a : Activation} {rest : List Activation}

theorem findCatch_try {bound : ℕ} {c c' : ContextId} {address : ℕ}
    (h : k.findCatch bound c = some (c', address)) : InnermostTry k.links c c' address := by
  induction bound generalizing c with
  | zero => cases h
  | succ bound ih =>
    rw [ControlState.findCatch] at h
    split at h
    · cases h
    · rename_i hc
      split at h
      · rename_i hcatches
        cases h
        exact .here hc hcatches
      · rename_i hcatches
        exact .outer hc hcatches (ih h)

theorem InnermostTry.ne_zero {links : ContextId → Link} {c c' : ContextId} {address : ℕ}
    (h : InnermostTry links c c' address) : c ≠ 0 := by
  cases h with
  | here hc => exact hc
  | outer hc => exact hc

theorem InnermostTry.trans {links : ContextId → Link} {c₀ c c' : ContextId} {address address' : ℕ}
    (h : InnermostTry links c₀ c address) (h' : InnermostTry links c c' address') :
    InnermostTry links c₀ c' address' := by
  induction h with
  | here => exact h'
  | outer hc hcatches _ ih => exact .outer hc hcatches (ih h')

/-- The links are those of `k`, and a current context is one of `k`, or none, or the executing frame,
or the handler that a search from one of these has found. -/
structure Follows (k : ControlState) (a : Activation) (k' : ControlState) : Prop where
  links : k'.links = k.links
  current : ∀ s, (k'.states s).currentContext = 0 ∨ SearchFrom k a s (k'.states s).currentContext ∨
    ∃ c₀ address, SearchFrom k a s c₀ ∧ InnermostTry k.links c₀ (k'.states s).currentContext address

theorem Follows.refl (k : ControlState) (a : Activation) : Follows k a k :=
  ⟨rfl, fun _ => Or.inr (Or.inl .current)⟩

theorem Follows.handler (h : Follows k a k') {s : StateId} {c : ContextId} {address : ℕ}
    (hc : k'.handler s = some (c, address)) :
    ∃ c₀, SearchFrom k a s c₀ ∧ InnermostTry k.links c₀ c address := by
  have htry := findCatch_try hc
  rw [h.links] at htry
  rcases h.current s with hzero | hfrom | ⟨c₀, address₀, hfrom, htry₀⟩
  · exact absurd hzero htry.ne_zero
  · exact ⟨_, hfrom, htry⟩
  · exact ⟨c₀, hfrom, htry₀.trans htry⟩

theorem Follows.tracked (h : Follows k a k') (action : Action) (s : StateId) :
    Tracked k a action s (k'.states s).currentContext := by
  rcases h.current s with hzero | hfrom | ⟨c₀, address, hfrom, htry⟩
  · rw [hzero]
    exact .none
  · generalize (k'.states s).currentContext = c at hfrom
    cases hfrom with
    | current => exact .same
    | frame hs => exact .own hs
  · exact .caught hfrom htry

theorem Follows.move (h : Follows k a k') {s : StateId} {state : StateControl}
    (hstate : state.currentContext = 0 ∨ SearchFrom k a s state.currentContext ∨
      ∃ c₀ address, SearchFrom k a s c₀ ∧ InnermostTry k.links c₀ state.currentContext address) :
    Follows k a (k'.setState s state) := by
  refine ⟨h.links, fun s' => ?_⟩
  by_cases hs : s' = s
  · subst hs
    simpa only [ControlState.setState, Function.update_self] using hstate
  · simp only [ControlState.setState, Function.update_of_ne hs]
    exact h.current s'

theorem Follows.setState (h : Follows k a k') {s : StateId} {state : StateControl}
    (hstate : state.currentContext = (k'.states s).currentContext ∨ state.currentContext = 0 ∨
      s = a.state ∧ state.currentContext = a.currentContext) : Follows k a (k'.setState s state) := by
  apply h.move
  rcases hstate with hsame | hzero | ⟨hown, hcurrent⟩
  · rw [hsame]
    exact h.current s
  · exact Or.inl hzero
  · rw [hcurrent]
    exact Or.inr (Or.inl (.frame hown))

theorem Follows.throwIn (h : Follows k a k') (s : StateId) : Follows k a (k'.throwIn s) := by
  unfold ControlState.throwIn
  split
  · rename_i c address hhandler
    obtain ⟨c₀, hfrom, htry⟩ := h.handler hhandler
    exact h.move (Or.inr (Or.inr ⟨c₀, address, hfrom, htry⟩))
  · exact h.move (Or.inl rfl)

theorem resumeCaller_arrives {action : Action} {activations : List Activation} (resume : Resume)
    (hrest : ∀ b ∈ activations, b ∈ rest) : ∀ b ∈ resumeCaller resume activations, Arrives k a rest action b := by
  have hstays : ∀ b ∈ activations, Arrives k a rest action b :=
    fun b hb => .stays (List.mem_cons_of_mem _ (hrest b hb))
  have hadvance : ∀ b ∈ advance activations, Arrives k a rest action b := by
    cases activations with
    | nil => exact nofun
    | cons x activations =>
      intro b hb
      rcases List.mem_cons.mp hb with rfl | hb
      · exact .resumes (hrest x List.mem_cons_self)
      · exact hstays b (List.mem_cons_of_mem _ hb)
  cases resume with
  | method | construct => exact hadvance
  | load | startup => exact hstays
  | root => exact nofun

theorem raise_arrives (h : Follows k a k') {message : String} {action : Action} {activations : List Activation}
    (hsub : ∀ b ∈ activations, b ∈ a :: rest) (htail : ∀ b ∈ activations.tail, b ∈ rest) :
    ∀ b ∈ (k'.raise message activations).activations, Arrives k a rest action b := by
  induction activations generalizing k' with
  | nil => exact nofun
  | cons b activations ih =>
    rw [ControlState.raise]
    split
    · rename_i c address hhandler
      obtain ⟨c₀, hfrom, htry⟩ := h.handler (ControlState.catcher_some hhandler).1
      intro b' hb'
      rcases List.mem_cons.mp hb' with rfl | hb'
      · exact .catches (hsub b List.mem_cons_self) hfrom htry
      · exact .stays (hsub b' (List.mem_cons_of_mem _ hb'))
    · split
      · have hstop : Follows k a ((k'.throwIn b.state).stop b.state) := (h.throwIn b.state).setState (Or.inl rfl)
        exact ih hstop (fun x hx => hsub x (List.mem_cons_of_mem _ hx))
          fun x hx => htail x (List.mem_of_mem_tail hx)
      · exact resumeCaller_arrives _ htail

theorem raise_follows (h : Follows k a k') {message : String} {action : Action} {activations : List Activation} :
    (k'.raise message activations).control.links = k.links ∧
      ∀ s, Tracked k a action s ((k'.raise message activations).control.states s).currentContext := by
  induction activations generalizing k' with
  | nil => exact ⟨h.links, h.tracked action⟩
  | cons b activations ih =>
    have hstop : Follows k a ((k'.throwIn b.state).stop b.state) := (h.throwIn b.state).setState (Or.inl rfl)
    rw [ControlState.raise]
    split
    · rename_i c address hhandler
      obtain ⟨c₀, hfrom, htry⟩ := h.handler (ControlState.catcher_some hhandler).1
      have hcaught : Follows k a (k'.caught b.state c address) :=
        h.move (Or.inr (Or.inr ⟨c₀, address, hfrom, htry⟩))
      exact ⟨hcaught.links, hcaught.tracked action⟩
    · split
      · exact ih hstop
      · exact ⟨hstop.links, hstop.tracked action⟩

theorem follows_moveStack (s : StateId) (items : ℤ) : Follows k a (k.moveStack s items) :=
  (Follows.refl k a).setState (Or.inl rfl)

theorem perform_arrives {action : Action} :
    ∀ b ∈ (k.perform (a :: rest) action).activations ++ (k.perform (a :: rest) action).spawned.toList,
      Arrives k a rest action b := by
  have hrest : ∀ {action : Action}, ∀ b ∈ rest, Arrives k a rest action b :=
    fun b hb => .stays (List.mem_cons_of_mem _ hb)
  have hmoved : ∀ {action : Action} {b : Activation}, Arrives k a rest action b →
      ∀ b' ∈ b :: rest, Arrives k a rest action b' := fun hb => List.forall_mem_cons.mpr ⟨hb, hrest⟩
  have hpushed : ∀ {action : Action} {b : Activation}, Arrives k a rest action b →
      ∀ b' ∈ b :: a :: rest, Arrives k a rest action b' :=
    fun hb => List.forall_mem_cons.mpr ⟨hb, hmoved (.stays List.mem_cons_self)⟩
  have hraise : ∀ {action : Action} {k' : ControlState} {message : String}, Follows k a k' →
      ∀ b ∈ (k'.raise message (a :: rest)).activations, Arrives k a rest action b :=
    fun hk' => raise_arrives hk' (fun _ => id) (fun _ => id)
  have hsingle : ∀ {action : Action} {outcome : Outcome}, outcome.spawned = none →
      (∀ b ∈ outcome.activations, Arrives k a rest action b) →
      ∀ b ∈ outcome.activations ++ outcome.spawned.toList, Arrives k a rest action b := by
    intro action outcome hnone h
    rw [hnone, Option.toList_none, List.append_nil]
    exact h
  cases action with
  | next | push | pop | setCatch | clearCatch | write =>
    exact hsingle rfl (hmoved (.next Action.noConfusion))
  | jump address => exact hsingle rfl (hmoved .jumps)
  | native pops error =>
    cases error with
    | none => exact hsingle rfl (hmoved (.next Action.noConfusion))
    | some message => exact hsingle (raise_spawned _ _) (hraise (follows_moveStack _ _))
  | raise message => exact hsingle (raise_spawned _ _) (hraise (.refl k a))
  | throwing message =>
    exact hsingle (raise_spawned _ _) (hraise ((Follows.refl k a).setState (Or.inr (Or.inr ⟨rfl, rfl⟩))))
  | ret =>
    rw [ControlState.perform]
    dsimp only
    split
    · exact hsingle rfl (resumeCaller_arrives _ fun _ => id)
    · rename_i hreturn
      exact hsingle rfl (hmoved (.returns hreturn))
  | callOwn entry register n => exact hsingle rfl (hmoved .enters)
  | callAsync entry n =>
    intro b hb
    rcases List.mem_append.mp hb with hb | hb
    · exact hmoved (.next Action.noConfusion) b hb
    · obtain rfl := List.mem_singleton.mp hb
      exact .async
  | callOther target cloned entry register n => exact hsingle rfl (hpushed .other)
  | construct entry => exact hsingle rfl (hpushed .constructs)
  | load className path entry => exact hsingle rfl (hpushed .loads)
  | reject target again =>
    have hset : Follows k a (k.setState target { k.states target with returnCode := false }) :=
      (Follows.refl k a).setState (Or.inl rfl)
    unfold ControlState.perform
    dsimp only
    split
    · rename_i hnone
      exact hsingle (raise_spawned _ _) (hraise (hset.throwIn target))
    · exact hsingle rfl (hmoved (.next Action.noConfusion))
  | exit message => exact hsingle rfl fun b hb => absurd hb List.not_mem_nil

theorem perform_relinks (action : Action) (c : ContextId) :
    Relinks k a action c ((k.perform (a :: rest) action).control.links c) := by
  have hsame : ∀ {action : Action} {k' : ControlState}, k'.links = k.links → Relinks k a action c (k'.links c) := by
    intro action k' hk'
    rw [hk']
    exact .same
  have hraise : ∀ {action : Action} {k' : ControlState} {message : String}, Follows k a k' →
      Relinks k a action c ((k'.raise message (a :: rest)).control.links c) :=
    fun {action k' message} hk' => hsame (And.left
      (b := ∀ s, Tracked k a action s ((k'.raise message (a :: rest)).control.states s).currentContext)
      (raise_follows hk'))
  have hfresh : ∀ {action : Action} {link : Link} {k' : ControlState},
      k'.links = Function.update k.links k.nextContext link → Relinks k a action k.nextContext link →
      Relinks k a action c (k'.links c) := by
    intro action link k' hk' hlink
    rw [hk']
    by_cases hc : c = k.nextContext
    · subst hc
      rwa [Function.update_self]
    · rw [Function.update_of_ne hc]
      exact .same
  cases action with
  | next | jump | push | pop | write | exit => exact hsame rfl
  | native pops error =>
    cases error with
    | none => exact hsame rfl
    | some message => exact hraise (follows_moveStack _ _)
  | raise message => exact hraise (.refl k a)
  | throwing message => exact hraise ((Follows.refl k a).setState (Or.inr (Or.inr ⟨rfl, rfl⟩)))
  | setCatch address =>
    rw [ControlState.perform]
    dsimp only [ControlState.setLink]
    by_cases hc : c = a.currentContext
    · subst hc
      rw [Function.update_self]
      exact .armed
    · rw [Function.update_of_ne hc]
      split <;> exact .same
  | clearCatch =>
    rw [ControlState.perform]
    dsimp only [ControlState.setLink]
    by_cases hc : c = a.currentContext
    · subst hc
      rw [Function.update_self]
      exact .cleared
    · rw [Function.update_of_ne hc]
      exact .same
  | ret =>
    rw [ControlState.perform]
    dsimp only
    split <;> exact hsame rfl
  | callOwn entry register n => exact hfresh rfl .enters
  | callAsync | callOther | construct | load => exact hfresh rfl (.starts rfl)
  | reject target again =>
    have hset : Follows k a (k.setState target { k.states target with returnCode := false }) :=
      (Follows.refl k a).setState (Or.inl rfl)
    unfold ControlState.perform
    dsimp only
    split
    · rename_i hnone
      exact hraise (hset.throwIn target)
    · refine hsame ?_
      dsimp only
      unfold ControlState.throwIn
      split <;> rfl

theorem perform_tracked (action : Action) (s : StateId) :
    Tracked k a action s ((k.perform (a :: rest) action).control.states s).currentContext := by
  have hraise : ∀ {action : Action} {k' : ControlState} {message : String}, Follows k a k' →
      Tracked k a action s ((k'.raise message (a :: rest)).control.states s).currentContext :=
    fun hk' => (raise_follows hk').2 s
  have hown : Follows k a (k.setState a.state { k.states a.state with currentContext := a.currentContext }) :=
    (Follows.refl k a).setState (Or.inr (Or.inr ⟨rfl, rfl⟩))
  have hstart : ∀ {action : Action} {k' : ControlState} {s₀ : StateId} {link : Link} {stack : StackId} {top : ℤ},
      Follows k a k' → k'.nextContext = k.nextContext → action.starting k = some s₀ →
      Tracked k a action s (((k'.start s₀ link stack top).states s).currentContext) := by
    intro action k' s₀ link stack top hk' hnext haction
    by_cases hs : s = s₀
    · subst hs
      simp only [ControlState.start, Function.update_self]
      rw [hnext]
      exact .starts haction
    · simp only [ControlState.start, Function.update_of_ne hs]
      exact hk'.tracked action s
  cases action with
  | next | jump | exit => exact .same
  | push | pop => exact (follows_moveStack _ _).tracked _ s
  | native pops error =>
    cases error with
    | none => exact (follows_moveStack _ _).tracked _ s
    | some message => exact hraise (follows_moveStack _ _)
  | raise message => exact hraise (.refl k a)
  | throwing message => exact hraise hown
  | setCatch address =>
    rw [ControlState.perform]
    dsimp only [ControlState.setLink]
    split
    · exact hown.tracked _ s
    · exact .same
  | clearCatch => exact .same
  | ret =>
    rw [ControlState.perform]
    dsimp only
    split
    · apply Follows.tracked
      refine Follows.setState (Follows.setState hown ?_) ?_
      · exact Or.inl rfl
      · exact Or.inl rfl
    · exact hown.tracked _ s
  | callOwn entry register n =>
    rw [ControlState.perform]
    by_cases hs : s = a.state
    · subst hs
      simp only [ControlState.enter, Function.update_self]
      exact .enters
    · simp only [ControlState.enter, Function.update_of_ne hs]
      exact .same
  | callAsync | callOther => exact hstart (follows_moveStack _ _) rfl rfl
  | construct | load => exact hstart (.refl k a) rfl rfl
  | write target =>
    have hset : Follows k a (k.setState target { k.states target with returnCode := false }) :=
      (Follows.refl k a).setState (Or.inl rfl)
    exact hset.tracked _ s
  | reject target again =>
    have hset : Follows k a (k.setState target { k.states target with returnCode := false }) :=
      (Follows.refl k a).setState (Or.inl rfl)
    unfold ControlState.perform
    dsimp only
    split
    · rename_i hnone
      exact hraise (hset.throwIn target)
    · exact (hset.throwIn target).tracked _ s

theorem setState_running {s target : StateId} {state : StateControl}
    (h : ((k.setState target state).states s).isRunning = true)
    (hstate : state.isRunning = true → (k.states target).isRunning = true) :
    (k.states s).isRunning = true := by
  by_cases hs : s = target
  · subst hs
    simp only [ControlState.setState, Function.update_self] at h
    exact hstate h
  · simpa [ControlState.setState, hs] using h

theorem throwIn_running {s target : StateId} (h : ((k.throwIn target).states s).isRunning = true) :
    (k.states s).isRunning = true := by
  unfold ControlState.throwIn at h
  split at h
  · exact setState_running h fun hs => hs
  · exact setState_running h fun hs => hs

theorem raise_running {message : String} {activations : List Activation} {s : StateId}
    (h : ((k.raise message activations).control.states s).isRunning = true) :
    (k.states s).isRunning = true := by
  induction activations generalizing k with
  | nil => exact h
  | cons b rest ih =>
    have hstop : (((k.throwIn b.state).stop b.state).states s).isRunning = true →
        (k.states s).isRunning = true := by
      intro hs
      refine throwIn_running (setState_running hs fun hstopped => ?_)
      cases hstopped
    rw [ControlState.raise] at h
    split at h
    · exact setState_running h fun hs => hs
    · split at h
      · exact hstop (ih h)
      · exact hstop h

theorem start_running {s s₀ : StateId} {link : Link} {stack : StackId} {top : ℤ}
    (h : ((k.start s₀ link stack top).states s).isRunning = true) :
    (k.states s).isRunning = true ∨ s₀ = s := by
  by_cases hs : s = s₀
  · exact Or.inr hs.symm
  · simp only [ControlState.start, Function.update_of_ne hs] at h
    exact Or.inl h

theorem perform_running {action : Action} {s : StateId}
    (h : ((k.perform (a :: rest) action).control.states s).isRunning = true) :
    (k.states s).isRunning = true ∨ action.starting k = some s := by
  cases action with
  | next | jump | exit | clearCatch => exact Or.inl h
  | push | pop => exact Or.inl (setState_running h fun hs => hs)
  | native pops error =>
    cases error with
    | none => exact Or.inl (setState_running h fun hs => hs)
    | some message =>
      have hraised : (((k.moveStack a.state (-pops)).raise message (a :: rest)).control.states s).isRunning = true := h
      exact Or.inl (setState_running (raise_running hraised) fun hs => hs)
  | raise message =>
    have hraised : ((k.raise message (a :: rest)).control.states s).isRunning = true := h
    exact Or.inl (raise_running hraised)
  | throwing message =>
    have hraised : (((k.setState a.state { k.states a.state with
        currentContext := a.currentContext }).raise message (a :: rest)).control.states s).isRunning = true := h
    exact Or.inl (setState_running (raise_running hraised) fun hs => hs)
  | setCatch address =>
    rw [ControlState.perform] at h
    dsimp only [ControlState.setLink] at h
    split at h
    · exact Or.inl (setState_running h fun hs => hs)
    · exact Or.inl h
  | ret =>
    rw [ControlState.perform] at h
    dsimp only at h
    split at h
    · have hcode := setState_running h fun hs => absurd hs Bool.false_ne_true
      have hcurrent := setState_running hcode fun hs => hs
      exact Or.inl (setState_running hcurrent fun hs => hs)
    · exact Or.inl (setState_running h fun hs => hs)
  | callOwn entry register n =>
    exact Or.inl (setState_running h fun hs => hs)
  | callAsync | callOther =>
    rcases start_running h with h | h
    · exact Or.inl (setState_running h fun hs => hs)
    · exact Or.inr (congrArg some h)
  | construct | load =>
    rcases start_running h with h | h
    · exact Or.inl h
    · exact Or.inr (congrArg some h)
  | write target => exact Or.inl (setState_running h fun hs => hs)
  | reject target again =>
    unfold ControlState.perform at h
    dsimp only at h
    split at h
    · exact Or.inl (setState_running (throwIn_running (raise_running h)) fun hs => hs)
    · exact Or.inl (setState_running (throwIn_running h) fun hs => hs)

theorem resumeCaller_tail (resume : Resume) (activations : List Activation) :
    ∀ b ∈ (resumeCaller resume activations).tail, b ∈ activations := by
  have htail : ∀ b ∈ activations.tail, b ∈ activations := fun _ => List.mem_of_mem_tail
  have hadvance : ∀ b ∈ (advance activations).tail, b ∈ activations := by
    cases activations with
    | nil => exact nofun
    | cons x activations => exact htail
  cases resume with
  | method | construct => exact hadvance
  | load | startup => exact htail
  | root => exact nofun

theorem raise_tail (message : String) {activations : List Activation} (h : ∀ b ∈ activations.tail, b ∈ rest) :
    ∀ b ∈ (k.raise message activations).activations.tail, b ∈ rest := by
  induction activations generalizing k with
  | nil => exact nofun
  | cons b activations ih =>
    rw [ControlState.raise]
    split
    · exact h
    · split
      · exact ih fun x hx => h x (List.mem_of_mem_tail hx)
      · exact fun x hx => h x (resumeCaller_tail _ _ x hx)

theorem perform_below {action : Action} :
    ∀ b ∈ (k.perform (a :: rest) action).activations.tail, b ∈ rest ∨ b = a ∧ (action.starting k).isSome := by
  have hkept : ∀ {action : Action}, ∀ b ∈ rest, b ∈ rest ∨ b = a ∧ (action.starting k).isSome :=
    fun b hb => Or.inl hb
  have hraise : ∀ {action : Action} {k' : ControlState} {message : String},
      ∀ b ∈ (k'.raise message (a :: rest)).activations.tail, b ∈ rest ∨ b = a ∧ (action.starting k).isSome :=
    fun b hb => Or.inl (raise_tail _ (fun _ => id) b hb)
  have hpushed : ∀ {action : Action}, (action.starting k).isSome →
      ∀ b ∈ a :: rest, b ∈ rest ∨ b = a ∧ (action.starting k).isSome :=
    fun haction => List.forall_mem_cons.mpr ⟨Or.inr ⟨rfl, haction⟩, hkept⟩
  cases action with
  | next | jump | push | pop | setCatch | clearCatch | callOwn | callAsync | write => exact hkept
  | native pops error =>
    cases error with
    | none => exact hkept
    | some message => exact hraise
  | raise | throwing => exact hraise
  | ret =>
    rw [ControlState.perform]
    dsimp only
    split
    · exact fun b hb => Or.inl (resumeCaller_tail _ _ b hb)
    · exact hkept
  | callOther | construct | load => exact hpushed rfl
  | reject target again =>
    unfold ControlState.perform
    dsimp only
    split
    · exact hraise
    · exact hkept
  | exit => exact fun b hb => absurd hb List.not_mem_nil

end Zeroscript
