import Mathlib.Data.List.Nodup
import Mathlib.Data.List.Perm.Basic
import Zeroscript.Steps

/-! # Frames and states along a run

Every activation runs in a state of its own, and return contexts are older than the contexts they
belong to. -/
namespace Zeroscript

/-- The state and the executing frame of every activation. -/
def frames (activations : List Activation) : List (StateId × ContextId) :=
  activations.map fun a => (a.state, a.currentContext)

@[simp] theorem frames_nil : frames [] = [] := rfl

@[simp] theorem frames_cons (a : Activation) (rest : List Activation) :
    frames (a :: rest) = (a.state, a.currentContext) :: frames rest := rfl

@[simp] theorem frames_append (l l' : List Activation) : frames (l ++ l') = frames l ++ frames l' :=
  List.map_append

@[simp] theorem frames_advance (activations : List Activation) :
    frames (advance activations) = frames activations := by
  cases activations <;> rfl

instance (f : StateId × ContextId) (fs : List (StateId × ContextId)) : Decidable (f ∈ fs) := inferInstance

structure Linked (k : ControlState) (fs : List (StateId × ContextId)) : Prop where
  distinct : (fs.map Prod.fst).Nodup
  running : ∀ f ∈ fs, (k.states f.1).isRunning = true
  state_lt : ∀ f ∈ fs, f.1 < k.nextState
  context_pos : ∀ f ∈ fs, f.2 ≠ 0
  context_lt : ∀ f ∈ fs, f.2 < k.nextContext
  current_lt : ∀ s, (k.states s).currentContext < k.nextContext
  older : ∀ c, c ≠ 0 → (k.links c).returnContext < c

/-- What `OP_CALL` makes sure of before it enters another state. -/
def Legal (k : ControlState) (s : StateId) : Action → Prop
  | .callOther target cloned _ _ _ => target ≠ s ∧ cloned = (k.states target).isRunning
  | _ => True

theorem Asks.legal {α : Type} [NumOps α] {classes : String → Option Code} {d d' : Data α}
    {k : ControlState} {a : Activation} {i : Instruction} {action : Action}
    (h : Asks classes d k a i d' action) : Legal k a.state action := by
  cases h with
  | callOther hi hne hidle => exact ⟨hne, hidle.symm⟩
  | callClone hi hne hbusy => exact ⟨hne, hbusy.symm⟩
  | _ => trivial

/-- The innermost active `try` of a frame or of the frames it returns to: the context that has it and
the address of its `catch`. -/
inductive InnermostTry (links : ContextId → Link) : ContextId → ContextId → ℕ → Prop where
  | here {c : ContextId} {address : ℕ} {catches : List ℕ} (hc : c ≠ 0)
      (hcatches : (links c).catches = address :: catches) : InnermostTry links c c address
  | outer {c c' : ContextId} {address : ℕ} (hc : c ≠ 0) (hcatches : (links c).catches = [])
      (h : InnermostTry links (links c).returnContext c' address) : InnermostTry links c c' address

variable {k : ControlState} {fs : List (StateId × ContextId)} {a : Activation}

theorem Linked.perm {fs' : List (StateId × ContextId)} (h : Linked k fs) (hp : fs'.Perm fs) :
    Linked k fs' where
  distinct := (hp.map Prod.fst).nodup_iff.mpr h.distinct
  running f hf := h.running f (hp.subset hf)
  state_lt f hf := h.state_lt f (hp.subset hf)
  context_pos f hf := h.context_pos f (hp.subset hf)
  context_lt f hf := h.context_lt f (hp.subset hf)
  current_lt := h.current_lt
  older := h.older

theorem Linked.sublist {fs' : List (StateId × ContextId)} (h : Linked k fs) (hs : fs'.Sublist fs) :
    Linked k fs' where
  distinct := h.distinct.sublist (hs.map Prod.fst)
  running f hf := h.running f (hs.subset hf)
  state_lt f hf := h.state_lt f (hs.subset hf)
  context_pos f hf := h.context_pos f (hs.subset hf)
  context_lt f hf := h.context_lt f (hs.subset hf)
  current_lt := h.current_lt
  older := h.older

theorem Linked.ne_head {f g : StateId × ContextId} (h : Linked k (f :: fs)) (hg : g ∈ fs) :
    g.1 ≠ f.1 := by
  intro he
  have hd := h.distinct
  rw [List.map_cons, List.nodup_cons] at hd
  exact hd.1 (he ▸ List.mem_map_of_mem hg)

theorem Linked.setState {s : StateId} {c : StateControl} (h : Linked k fs)
    (hrunning : c.isRunning = (k.states s).isRunning) (hcurrent : c.currentContext < k.nextContext) :
    Linked (k.setState s c) fs where
  distinct := h.distinct
  running f hf := by
    by_cases hs : f.1 = s
    · subst hs
      simpa [ControlState.setState, hrunning] using h.running f hf
    · simpa [ControlState.setState, hs] using h.running f hf
  state_lt := h.state_lt
  context_pos := h.context_pos
  context_lt := h.context_lt
  current_lt s' := by
    by_cases hs : s' = s
    · subst hs
      simpa [ControlState.setState] using hcurrent
    · simpa [ControlState.setState, hs] using h.current_lt s'
  older := h.older

theorem Linked.moveStack (h : Linked k fs) (s : StateId) (items : ℤ) :
    Linked (k.moveStack s items) fs :=
  h.setState rfl (h.current_lt s)

theorem Linked.stop {s : StateId} {c : ContextId} (h : Linked k ((s, c) :: fs)) :
    Linked (k.stop s) fs where
  distinct := by
    have hd := h.distinct
    rw [List.map_cons, List.nodup_cons] at hd
    exact hd.2
  running f hf := by
    have hne := h.ne_head hf
    simpa [ControlState.stop, ControlState.setState, hne] using h.running f (List.mem_cons_of_mem _ hf)
  state_lt f hf := h.state_lt f (List.mem_cons_of_mem _ hf)
  context_pos f hf := h.context_pos f (List.mem_cons_of_mem _ hf)
  context_lt f hf := h.context_lt f (List.mem_cons_of_mem _ hf)
  current_lt s' := by
    by_cases hs : s' = s
    · subst hs
      simpa [ControlState.stop, ControlState.setState] using h.current_lt s'
    · simpa [ControlState.stop, ControlState.setState, hs] using h.current_lt s'
  older := h.older

theorem findCatch_le {bound : ℕ} {c c' : ContextId} {address : ℕ}
    (hlinks : ∀ c, c ≠ 0 → (k.links c).returnContext < c)
    (h : k.findCatch bound c = some (c', address)) : c' ≠ 0 ∧ c' ≤ c := by
  induction bound generalizing c with
  | zero => cases h
  | succ bound ih =>
    rw [ControlState.findCatch] at h
    split at h
    · cases h
    · rename_i hc
      split at h
      · cases h
        exact ⟨hc, le_refl _⟩
      · obtain ⟨hpos, hle⟩ := ih h
        exact ⟨hpos, le_of_lt (lt_of_le_of_lt hle (hlinks c hc))⟩

theorem findCatch_iff {bound : ℕ} {c c' : ContextId} {address : ℕ}
    (hlinks : ∀ c, c ≠ 0 → (k.links c).returnContext < c) (hbound : c < bound) :
    k.findCatch bound c = some (c', address) ↔ InnermostTry k.links c c' address := by
  induction bound generalizing c with
  | zero => exact absurd hbound (Nat.not_lt_zero c)
  | succ bound ih =>
    rw [ControlState.findCatch]
    by_cases hc : c = 0
    · subst hc
      rw [if_pos rfl]
      constructor
      · intro h
        cases h
      · intro h
        cases h with
        | here hc => exact absurd rfl hc
        | outer hc => exact absurd rfl hc
    · rw [if_neg hc]
      cases hcatches : (k.links c).catches with
      | cons first catches =>
        constructor
        · intro h
          cases h
          exact .here hc hcatches
        · intro h
          cases h with
          | here _ h => rw [hcatches] at h; cases h; rfl
          | outer _ h => rw [hcatches] at h; cases h
      | nil =>
        have hup := ih (lt_of_lt_of_le (hlinks c hc) (Nat.lt_succ_iff.mp hbound))
        constructor
        · intro h
          exact .outer hc hcatches (hup.mp h)
        · intro h
          cases h with
          | here _ h => rw [hcatches] at h; cases h
          | outer _ _ h => exact hup.mpr h

theorem findCatch_setState (s : StateId) (state : StateControl) (bound : ℕ) (c : ContextId) :
    (k.setState s state).findCatch bound c = k.findCatch bound c := by
  induction bound generalizing c with
  | zero => rfl
  | succ bound ih =>
    rw [ControlState.findCatch, ControlState.findCatch, ih]
    rfl

theorem handler_setState {s : StateId} {state : StateControl}
    (h : state.currentContext = (k.states s).currentContext) (s' : StateId) :
    (k.setState s state).handler s' = k.handler s' := by
  unfold ControlState.handler
  rw [findCatch_setState]
  by_cases hs : s' = s
  · subst hs
    simp [ControlState.setState, h]
  · simp [ControlState.setState, hs]

theorem Linked.handler {s : StateId} {c : ContextId} {address : ℕ} (h : Linked k fs)
    (hc : k.handler s = some (c, address)) : c ≠ 0 ∧ c < k.nextContext := by
  obtain ⟨hpos, hle⟩ := findCatch_le h.older hc
  exact ⟨hpos, lt_of_le_of_lt hle (h.current_lt s)⟩

theorem Linked.nextContext_pos (h : Linked k fs) : 0 < k.nextContext :=
  lt_of_le_of_lt (Nat.zero_le _) (h.current_lt 0)

theorem Linked.throwIn (h : Linked k fs) (s : StateId) : Linked (k.throwIn s) fs := by
  unfold ControlState.throwIn
  split
  · rename_i c address hc
    exact h.setState rfl (h.handler hc).2
  · exact h.setState rfl h.nextContext_pos

theorem Linked.move {s : StateId} {c c' : ContextId} (h : Linked k ((s, c) :: fs)) (hpos : c' ≠ 0)
    (hlt : c' < k.nextContext) : Linked k ((s, c') :: fs) where
  distinct := h.distinct
  running f hf := by
    rcases List.mem_cons.mp hf with rfl | hf
    · exact h.running (s, c) List.mem_cons_self
    · exact h.running f (List.mem_cons_of_mem _ hf)
  state_lt f hf := by
    rcases List.mem_cons.mp hf with rfl | hf
    · exact h.state_lt (s, c) List.mem_cons_self
    · exact h.state_lt f (List.mem_cons_of_mem _ hf)
  context_pos f hf := by
    rcases List.mem_cons.mp hf with rfl | hf
    · exact hpos
    · exact h.context_pos f (List.mem_cons_of_mem _ hf)
  context_lt f hf := by
    rcases List.mem_cons.mp hf with rfl | hf
    · exact hlt
    · exact h.context_lt f (List.mem_cons_of_mem _ hf)
  current_lt := h.current_lt
  older := h.older

theorem Linked.setLink (c : ContextId) (link : Link) (h : Linked k fs)
    (hreturn : link.returnContext = (k.links c).returnContext) : Linked (k.setLink c link) fs where
  distinct := h.distinct
  running := h.running
  state_lt := h.state_lt
  context_pos := h.context_pos
  context_lt := h.context_lt
  current_lt := h.current_lt
  older c' hc' := by
    by_cases he : c' = c
    · subst he
      simpa [ControlState.setLink, hreturn] using h.older c' hc'
    · simpa [ControlState.setLink, he] using h.older c' hc'

theorem Linked.start (s : StateId) (link : Link) (stack : StackId) (stackPtr : ℤ) (h : Linked k fs)
    (hidle : ∀ f ∈ fs, f.1 ≠ s) (hreturn : link.returnContext = 0) :
    Linked (k.start s link stack stackPtr) ((s, k.nextContext) :: fs) where
  distinct := by
    rw [List.map_cons, List.nodup_cons]
    refine ⟨?_, h.distinct⟩
    intro hmem
    obtain ⟨f, hf, hs⟩ := List.mem_map.mp hmem
    exact hidle f hf hs
  running f hf := by
    rcases List.mem_cons.mp hf with rfl | hf
    · simp [ControlState.start]
    · simpa [ControlState.start, hidle f hf] using h.running f hf
  state_lt f hf := by
    change f.1 < max k.nextState (s + 1)
    rcases List.mem_cons.mp hf with rfl | hf
    · exact lt_of_lt_of_le (Nat.lt_succ_self _) (le_max_right _ _)
    · exact lt_of_lt_of_le (h.state_lt f hf) (le_max_left _ _)
  context_pos f hf := by
    rcases List.mem_cons.mp hf with rfl | hf
    · exact Nat.pos_iff_ne_zero.mp h.nextContext_pos
    · exact h.context_pos f hf
  context_lt f hf := by
    change f.2 < k.nextContext + 1
    rcases List.mem_cons.mp hf with rfl | hf
    · exact Nat.lt_succ_self _
    · exact Nat.lt_succ_of_lt (h.context_lt f hf)
  current_lt s' := by
    change (Function.update k.states s _ s').currentContext < k.nextContext + 1
    by_cases hs : s' = s
    · subst hs
      simp
    · simpa [hs] using Nat.lt_succ_of_lt (h.current_lt s')
  older c hc := by
    change (Function.update k.links k.nextContext link c).returnContext < c
    by_cases he : c = k.nextContext
    · subst he
      simpa [hreturn] using h.nextContext_pos
    · simpa [he] using h.older c hc

theorem Linked.enter {s : StateId} {c : ContextId} (link : Link) (h : Linked k ((s, c) :: fs))
    (hreturn : link.returnContext = c) (arguments : ℕ) :
    Linked (k.enter s link arguments) ((s, k.nextContext) :: fs) where
  distinct := h.distinct
  running f hf := by
    have hrunning := h.running (s, c) List.mem_cons_self
    rcases List.mem_cons.mp hf with rfl | hf
    · simpa [ControlState.enter] using hrunning
    · simpa [ControlState.enter, h.ne_head hf] using h.running f (List.mem_cons_of_mem _ hf)
  state_lt f hf := by
    rcases List.mem_cons.mp hf with rfl | hf
    · exact h.state_lt (s, c) List.mem_cons_self
    · exact h.state_lt f (List.mem_cons_of_mem _ hf)
  context_pos f hf := by
    rcases List.mem_cons.mp hf with rfl | hf
    · exact Nat.pos_iff_ne_zero.mp h.nextContext_pos
    · exact h.context_pos f (List.mem_cons_of_mem _ hf)
  context_lt f hf := by
    change f.2 < k.nextContext + 1
    rcases List.mem_cons.mp hf with rfl | hf
    · exact Nat.lt_succ_self _
    · exact Nat.lt_succ_of_lt (h.context_lt f (List.mem_cons_of_mem _ hf))
  current_lt s' := by
    change (Function.update k.states s _ s').currentContext < k.nextContext + 1
    by_cases hs : s' = s
    · subst hs
      simp
    · simpa [hs] using Nat.lt_succ_of_lt (h.current_lt s')
  older c' hc' := by
    change (Function.update k.links k.nextContext link c').returnContext < c'
    by_cases he : c' = k.nextContext
    · subst he
      simpa [hreturn] using h.context_lt (s, c) List.mem_cons_self
    · simpa [he] using h.older c' hc'

def Resume.isMethod : Resume → Bool
  | .method _ => true
  | _ => false

theorem resumeCaller_sublist (resume : Resume) (rest : List Activation) :
    (frames (resumeCaller resume rest)).Sublist (frames rest) := by
  cases resume with
  | method | construct => simp [resumeCaller]
  | load | startup => exact List.Sublist.refl _
  | root => exact List.nil_sublist _

/-- An exception leaves activations behind, or moves one to its handler. -/
theorem Linked.stopped {rest : List Activation} (h : Linked k (frames (a :: rest) ++ fs)) :
    Linked ((k.throwIn a.state).stop a.state) (frames rest ++ fs) := by
  have hthrown : Linked (k.throwIn a.state) ((a.state, a.currentContext) :: (frames rest ++ fs)) :=
    h.throwIn a.state
  exact hthrown.stop

theorem raise_linked {activations : List Activation} (message : String)
    (h : Linked k (frames activations ++ fs)) :
    Linked (k.raise message activations).control
      (frames (k.raise message activations).activations ++ fs) := by
  induction activations generalizing k with
  | nil => exact h
  | cons a rest ih =>
    rw [ControlState.raise]
    split
    · rename_i c address hc
      obtain ⟨hpos, hlt⟩ := h.handler (ControlState.catcher_some hc).1
      have hmoved : Linked k ((a.state, c) :: (frames rest ++ fs)) := h.move hpos hlt
      exact hmoved.setState rfl hlt
    · split
      · exact ih h.stopped
      · exact h.stopped.sublist ((resumeCaller_sublist _ _).append_right fs)

theorem raise_spawned (message : String) (activations : List Activation) :
    (k.raise message activations).spawned = none := by
  induction activations generalizing k with
  | nil => rfl
  | cons a rest ih =>
    rw [ControlState.raise]
    split
    · rfl
    · split
      · exact ih
      · rfl

theorem Linked.ne_nextState (h : Linked k fs) {f : StateId × ContextId} (hf : f ∈ fs) :
    f.1 ≠ k.nextState :=
  ne_of_lt (h.state_lt f hf)

/-- A method runs in a state that nothing else runs in. -/
theorem Linked.callee_idle {s target : StateId} {cloned : Bool} {entry register arguments : ℕ}
    (h : Linked k fs) (hlegal : Legal k s (.callOther target cloned entry register arguments)) :
    ∀ f ∈ fs, f.1 ≠ if cloned then k.nextState else target := by
  intro f hf
  obtain ⟨-, hcloned⟩ := hlegal
  cases hrunning : (k.states target).isRunning with
  | true => simpa [hcloned, hrunning] using h.ne_nextState hf
  | false =>
    have : f.1 ≠ target := by
      rintro rfl
      rw [h.running f hf] at hrunning
      cases hrunning
    simpa [hcloned, hrunning] using this

theorem Linked.callOther {rest : List Activation} {target : StateId} {cloned : Bool}
    (entry register arguments : ℕ) (h : Linked k (frames (a :: rest) ++ fs))
    (hidle : ∀ f ∈ frames (a :: rest) ++ fs, f.1 ≠ if cloned then k.nextState else target) :
    Linked (k.perform (a :: rest) (.callOther target cloned entry register arguments)).control
      (frames (k.perform (a :: rest) (.callOther target cloned entry register arguments)).activations ++
        fs) := by
  have hstart := (h.moveStack a.state 1).start _ { requestedReturnRegister := register }
    (k.states a.state).stackStart ((k.states a.state).stackPtr - arguments) hidle rfl
  simpa [ControlState.perform, ControlState.moveStack, ControlState.setState] using hstart

theorem raise_framed (message : String) {activations : List Activation} (h : Linked k (frames activations ++ fs)) :
    Linked (k.raise message activations).control
      (frames (k.raise message activations).activations ++
        (fs ++ frames (k.raise message activations).spawned.toList)) := by
  rw [raise_spawned]
  simpa using raise_linked message h

theorem Linked.setCatch {rest : List Activation} (address : ℕ) (h : Linked k (frames (a :: rest) ++ fs)) :
    Linked (k.perform (a :: rest) (.setCatch address)).control
      (frames (k.perform (a :: rest) (.setCatch address)).activations ++ fs) := by
  have hk : Linked (if (k.links a.currentContext).catchesList.isNone then
      k.setState a.state { k.states a.state with currentContext := a.currentContext }
      else k) (frames (a :: rest) ++ fs) := by
    split
    · exact h.setState rfl (h.context_lt (a.state, a.currentContext) List.mem_cons_self)
    · exact h
  simpa [ControlState.perform] using hk.setLink a.currentContext
    { k.links a.currentContext with
      catchesList := some (address :: (k.links a.currentContext).catches) }
    (by split <;> rfl)

theorem Linked.ret {rest : List Activation} (h : Linked k (frames (a :: rest) ++ fs)) :
    Linked (k.perform (a :: rest) .ret).control
      (frames (k.perform (a :: rest) .ret).activations ++
        (fs ++ frames (k.perform (a :: rest) .ret).spawned.toList)) := by
  have hcurrent := h.context_lt (a.state, a.currentContext) List.mem_cons_self
  have hcons : Linked k ((a.state, a.currentContext) :: (frames rest ++ fs)) := h
  have hset : Linked (k.setState a.state { k.states a.state with currentContext := a.currentContext })
      ((a.state, a.currentContext) :: (frames rest ++ fs)) := hcons.setState rfl hcurrent
  rw [ControlState.perform]
  dsimp only
  split
  · have hstop := (hset.setState (c := { (k.setState a.state { k.states a.state with
        currentContext := a.currentContext }).states a.state with returnCode := false }) rfl
      (hset.current_lt a.state)).stop
    simpa using hstop.sublist ((resumeCaller_sublist a.resume rest).append_right fs)
  · rename_i hreturn
    have holder := h.older a.currentContext (h.context_pos (a.state, a.currentContext)
      List.mem_cons_self)
    simpa using hset.move hreturn (lt_trans holder hcurrent)

theorem Linked.callAsync {rest : List Activation} (entry arguments : ℕ) (h : Linked k (frames (a :: rest) ++ fs)) :
    Linked (k.perform (a :: rest) (.callAsync entry arguments)).control
      (frames (k.perform (a :: rest) (.callAsync entry arguments)).activations ++
        (fs ++ frames (k.perform (a :: rest) (.callAsync entry arguments)).spawned.toList)) := by
  have hstart := (h.moveStack a.state 1).start k.nextState {} k.nextStack
    ((k.states a.state).stackPtr - arguments) (fun f hf => h.ne_nextState hf) rfl
  refine Linked.perm (by simpa [ControlState.perform] using hstart) ?_
  simp only [ControlState.perform, frames_advance, Option.toList_some, frames_cons, frames_nil]
  rw [← List.append_assoc]
  exact List.perm_append_singleton _ _

theorem Linked.reject {rest : List Activation} (target : StateId) (again : Option String)
    (h : Linked k (frames (a :: rest) ++ fs)) :
    Linked (k.perform (a :: rest) (.reject target again)).control
      (frames (k.perform (a :: rest) (.reject target again)).activations ++
        (fs ++ frames (k.perform (a :: rest) (.reject target again)).spawned.toList)) := by
  have hset := h.setState (s := target) (c := { k.states target with returnCode := false }) rfl
    (h.current_lt target)
  unfold ControlState.perform
  dsimp only at hset ⊢
  generalize k.setState target _ = k' at hset ⊢
  have hthrow := hset.throwIn target
  cases hfound : k'.handler target with
  | none =>
    cases again with
    | none => simpa using hthrow
    | some message => exact raise_framed message hthrow
  | some handler => simpa using hthrow

theorem perform_linked {rest : List Activation} {action : Action}
    (h : Linked k (frames (a :: rest) ++ fs)) (hlegal : Legal k a.state action) :
    Linked (k.perform (a :: rest) action).control
      (frames (k.perform (a :: rest) action).activations ++
        (fs ++ frames (k.perform (a :: rest) action).spawned.toList)) := by
  have hcurrent := h.context_lt (a.state, a.currentContext) List.mem_cons_self
  have hcons : Linked k ((a.state, a.currentContext) :: (frames rest ++ fs)) := h
  cases action with
  | next | jump => simpa [ControlState.perform] using h
  | push | pop => simpa [ControlState.perform] using h.moveStack a.state _
  | native pops error =>
    cases error with
    | none => simpa [ControlState.perform] using h.moveStack a.state _
    | some message => exact raise_framed message (h.moveStack a.state _)
  | raise message => exact raise_framed message h
  | throwing message => exact raise_framed message (h.setState rfl hcurrent)
  | setCatch address => simpa [ControlState.perform] using h.setCatch address
  | clearCatch =>
    simpa [ControlState.perform] using h.setLink a.currentContext
      { k.links a.currentContext with
        catchesList := some (k.links a.currentContext).catches.tail } rfl
  | ret => exact h.ret
  | callOwn entry register arguments =>
    simpa [ControlState.perform] using hcons.enter
      ⟨a.currentContext, a.instructionPtr, register, none⟩ rfl arguments
  | callAsync entry arguments => exact h.callAsync entry arguments
  | callOther target cloned entry register arguments =>
    have hother : Linked (k.perform (a :: rest)
        (.callOther target cloned entry register arguments)).control _ :=
      h.callOther entry register arguments (h.callee_idle hlegal)
    simpa [ControlState.perform] using hother
  | construct entry =>
    have hstart := h.start k.nextState {} (k.states a.state).stackStart
      (k.states a.state).stackPtr (fun f hf => h.ne_nextState hf) rfl
    simpa [ControlState.perform] using hstart
  | load className path entry =>
    have hstart := h.start k.nextState {} k.nextStack 0
      (fun f hf => h.ne_nextState hf) rfl
    simpa [ControlState.perform] using hstart
  | write target =>
    simpa [ControlState.perform] using h.setState (s := target)
      (c := { k.states target with returnCode := false }) rfl (h.current_lt target)
  | reject target again => exact h.reject target again
  | exit message =>
    simpa [ControlState.perform] using h.sublist (List.sublist_append_right _ fs)

variable {α : Type} [NumOps α] {classes : String → Option Code}

theorem step_linked {m m' : Machine α} {thread : ℕ} (hstep : m.step classes thread = some m')
    (h : Linked m.control (frames m.activations)) : Linked m'.control (frames m'.activations) := by
  obtain ⟨a, rest, i, e, outcome, hs⟩ := Machine.step_cases hstep
  obtain ⟨others, hbefore, hafter⟩ := hs.others
  have hlinked : Linked m.control
      (frames ({ a with objectToSearchOn := e.objectToSearchOn } :: rest) ++ frames others) := by
    refine h.perm ?_
    rw [← frames_append]
    exact (hbefore.map fun a => (a.state, a.currentContext)).symm
  have hperform := perform_linked (a := { a with objectToSearchOn := e.objectToSearchOn }) hlinked
    (effect_asks hs.effect).legal
  rw [hs.perform] at hperform
  rw [hs.control]
  refine hperform.perm ?_
  rw [← frames_append, ← frames_append]
  exact hafter.map _

theorem boot_linked {className : String} {code : Code} {input : List String} {m : Machine α}
    (h : boot className code input = some m) : Linked m.control (frames m.activations) := by
  obtain ⟨staticEntry, entry, hboot⟩ := boot_of h
  have hempty : Linked ⟨fun _ => {}, fun _ => {}, 1, 0, 0⟩ [] :=
    { distinct := List.nodup_nil
      running := by simp
      state_lt := by simp
      context_pos := by simp
      context_lt := by simp
      current_lt := fun _ => Nat.one_pos
      older := fun c hc => Nat.pos_of_ne_zero hc }
  have hroot := hempty.start 0 {} 0 0 (by simp) rfl
  have hstatic := hroot.start 1 {} 1 0 (by simp) rfl
  rw [hboot.control]
  unfold Machine.activations
  rw [hboot.threads]
  exact hstatic

theorem reachable_linked {m : Machine α} (h : m.Reachable classes) :
    Linked m.control (frames m.activations) := by
  obtain ⟨className, code, input, m₀, -, hboot, hpath⟩ := h
  induction hpath with
  | refl => exact boot_linked hboot
  | tail _ hstep ih =>
    obtain ⟨thread, hstep⟩ := hstep
    exact step_linked hstep ih

end Zeroscript
