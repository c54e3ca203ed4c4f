import Mathlib.Algebra.BigOperators.Group.List.Basic
import Mathlib.Algebra.Group.Int.Defs
import Zeroscript.CurrentContext

/-! # What frames have on the value stack

All frames of a state share one stack pointer. Beside a run, a tally keeps what is whose: the depth
at which a frame was entered, the arguments that it has pushed and no call has taken, and the items
that calls which are over have left. -/
namespace Zeroscript.StackTally

open CurrentContext (raisedIn raisedIn_linked perform_raised perform_unraised)

/-- A `SET_CATCH`: its handler, the depth of the stack, and what its frame had there. -/
structure Armed where
  address : ℕ
  depth : ℤ
  arguments : ℤ
  left : ℤ
  deriving DecidableEq, Repr

structure Tally where
  state : ContextId → StateId
  entry : ContextId → ℤ
  arguments : ContextId → ℤ
  left : ContextId → ℤ
  armed : ContextId → List Armed

namespace Tally

variable (t : Tally)

def held (c : ContextId) : ℤ := t.arguments c + t.left c

def depth (c : ContextId) : ℤ := t.entry c + t.held c

def add (c : ContextId) (arguments left : ℤ) : Tally :=
  { t with
    arguments := Function.update t.arguments c (t.arguments c + arguments)
    left := Function.update t.left c (t.left c + left) }

def arm (c : ContextId) (armed : List Armed) : Tally :=
  { t with armed := Function.update t.armed c armed }

def enter (c : ContextId) (s : StateId) (depth : ℤ) : Tally where
  state := Function.update t.state c s
  entry := Function.update t.entry c depth
  arguments := Function.update t.arguments c 0
  left := Function.update t.left c 0
  armed := Function.update t.armed c []

end Tally

/-- What an instruction does to the arguments that wait in its frame; `n` is the number that `OP_CALL`
gives. -/
def pushed (n : ℕ) : Action → ℤ
  | .push => 1
  | .pop => -1
  | .native _ _ | .construct _ => -n
  | .callOwn _ _ arguments | .callAsync _ arguments | .callOther _ _ _ _ arguments => -arguments
  | _ => 0

/-- What a call leaves on the stack for good. Only a function of the running state takes its arguments
away, and a native function takes as many as it wants. -/
def leaves (n : ℕ) : Action → ℤ
  | .native pops _ => n - pops
  | .callAsync _ arguments | .callOther _ _ _ _ arguments => arguments + 1
  | .construct _ => n
  | _ => 0

/-- The tally after an instruction of `a`, and before the search for a handler; `fs` are the executing
frames of all. A function leaves to its caller what it has. -/
def Tally.act (t : Tally) (k : ControlState) (fs : List (StateId × ContextId)) (a : Activation)
    (n : ℕ) (action : Action) : Tally :=
  let c := a.currentContext
  let depth := (k.states a.state).stackPtr
  let counted := t.add c (pushed n action) (leaves n action)
  match action with
  | .setCatch address =>
    counted.arm c (⟨address, depth, t.arguments c, t.left c⟩ :: t.armed c)
  | .clearCatch => counted.arm c (t.armed c).tail
  | .ret =>
    if (k.links c).returnContext = 0 then counted
    else counted.add (k.links c).returnContext 0 (t.held c)
  | .callOwn _ _ arguments => counted.enter k.nextContext a.state (depth - arguments)
  | .callAsync _ arguments => counted.enter k.nextContext k.nextState (depth - arguments)
  | .callOther target cloned _ _ arguments =>
    counted.enter k.nextContext (if cloned then k.nextState else target) (depth - arguments)
  | .construct _ => counted.enter k.nextContext k.nextState depth
  | .load _ _ _ => counted.enter k.nextContext k.nextState 0
  | .reject target _ =>
    -- the message stays on the stack of the instance, which does not go to the handler
    if (k.handler target).isSome then
      { counted with left := fun c =>
          if (target, c) ∈ fs then counted.left c + 1 else counted.left c }
    else counted
  | _ => counted

/-- The frames from `f` on that return, one to the next, to `c`, which is not among them. -/
def unwound (links : ContextId → Link) : ℕ → ContextId → ContextId → Option (List ContextId)
  | 0, _, _ => none
  | bound + 1, f, c =>
    if f = c then some []
    else if f = 0 then none
    else (unwound links bound (links f).returnContext c).map (f :: ·)

structure Catch where
  state : StateId
  frame : ContextId
  address : ℕ
  unwound : List ContextId

/-- The catch of a step of a thread with the executing frames `fs`; none if the frame of the handler
is not active any more. -/
def catchOf (k : ControlState) (fs : List (StateId × ContextId)) (outcome : Outcome) :
    Option Catch := do
  let s ← outcome.caughtBy
  let (_, f) ← fs.find? (·.1 = s)
  let c ← outcome.activations.head?
  let frames ← unwound k.links k.nextContext f c.currentContext
  return ⟨s, c.currentContext, c.instructionPtr, frames⟩

/-- The message waits for the `POP` of the `catch` body; what the unwound frames had stays. -/
def Tally.caught (t : Tally) (x : Catch) : Tally := t.add x.frame 1 (x.unwound.map t.held).sum

def Tally.recover (t : Tally) (k : ControlState) (fs : List (StateId × ContextId))
    (outcome : Outcome) : Option Tally :=
  match outcome.caughtBy with
  | none => some t
  | some _ => (catchOf k fs outcome).map t.caught

def Tally.boot : Tally := ⟨fun c => c - 1, fun _ => 0, fun _ => 0, fun _ => 0, fun _ => []⟩

section

variable {α : Type} [NumOps α]

/-- A run of a program with its tally. All exceptions so far were caught in frames that were active. -/
inductive Tallied (classes : String → Option Code) : Machine α → Tally → Prop where
  | boot {className : String} {code : Code} {input : List String} {m : Machine α}
      (hcode : classes className = some code) (hboot : boot className code input = some m) :
      Tallied classes m .boot
  | step {m m' : Machine α} {t t' : Tally} {thread : ℕ} {a : Activation} {rest : List Activation}
      {i : Instruction} {e : Effect α} {outcome : Outcome} (h : Tallied classes m t)
      (hstep : StepOf classes m m' thread a rest i e outcome)
      (ht : (t.act m.control (frames m.activations) a i.r2.reg e.action).recover m.control
        (frames (a :: rest)) outcome = some t') :
      Tallied classes m' t'

end

/-- `c` is the frame that executes or one that it returns to. -/
inductive Active (links : ContextId → Link) : ContextId → ContextId → Prop where
  | self {c : ContextId} (hc : c ≠ 0) : Active links c c
  | caller {f c : ContextId} (hf : f ≠ 0) (h : Active links (links f).returnContext c) :
      Active links f c

variable {links : ContextId → Link}

theorem Active.le {f c : ContextId} (holder : ∀ c, c ≠ 0 → (links c).returnContext < c)
    (h : Active links f c) : c ≤ f := by
  induction h with
  | self => exact le_refl _
  | caller hf h ih => exact le_of_lt (lt_of_le_of_lt ih (holder _ hf))

theorem Active.trans {f g c : ContextId} (h : Active links f g) (h' : Active links g c) :
    Active links f c := by
  induction h with
  | self => exact h'
  | caller hf h ih => exact .caller hf (ih h')

theorem Active.ne_zero {f c : ContextId} (h : Active links f c) : c ≠ 0 := by
  induction h with
  | self hc => exact hc
  | caller hf h ih => exact ih

theorem Active.start_ne_zero {f c : ContextId} (h : Active links f c) : f ≠ 0 := by
  cases h with
  | self hc => exact hc
  | caller hf => exact hf

theorem Active.return {f c : ContextId} (h : Active links f c) (hc : (links c).returnContext ≠ 0) :
    Active links f (links c).returnContext :=
  h.trans (.caller h.ne_zero (.self hc))

theorem Active.congr {links' : ContextId → Link} {f c bound : ContextId}
    (holder : ∀ c, c ≠ 0 → (links' c).returnContext < c) (hf : f < bound)
    (hlinks : ∀ c, c < bound → (links' c).returnContext = (links c).returnContext)
    (h : Active links' f c) : Active links f c := by
  induction h with
  | self hc => exact .self hc
  | caller hne h ih =>
    refine .caller hne ?_
    rw [← hlinks _ hf]
    exact ih (lt_trans (holder _ hne) hf)

theorem unwound_active {bound : ℕ} {f c : ContextId} {frames : List ContextId} (hc : c ≠ 0)
    (h : unwound links bound f c = some frames) : Active links f c := by
  induction bound generalizing f frames with
  | zero => cases h
  | succ bound ih =>
    rw [unwound] at h
    split at h
    · rename_i heq
      subst heq
      exact .self hc
    · split at h
      · cases h
      · rename_i hf
        obtain ⟨callers, hcallers, -⟩ := Option.map_eq_some_iff.mp h
        exact .caller hf (ih hcallers)

/-- The stack pointer of a running state is the depth of its executing frame, and every active frame
begins where the frame that it returns to ends. -/
structure Counted (k : ControlState) (fs : List (StateId × ContextId)) (t : Tally) : Prop where
  depth : ∀ f ∈ fs, (k.states f.1).stackPtr = t.depth f.2
  entry : ∀ f ∈ fs, ∀ c, Active k.links f.2 c → (k.links c).returnContext ≠ 0 →
    t.entry c = t.depth (k.links c).returnContext
  state : ∀ f ∈ fs, ∀ c, Active k.links f.2 c → t.state c = f.1

/-- The handlers of a frame are those of the `SET_CATCH`s that are still armed. -/
structure ArmedIn (k : ControlState) (t : Tally) : Prop where
  depth : ∀ c, ∀ x ∈ t.armed c, x.depth = t.entry c + (x.arguments + x.left)
  handlers : ∀ c, (t.armed c).map Armed.address = (k.links c).catches

variable {k k' : ControlState} {fs fs' : List (StateId × ContextId)} {t t' : Tally}
  {s : StateId} {f : ContextId}

theorem depth_add (c : ContextId) (x y : ℤ) (c' : ContextId) :
    (t.add c x y).depth c' = t.depth c' + if c' = c then x + y else 0 := by
  by_cases hc : c' = c
  · subst hc
    simp only [Tally.depth, Tally.held, Tally.add, Function.update_self, if_true]
    omega
  · simp [Tally.depth, Tally.held, Tally.add, hc]

theorem Counted.subset (h : Counted k fs t) (hs : fs' ⊆ fs) : Counted k fs' t where
  depth f hf := h.depth f (hs hf)
  entry f hf := h.entry f (hs hf)
  state f hf := h.state f (hs hf)

theorem Counted.apart (h : Counted k fs t) {g : StateId × ContextId} {c c' : ContextId}
    (hg : g ∈ fs) (hc : Active k.links g.2 c) (hc' : t.state c' ≠ g.1) : c ≠ c' := by
  intro heq
  apply hc'
  rw [← heq]
  exact h.state g hg c hc

theorem active_lt (hl : Linked k fs) {g : StateId × ContextId} (hg : g ∈ fs) {c : ContextId}
    (hc : Active k.links g.2 c) : c < k.nextContext :=
  lt_of_le_of_lt (hc.le hl.older) (hl.context_lt g hg)

/-- The executing frame of a state becomes `c`, one of its active frames, and what this has on the
stack changes. -/
theorem Counted.move {c : ContextId} {x y : ℤ} (hl : Linked k ((s, f) :: fs))
    (h : Counted k ((s, f) :: fs) t) (hc : Active k.links f c)
    (hlinks : ∀ c, (k'.links c).returnContext = (k.links c).returnContext)
    (hothers : ∀ g ∈ fs, (k'.states g.1).stackPtr = (k.states g.1).stackPtr)
    (hs : (k'.states s).stackPtr = t.depth c + (x + y)) :
    Counted k' ((s, c) :: fs) (t.add c x y) := by
  have holder : ∀ c, c ≠ 0 → (k'.links c).returnContext < c := by
    intro c hc
    rw [hlinks c]
    exact hl.older c hc
  have hactive : ∀ g ∈ (s, c) :: fs, ∀ c', Active k'.links g.2 c' →
      ∃ g' ∈ (s, f) :: fs, g'.1 = g.1 ∧ Active k.links g'.2 c' := by
    intro g hg c' hc'
    have hsame := hc'.congr holder (Nat.lt_succ_self _) (fun c _ => hlinks c)
    rcases List.mem_cons.mp hg with rfl | hg
    · exact ⟨(s, f), List.mem_cons_self, rfl, hc.trans hsame⟩
    · exact ⟨g, List.mem_cons_of_mem _ hg, rfl, hsame⟩
  have hstate := h.state _ List.mem_cons_self c hc
  refine ⟨?_, ?_, ?_⟩
  · intro g hg
    rw [depth_add]
    rcases List.mem_cons.mp hg with rfl | hg
    · rw [hs, if_pos rfl]
    · have hne := hl.ne_head hg
      have hpos := hl.context_pos g (List.mem_cons_of_mem _ hg)
      rw [if_neg (h.apart (List.mem_cons_of_mem _ hg) (.self hpos) (by rw [hstate]; exact hne.symm)),
        hothers g hg, h.depth g (List.mem_cons_of_mem _ hg), Int.add_zero]
  · intro g hg c' hc' hreturn
    obtain ⟨g', hg', hgs, hactive'⟩ := hactive g hg c' hc'
    rw [hlinks] at hreturn ⊢
    have hentry := h.entry g' hg' c' hactive' hreturn
    rw [depth_add, show (t.add c x y).entry c' = t.entry c' from rfl, hentry]
    have hne : (k.links c').returnContext ≠ c := by
      rcases List.mem_cons.mp hg with rfl | hg
      · exact ne_of_lt (lt_of_lt_of_le (hl.older c' hc'.ne_zero) (hc'.le holder))
      · refine h.apart hg' (hactive'.return hreturn) ?_
        rw [hstate, hgs]
        exact (hl.ne_head hg).symm
    rw [if_neg hne, Int.add_zero]
  · intro g hg c' hc'
    obtain ⟨g', hg', hgs, hactive'⟩ := hactive g hg c' hc'
    rw [← hgs]
    exact h.state g' hg' c' hactive'

theorem Counted.enter {link : Link} {depth : ℤ} (hl : Linked k fs) (h : Counted k fs t)
    (hlinks : k'.links = Function.update k.links k.nextContext link)
    (hothers : ∀ g ∈ fs', (k'.states g.1).stackPtr = (k.states g.1).stackPtr)
    (hs : (k'.states s).stackPtr = depth) (hsub : fs' ⊆ fs)
    (hreturn : link.returnContext ≠ 0 →
      (s, link.returnContext) ∈ fs ∧ t.depth link.returnContext = depth) :
    Counted k' ((s, k.nextContext) :: fs') (t.enter k.nextContext s depth) := by
  have hold : ∀ c, c < k.nextContext →
      (t.enter k.nextContext s depth).depth c = t.depth c ∧
        (t.enter k.nextContext s depth).entry c = t.entry c ∧
        (t.enter k.nextContext s depth).state c = t.state c ∧
        (k'.links c).returnContext = (k.links c).returnContext := by
    intro c hc
    have hne := ne_of_lt hc
    rw [hlinks]
    simp [Tally.depth, Tally.held, Tally.enter, hne]
  have hnew : (t.enter k.nextContext s depth).depth k.nextContext = depth ∧
      (t.enter k.nextContext s depth).entry k.nextContext = depth ∧
      (t.enter k.nextContext s depth).state k.nextContext = s ∧
      k'.links k.nextContext = link := by
    rw [hlinks]
    simp [Tally.depth, Tally.held, Tally.enter]
  -- an active frame is the new one, or one that was active before
  have hactive : ∀ g ∈ (s, k.nextContext) :: fs', ∀ c, Active k'.links g.2 c →
      (g = (s, k.nextContext) ∧ c = k.nextContext) ∨
        ∃ g' ∈ fs, g'.1 = g.1 ∧ Active k.links g'.2 c := by
    have hbefore : ∀ f c, f < k.nextContext → Active k'.links f c → Active k.links f c := by
      intro f c hf hc
      induction hc with
      | self hc => exact .self hc
      | @caller f c hne h ih =>
        rw [(hold f hf).2.2.2] at ih
        exact .caller hne (ih (lt_trans (hl.older f hne) hf))
    intro g hg c hc
    rcases List.mem_cons.mp hg with rfl | hg
    · cases hc with
      | self => exact Or.inl ⟨rfl, rfl⟩
      | caller hne hc =>
        rw [hnew.2.2.2] at hc
        by_cases hzero : link.returnContext = 0
        · rw [hzero] at hc
          exact absurd rfl hc.start_ne_zero
        · obtain ⟨hmem, -⟩ := hreturn hzero
          exact Or.inr ⟨_, hmem, rfl, hbefore _ _ (hl.context_lt _ hmem) hc⟩
    · exact Or.inr ⟨g, hsub hg, rfl, hbefore _ _ (hl.context_lt g (hsub hg)) hc⟩
  refine ⟨?_, ?_, ?_⟩
  · intro g hg
    rcases List.mem_cons.mp hg with rfl | hg
    · rw [hs, hnew.1]
    · rw [hothers g hg, (hold g.2 (hl.context_lt g (hsub hg))).1]
      exact h.depth g (hsub hg)
  · intro g hg c hc hne
    rcases hactive g hg c hc with ⟨-, rfl⟩ | ⟨g', hg', -, hc'⟩
    · rw [hnew.2.2.2] at hne ⊢
      obtain ⟨hmem, hdepth⟩ := hreturn hne
      rw [hnew.2.1, (hold _ (hl.context_lt _ hmem)).1, hdepth]
    · have hlt := active_lt hl hg' hc'
      rw [(hold c hlt).2.2.2] at hne ⊢
      rw [(hold c hlt).2.1, (hold _ (active_lt hl hg' (hc'.return hne))).1]
      exact h.entry g' hg' c hc' hne
  · intro g hg c hc
    rcases hactive g hg c hc with ⟨rfl, rfl⟩ | ⟨g', hg', hgs, hc'⟩
    · exact hnew.2.2.1
    · rw [(hold c (active_lt hl hg' hc')).2.2.1, ← hgs]
      exact h.state g' hg' c hc'

theorem Counted.unwound_depth {bound : ℕ} {c : ContextId} {frames : List ContextId} (hc : c ≠ 0)
    (h : Counted k fs t) (hf : ∃ g ∈ fs, Active k.links g.2 f)
    (hunwound : unwound k.links bound f c = some frames) :
    t.depth f = t.depth c + (frames.map t.held).sum := by
  induction bound generalizing f frames with
  | zero => cases hunwound
  | succ bound ih =>
    obtain ⟨g, hg, hactive⟩ := hf
    rw [unwound] at hunwound
    split at hunwound
    · rename_i heq
      cases hunwound
      rw [heq, List.map_nil, List.sum_nil, Int.add_zero]
    · split at hunwound
      · cases hunwound
      · obtain ⟨callers, hcallers, rfl⟩ := Option.map_eq_some_iff.mp hunwound
        have hreturn : (k.links f).returnContext ≠ 0 := by
          intro hzero
          rw [hzero] at hcallers
          exact (unwound_active hc hcallers).start_ne_zero rfl
        have hup := ih ⟨g, hg, hactive.return hreturn⟩ hcallers
        have hentry := h.entry g hg f hactive hreturn
        have hdepth : t.depth f = t.entry f + t.held f := rfl
        rw [List.map_cons, List.sum_cons]
        omega

theorem findCatch_head {bound : ℕ} {c c' : ContextId} {address : ℕ}
    (h : k.findCatch bound c = some (c', address)) :
    c' ≠ 0 ∧ (k.links c').catches.head? = some address := by
  induction bound generalizing c with
  | zero => cases h
  | succ bound ih =>
    rw [ControlState.findCatch] at h
    split at h
    · cases h
    · rename_i hc
      split at h
      · rename_i hcatches
        cases h
        rw [hcatches]
        exact ⟨hc, rfl⟩
      · exact ih h

theorem stackPtr_setState {state : StateControl} (h : state.stackPtr = (k.states s).stackPtr)
    (s' : StateId) : ((k.setState s state).states s').stackPtr = (k.states s').stackPtr := by
  by_cases hs : s' = s
  · subst hs
    simpa [ControlState.setState] using h
  · simp [ControlState.setState, hs]

theorem raise_cases (message : String) (activations : List Activation) :
    let outcome := k.raise message activations
    outcome.control.links = k.links ∧
      ((outcome.caughtBy = none ∧ ∃ above below, activations = above ++ below ∧
          (frames outcome.activations).Sublist (frames below) ∧
          ∀ s, (∀ b ∈ above, b.state ≠ s) → (outcome.control.states s).stackPtr = (k.states s).stackPtr) ∨
        ∃ above c below c' address, activations = above ++ c :: below ∧
          outcome.caughtBy = some c.state ∧
          outcome.activations = { c with currentContext := c', instructionPtr := address } :: below ∧
          c' ≠ 0 ∧ (k.links c').catches.head? = some address ∧
          ∀ s, (∀ b ∈ above, b.state ≠ s) → (outcome.control.states s).stackPtr =
            (k.states s).stackPtr + if s = c.state then 1 else 0) := by
  induction activations generalizing k with
  | nil => exact ⟨rfl, Or.inl ⟨rfl, [], [], rfl, .refl _, fun _ _ => rfl⟩⟩
  | cons a rest ih =>
    have hleft : ∀ s, a.state ≠ s →
        (((k.throwIn a.state).stop a.state).states s).stackPtr = (k.states s).stackPtr := by
      intro s hs
      obtain ⟨c, hthrown⟩ := k.throwIn_setState a.state
      rw [hthrown]
      simp [ControlState.stop, ControlState.setState, Ne.symm hs]
    have hlinks : ((k.throwIn a.state).stop a.state).links = k.links := by
      obtain ⟨c, hthrown⟩ := k.throwIn_setState a.state
      rw [hthrown]
      rfl
    dsimp only
    rw [ControlState.raise]
    split
    · rename_i c' address hfound
      obtain ⟨hpos, hhead⟩ := findCatch_head (ControlState.catcher_some hfound).1
      refine ⟨rfl, Or.inr ⟨[], a, rest, c', address, rfl, rfl, rfl, hpos, hhead, ?_⟩⟩
      intro s _
      by_cases hs : s = a.state
      · simp [ControlState.caught, ControlState.setState, hs]
      · simp [ControlState.caught, ControlState.setState, hs]
    · split
      · obtain ⟨hsame, hcases⟩ := ih (k := (k.throwIn a.state).stop a.state)
        refine ⟨hsame.trans hlinks, ?_⟩
        rcases hcases with ⟨hnone, above, below, hrest, hsub, hstack⟩ |
          ⟨above, c, below, c', address, hrest, hcaught, hafter, hpos, hhead, hstack⟩
        · refine Or.inl ⟨hnone, a :: above, below, by rw [hrest, List.cons_append], hsub, fun s hs => ?_⟩
          rw [hstack s fun b hb => hs b (List.mem_cons_of_mem _ hb), hleft s (hs a List.mem_cons_self)]
        · refine Or.inr ⟨a :: above, c, below, c', address, by rw [hrest, List.cons_append], hcaught, hafter,
            hpos, by rw [← hlinks]; exact hhead, fun s hs => ?_⟩
          rw [hstack s fun b hb => hs b (List.mem_cons_of_mem _ hb), hleft s (hs a List.mem_cons_self)]
      · refine ⟨hlinks, Or.inl ⟨rfl, [a], rest, rfl, resumeCaller_sublist _ _, fun s hs => ?_⟩⟩
        exact hleft s (hs a List.mem_cons_self)

theorem apart_above {above below : List Activation}
    (h : ((frames (above ++ below) ++ fs).map Prod.fst).Nodup) {g : StateId × ContextId}
    (hg : g ∈ frames below ++ fs) : ∀ b ∈ above, b.state ≠ g.1 := by
  intro b hb heq
  rw [frames_append, List.append_assoc, List.map_append, List.nodup_append] at h
  exact h.2.2 _ (List.mem_map_of_mem (List.mem_map_of_mem hb)) _ (List.mem_map_of_mem hg) heq

theorem find_frame {above : List (StateId × ContextId)} {g : StateId × ContextId}
    (h : ((above ++ g :: fs).map Prod.fst).Nodup) :
    (above ++ g :: fs).find? (·.1 = g.1) = some g := by
  induction above with
  | nil => simp
  | cons first above ih =>
    rw [List.cons_append, List.map_cons, List.nodup_cons] at h
    have hne : first.1 ≠ g.1 := by
      intro heq
      apply h.1
      rw [heq]
      exact List.mem_map_of_mem (List.mem_append_right _ List.mem_cons_self)
    rw [List.cons_append, List.find?_cons_of_neg (by simpa using hne)]
    exact ih h.2

theorem catchOf_frame {outcome : Outcome} {above below : List Activation} {c : Activation}
    {c' : ContextId} {address : ℕ} {activations : List Activation}
    (hbefore : activations = above ++ c :: below) (hcaught : outcome.caughtBy = some c.state)
    (hafter : outcome.activations = { c with currentContext := c', instructionPtr := address } :: below)
    (hdistinct : ((frames activations ++ fs).map Prod.fst).Nodup) :
    catchOf k (frames activations) outcome =
      (unwound k.links k.nextContext c.currentContext c').map (⟨c.state, c', address, ·⟩) := by
  subst hbefore
  rw [frames_append, frames_cons] at hdistinct ⊢
  have hfind := find_frame (List.Nodup.sublist ((List.sublist_append_left _ fs).map Prod.fst) hdistinct)
  simp only [catchOf, hcaught, hafter, hfind, Option.bind_eq_bind, Option.bind_some,
    List.head?_cons, Option.pure_def, Option.map_eq_bind]
  rfl

theorem raise_counted {k₀ : ControlState} {message : String} {activations : List Activation}
    (hl : Linked k (frames activations ++ fs)) (h : Counted k (frames activations ++ fs) t)
    (hlinks : k₀.links = k.links)
    (ht : t.recover k₀ (frames activations) (k.raise message activations) = some t') :
    Counted (k.raise message activations).control
      (frames (k.raise message activations).activations ++ fs) t' := by
  obtain ⟨hsame, hcases⟩ := raise_cases (k := k) message activations
  unfold Tally.recover at ht
  rcases hcases with ⟨hnone, above, below, hbefore, hsub, hstack⟩ |
    ⟨above, c, below, c', address, hbefore, hcaught, hafter, hpos, -, hstack⟩
  · rw [hnone] at ht
    cases ht
    subst hbefore
    have hmem : ∀ g ∈ frames (k.raise message (above ++ below)).activations ++ fs, g ∈ frames below ++ fs :=
      (hsub.append_right fs).subset
    have hless : Counted k (frames (k.raise message (above ++ below)).activations ++ fs) t := by
      refine h.subset fun g hg => ?_
      rw [frames_append, List.append_assoc]
      exact List.mem_append_right _ (hmem g hg)
    refine ⟨?_, ?_, ?_⟩
    · intro g hg
      rw [hstack g.1 (apart_above hl.distinct (hmem g hg))]
      exact hless.depth g hg
    · rw [hsame]
      exact hless.entry
    · rw [hsame]
      exact hless.state
  · rw [hcaught] at ht
    dsimp only at ht
    rw [catchOf_frame hbefore hcaught hafter hl.distinct, hlinks] at ht
    obtain ⟨x, hx, rfl⟩ := Option.map_eq_some_iff.mp ht
    obtain ⟨frames, hunwound, rfl⟩ := Option.map_eq_some_iff.mp hx
    subst hbefore
    have happart := fun g hg => apart_above (g := g) hl.distinct hg
    rw [frames_append, frames_cons] at hl h
    have hsublist : ((c.state, c.currentContext) :: (Zeroscript.frames below ++ fs)).Sublist
        (Zeroscript.frames above ++ (c.state, c.currentContext) :: Zeroscript.frames below ++ fs) := by
      rw [List.append_assoc]
      exact List.sublist_append_right _ _
    have hbelow := h.subset hsublist.subset
    have hactive := unwound_active hpos hunwound
    have hdepth := hbelow.unwound_depth hpos ⟨_, List.mem_cons_self, .self
      (hl.context_pos _ (hsublist.subset List.mem_cons_self))⟩ hunwound
    have hc := hbelow.depth _ List.mem_cons_self
    have hown := hstack c.state (happart (c.state, c.currentContext) List.mem_cons_self)
    rw [if_pos rfl] at hown
    rw [hafter]
    refine hbelow.move (hl.sublist hsublist) hactive (fun _ => by rw [hsame]) (fun g hg => ?_) ?_
    · have hne := (hl.sublist hsublist).ne_head hg
      rw [hstack g.1 (happart g (List.mem_cons_of_mem _ hg)), if_neg hne, Int.add_zero]
    · rw [hown]
      dsimp only at hc hdepth ⊢
      omega

@[simp] theorem add_zero_zero (t : Tally) (c : ContextId) : t.add c 0 0 = t := by
  cases t
  simp [Tally.add]

theorem Counted.same (h : Counted k fs t)
    (hlinks : ∀ c, (k'.links c).returnContext = (k.links c).returnContext)
    (hstack : ∀ s, (k'.states s).stackPtr = (k.states s).stackPtr) : Counted k' fs t := by
  have hactive : ∀ f c, Active k'.links f c → Active k.links f c := by
    intro f c hc
    induction hc with
    | self hc => exact .self hc
    | caller hf h ih =>
      rw [hlinks] at ih
      exact .caller hf ih
  refine ⟨?_, ?_, ?_⟩
  · intro g hg
    rw [hstack]
    exact h.depth g hg
  · intro g hg c hc hreturn
    rw [hlinks] at hreturn ⊢
    exact h.entry g hg c (hactive _ _ hc) hreturn
  · intro g hg c hc
    exact h.state g hg c (hactive _ _ hc)

theorem Counted.arm (h : Counted k fs t) (c : ContextId) (armed : List Armed) :
    Counted k fs (t.arm c armed) :=
  ⟨h.depth, h.entry, h.state⟩

theorem Counted.moveStack {items x y : ℤ} (hl : Linked k ((s, f) :: fs))
    (h : Counted k ((s, f) :: fs) t) (hitems : items = x + y) :
    Counted (k.moveStack s items) ((s, f) :: fs) (t.add f x y) := by
  have hpos := hl.context_pos _ List.mem_cons_self
  refine h.move hl (.self hpos) (fun _ => rfl) ?_ ?_
  · intro g hg
    simp [ControlState.moveStack, ControlState.setState, hl.ne_head hg]
  · have hdepth := h.depth _ List.mem_cons_self
    simp only [ControlState.moveStack, ControlState.setState, Function.update_self]
    dsimp only at hdepth
    omega

theorem Counted.start {stack : StackId} {link : Link} {depth : ℤ} (hl : Linked k fs)
    (h : Counted k fs t) (hidle : ∀ g ∈ fs, g.1 ≠ s) (hreturn : link.returnContext = 0) :
    Counted (k.start s link stack depth) ((s, k.nextContext) :: fs)
      (t.enter k.nextContext s depth) := by
  refine h.enter hl rfl ?_ ?_ (List.Subset.refl _) (absurd hreturn)
  · intro g hg
    simp [ControlState.start, hidle g hg]
  · simp [ControlState.start]

/-- The message of a refused write is one more item in the executing frame of the instance. -/
theorem Counted.refuse {target : StateId} {c : ContextId} {address : ℕ} (hl : Linked k fs)
    (h : Counted k fs t) :
    Counted (k.caught target c address) fs
      { t with left := fun c => if (target, c) ∈ fs then t.left c + 1 else t.left c } := by
  have hunique : ∀ g ∈ fs, (target, g.2) ∈ fs ↔ g.1 = target := by
    intro g hg
    constructor
    · intro hmem
      have hpos := hl.context_pos g hg
      rw [← h.state g hg g.2 (.self hpos)]
      exact h.state _ hmem g.2 (.self hpos)
    · intro hs
      rw [← hs]
      exact hg
  refine ⟨?_, ?_, h.state⟩
  · intro g hg
    have hdepth := h.depth g hg
    simp only [Tally.depth, Tally.held, hunique g hg] at hdepth ⊢
    by_cases hs : g.1 = target
    · rw [if_pos hs]
      simp only [ControlState.caught, ControlState.setState, hs, Function.update_self]
      rw [hs] at hdepth
      omega
    · rw [if_neg hs, ← hdepth]
      simp [ControlState.caught, ControlState.setState, hs]
  · intro g hg c' hc' hreturn
    rw [show (k.caught target c address).links = k.links from rfl] at hc' hreturn ⊢
    -- a frame that waits is not executing
    have hwaits : (target, (k.links c').returnContext) ∉ fs := by
      intro hmem
      have hstate : t.state (k.links c').returnContext = target := h.state _ hmem _ (.self hreturn)
      rw [h.state g hg _ (hc'.return hreturn)] at hstate
      have heq := List.inj_on_of_nodup_map hl.distinct hg hmem hstate
      have hle := hc'.le hl.older
      rw [heq] at hle
      exact absurd (hl.older c' hc'.ne_zero) (Nat.not_lt_of_le hle)
    have hentry := h.entry g hg c' hc' hreturn
    simp only [Tally.depth, Tally.held] at hentry ⊢
    rw [if_neg hwaits]
    exact hentry

theorem Counted.setLink (h : Counted k fs t) (c : ContextId) (link : Link)
    (hreturn : link.returnContext = (k.links c).returnContext) : Counted (k.setLink c link) fs t := by
  refine h.same ?_ (fun _ => rfl)
  intro c'
  by_cases hc : c' = c
  · subst hc
    simpa [ControlState.setLink] using hreturn
  · simp [ControlState.setLink, hc]

theorem Counted.stop (h : Counted k fs t) (s : StateId) : Counted (k.stop s) fs t :=
  h.same (fun _ => rfl) (stackPtr_setState rfl)

theorem raisedIn_links {a : Activation} {action : Action} {message : String}
    (h : raisedIn k a action = some (k', message)) : k'.links = k.links := by
  cases action with
  | raise | throwing =>
    cases h
    rfl
  | native pops error =>
    cases error with
    | none => cases h
    | some message =>
      cases h
      rfl
  | reject target again =>
    cases again with
    | none => cases h
    | some message =>
      unfold raisedIn at h
      dsimp only at h
      split at h
      · cases h
        unfold ControlState.throwIn
        split <;> rfl
      · cases h
  | _ => cases h

theorem raisedIn_counted {a : Activation} {action : Action} {n : ℕ} {message : String}
    (hl : Linked k ((a.state, a.currentContext) :: fs))
    (h : Counted k ((a.state, a.currentContext) :: fs) t)
    (hraised : raisedIn k a action = some (k', message)) :
    Counted k' ((a.state, a.currentContext) :: fs)
      (t.act k ((a.state, a.currentContext) :: fs) a n action) := by
  cases action <;> try cases hraised
  case raise =>
    have hact : t.act k ((a.state, a.currentContext) :: fs) a n (.raise message) = t :=
      add_zero_zero t _
    rw [hact]
    exact h
  case throwing =>
    have hact : t.act k ((a.state, a.currentContext) :: fs) a n (.throwing message) = t :=
      add_zero_zero t _
    rw [hact]
    exact h.same (fun _ => rfl) (stackPtr_setState rfl)
  case native pops error =>
    cases error with
    | none => cases hraised
    | some message =>
      cases hraised
      refine h.moveStack hl ?_
      simp only [pushed, leaves]
      omega
  case reject target again =>
    cases again with
    | none => cases hraised
    | some message =>
      have hset : Counted (k.setState target { k.states target with returnCode := false })
          ((a.state, a.currentContext) :: fs) t := h.same (fun _ => rfl) (stackPtr_setState rfl)
      have hsame : (k.setState target { k.states target with returnCode := false }).handler target =
          k.handler target := by
        apply handler_setState
        rfl
      unfold raisedIn at hraised
      dsimp only at hraised hset hsame
      rw [hsame] at hraised
      split at hraised
      · rename_i hnone
        rw [Option.isNone_iff_eq_none] at hnone
        cases hraised
        rw [hnone] at hsame
        unfold Tally.act ControlState.throwIn
        dsimp only [pushed, leaves]
        rw [hsame, hnone, add_zero_zero]
        exact hset.same (fun _ => rfl) (stackPtr_setState rfl)
      · cases hraised

def CountedAfter (k : ControlState) (a : Activation) (rest : List Activation) (fs : List (StateId × ContextId))
    (action : Action) (t : Tally) : Prop :=
  Counted (k.perform (a :: rest) action).control
    (frames (k.perform (a :: rest) action).activations ++
      (fs ++ frames (k.perform (a :: rest) action).spawned.toList)) t

section

variable {a : Activation} {rest : List Activation}

theorem setCurrent_counted (h : Counted k fs t) (s : StateId) (c : ContextId) :
    Counted (k.setState s { k.states s with currentContext := c }) fs t :=
  h.same (fun _ => rfl) (stackPtr_setState rfl)

theorem setCatch_counted (h : Counted k (frames (a :: rest) ++ fs) t) (address n : ℕ) :
    CountedAfter k a rest fs (.setCatch address)
      (t.act k (frames (a :: rest) ++ fs) a n (.setCatch address)) := by
  unfold CountedAfter Tally.act
  dsimp only [pushed, leaves]
  rw [add_zero_zero]
  refine Counted.arm ?_ _ _
  by_cases hnone : (k.links a.currentContext).catchesList.isNone = true
  · simpa [ControlState.perform, hnone] using
      (setCurrent_counted h a.state a.currentContext).setLink a.currentContext
        { k.links a.currentContext with
          catchesList := some (address :: (k.links a.currentContext).catches) } rfl
  · simpa [ControlState.perform, hnone] using h.setLink a.currentContext
      { k.links a.currentContext with
        catchesList := some (address :: (k.links a.currentContext).catches) } rfl

theorem clearCatch_counted (h : Counted k (frames (a :: rest) ++ fs) t) (n : ℕ) :
    CountedAfter k a rest fs .clearCatch (t.act k (frames (a :: rest) ++ fs) a n .clearCatch) := by
  unfold CountedAfter Tally.act
  dsimp only [pushed, leaves]
  rw [add_zero_zero]
  refine Counted.arm ?_ _ _
  simpa [ControlState.perform] using h.setLink a.currentContext
    { k.links a.currentContext with
      catchesList := some (k.links a.currentContext).catches.tail } rfl

theorem ret_ended_counted (h : Counted k (frames (a :: rest) ++ fs) t)
    (hreturn : (k.links a.currentContext).returnContext = 0) (n : ℕ) :
    CountedAfter k a rest fs .ret (t.act k (frames (a :: rest) ++ fs) a n .ret) := by
  unfold CountedAfter Tally.act ControlState.perform
  dsimp only [pushed, leaves]
  rw [if_pos hreturn, if_pos hreturn, add_zero_zero]
  have hended : (frames (resumeCaller a.resume rest) ++ fs) ⊆ frames (a :: rest) ++ fs :=
    (((resumeCaller_sublist a.resume rest).cons _).append_right fs).subset
  have hcurrently := setCurrent_counted (h.subset hended) a.state a.currentContext
  have hcode : Counted ((k.setState a.state { k.states a.state with
      currentContext := a.currentContext }).setState a.state
        { (k.setState a.state { k.states a.state with
          currentContext := a.currentContext }).states a.state with returnCode := false })
      (frames (resumeCaller a.resume rest) ++ fs) t :=
    hcurrently.same (fun _ => rfl) (stackPtr_setState rfl)
  simpa using hcode.stop a.state

theorem ret_caller_counted (hl : Linked k (frames (a :: rest) ++ fs))
    (h : Counted k (frames (a :: rest) ++ fs) t)
    (hreturn : (k.links a.currentContext).returnContext ≠ 0) (n : ℕ) :
    CountedAfter k a rest fs .ret (t.act k (frames (a :: rest) ++ fs) a n .ret) := by
  have hcons : Linked k ((a.state, a.currentContext) :: (frames rest ++ fs)) := hl
  have hcount : Counted k ((a.state, a.currentContext) :: (frames rest ++ fs)) t := h
  have hpos := hl.context_pos (a.state, a.currentContext) List.mem_cons_self
  have hactive : Active k.links a.currentContext (k.links a.currentContext).returnContext :=
    (Active.self hpos).return hreturn
  have hstack : ∀ s, ((k.setState a.state { k.states a.state with
      currentContext := a.currentContext }).states s).stackPtr = (k.states s).stackPtr :=
    stackPtr_setState rfl
  have hsum : (k.states a.state).stackPtr =
      t.depth (k.links a.currentContext).returnContext + (0 + t.held a.currentContext) := by
    have hdepth := hcount.depth _ List.mem_cons_self
    have hentry := hcount.entry _ List.mem_cons_self _ (.self hpos) hreturn
    have hown : t.depth a.currentContext = t.entry a.currentContext + t.held a.currentContext := rfl
    dsimp only at hdepth hentry
    omega
  have hmoved : Counted (k.setState a.state { k.states a.state with
      currentContext := a.currentContext })
      ((a.state, (k.links a.currentContext).returnContext) :: (frames rest ++ fs))
      (t.add (k.links a.currentContext).returnContext 0 (t.held a.currentContext)) :=
    hcount.move hcons hactive (fun _ => rfl) (fun g _ => hstack g.1) ((hstack a.state).trans hsum)
  unfold CountedAfter Tally.act ControlState.perform
  dsimp only [pushed, leaves]
  rw [if_neg hreturn, if_neg hreturn, add_zero_zero]
  simpa using hmoved

theorem callOwn_counted (hl : Linked k (frames (a :: rest) ++ fs))
    (h : Counted k (frames (a :: rest) ++ fs) t) (entry register arguments n : ℕ) :
    CountedAfter k a rest fs (.callOwn entry register arguments)
      (t.act k (frames (a :: rest) ++ fs) a n (.callOwn entry register arguments)) := by
  have hcons : Linked k ((a.state, a.currentContext) :: (frames rest ++ fs)) := hl
  have hpopped : Counted (k.moveStack a.state (-arguments)) _ (t.add a.currentContext (-arguments) 0) :=
    Counted.moveStack hcons h (Int.add_zero _).symm
  have hlinked := hcons.moveStack a.state (-arguments)
  have hentered : Counted (k.enter a.state ⟨a.currentContext, a.instructionPtr, register, none⟩
      arguments) ((a.state, k.nextContext) :: (frames rest ++ fs))
      ((t.add a.currentContext (-arguments) 0).enter k.nextContext a.state
        ((k.states a.state).stackPtr - arguments)) := by
    refine Counted.enter (k := k.moveStack a.state (-arguments)) hlinked hpopped rfl ?_ ?_
      (List.subset_cons_self _ _) ?_
    · intro g hg
      have hne := hcons.ne_head hg
      simp [ControlState.enter, ControlState.moveStack, ControlState.setState, hne]
    · simp [ControlState.enter]
    · intro _
      refine ⟨List.mem_cons_self, ?_⟩
      have hend := hpopped.depth _ List.mem_cons_self
      rw [← hend]
      simp [ControlState.moveStack, ControlState.setState, Int.sub_eq_add_neg]
  simpa [CountedAfter, Tally.act, pushed, leaves, ControlState.perform] using hentered

theorem callAsync_counted (hl : Linked k (frames (a :: rest) ++ fs))
    (h : Counted k (frames (a :: rest) ++ fs) t) (entry arguments n : ℕ) :
    CountedAfter k a rest fs (.callAsync entry arguments)
      (t.act k (frames (a :: rest) ++ fs) a n (.callAsync entry arguments)) := by
  have hcons : Linked k ((a.state, a.currentContext) :: (frames rest ++ fs)) := hl
  have hpushed : Counted (k.moveStack a.state 1) _
      (t.add a.currentContext (-arguments) (arguments + 1)) := Counted.moveStack hcons h (by omega)
  have hstart : Counted ((k.moveStack a.state 1).start k.nextState {} k.nextStack
      ((k.states a.state).stackPtr - arguments)) _
      ((t.add a.currentContext (-arguments) (arguments + 1)).enter k.nextContext k.nextState
        ((k.states a.state).stackPtr - arguments)) :=
    hpushed.start (hcons.moveStack a.state 1) (fun g hg => hl.ne_nextState hg) rfl
  unfold CountedAfter
  refine Counted.subset (by simpa [Tally.act, pushed, leaves, ControlState.perform] using hstart) ?_
  simp only [ControlState.perform, frames_advance, Option.toList_some, frames_cons, frames_nil]
  rw [← List.append_assoc]
  exact (List.perm_append_singleton _ _).subset

theorem callOther_counted (hl : Linked k (frames (a :: rest) ++ fs))
    {target : StateId} {cloned : Bool} {entry register arguments : ℕ}
    (hlegal : Legal k a.state (.callOther target cloned entry register arguments))
    (h : Counted k (frames (a :: rest) ++ fs) t) (n : ℕ) :
    CountedAfter k a rest fs (.callOther target cloned entry register arguments)
      (t.act k (frames (a :: rest) ++ fs) a n (.callOther target cloned entry register arguments)) := by
  have hcons : Linked k ((a.state, a.currentContext) :: (frames rest ++ fs)) := hl
  have hpushed : Counted (k.moveStack a.state 1) _
      (t.add a.currentContext (-arguments) (arguments + 1)) := Counted.moveStack hcons h (by omega)
  have hstart : Counted ((k.moveStack a.state 1).start (if cloned then k.nextState else target)
      { requestedReturnRegister := register } (k.states a.state).stackStart
      ((k.states a.state).stackPtr - arguments)) _
      ((t.add a.currentContext (-arguments) (arguments + 1)).enter k.nextContext
        (if cloned then k.nextState else target) ((k.states a.state).stackPtr - arguments)) :=
    hpushed.start (hcons.moveStack a.state 1) (hl.callee_idle hlegal) rfl
  simpa [CountedAfter, Tally.act, pushed, leaves, ControlState.perform, ControlState.moveStack,
    ControlState.setState] using hstart

theorem construct_counted (hl : Linked k (frames (a :: rest) ++ fs))
    (h : Counted k (frames (a :: rest) ++ fs) t) (entry n : ℕ) :
    CountedAfter k a rest fs (.construct entry)
      (t.act k (frames (a :: rest) ++ fs) a n (.construct entry)) := by
  have hcons : Linked k ((a.state, a.currentContext) :: (frames rest ++ fs)) := hl
  have hpos := hl.context_pos (a.state, a.currentContext) List.mem_cons_self
  have hkept : Counted k ((a.state, a.currentContext) :: (frames rest ++ fs))
      (t.add a.currentContext (-n) n) := by
    refine Counted.move hcons h (.self hpos) (fun _ => rfl) (fun _ _ => rfl) ?_
    have hdepth := h.depth (a.state, a.currentContext) List.mem_cons_self
    dsimp only at hdepth
    omega
  have hstart : Counted (k.start k.nextState {} (k.states a.state).stackStart
      (k.states a.state).stackPtr) _ _ := hkept.start hl (fun g hg => hl.ne_nextState hg) rfl
  simpa [CountedAfter, Tally.act, pushed, leaves, ControlState.perform] using hstart

theorem load_counted (hl : Linked k (frames (a :: rest) ++ fs))
    (h : Counted k (frames (a :: rest) ++ fs) t) (className path : String) (entry n : ℕ) :
    CountedAfter k a rest fs (.load className path entry)
      (t.act k (frames (a :: rest) ++ fs) a n (.load className path entry)) := by
  have hstart : Counted (k.start k.nextState {} k.nextStack 0) _ _ :=
    h.start hl (fun g hg => hl.ne_nextState hg) rfl
  simpa [CountedAfter, Tally.act, pushed, leaves, ControlState.perform] using hstart

theorem reject_counted {target : StateId} {again : Option String} (hl : Linked k (frames (a :: rest) ++ fs))
    (h : Counted k (frames (a :: rest) ++ fs) t)
    (hraised : raisedIn k a (.reject target again) = none) (n : ℕ) :
    CountedAfter k a rest fs (.reject target again)
      (t.act k (frames (a :: rest) ++ fs) a n (.reject target again)) := by
  have hset : Counted (k.setState target { k.states target with returnCode := false })
      (frames (a :: rest) ++ fs) t := h.same (fun _ => rfl) (stackPtr_setState rfl)
  have hlinked : Linked (k.setState target { k.states target with returnCode := false })
      (frames (a :: rest) ++ fs) := hl.setState rfl (hl.current_lt target)
  have hsame : (k.setState target { k.states target with returnCode := false }).handler target =
      k.handler target := by
    apply handler_setState
    rfl
  have hagain : k.handler target = none → again = none := by
    intro hnone
    cases again with
    | none => rfl
    | some message =>
      unfold raisedIn at hraised
      dsimp only at hraised hsame
      rw [hsame, hnone] at hraised
      cases hraised
  unfold CountedAfter ControlState.perform Tally.act
  dsimp only [pushed, leaves] at hset hlinked hsame ⊢
  rw [add_zero_zero, hsame]
  generalize k.setState target _ = k' at hset hlinked hsame ⊢
  cases hfound : k.handler target with
  | none =>
    rw [hfound] at hsame
    have hthrown : k'.throwIn target = k'.uncaught target := by
      unfold ControlState.throwIn
      rw [hsame]
    have hgone : Counted (k'.uncaught target) (frames (a :: rest) ++ fs) t :=
      hset.same (fun _ => rfl) (stackPtr_setState rfl)
    obtain rfl := hagain hfound
    rw [hthrown]
    simpa using hgone
  | some found =>
    obtain ⟨c, address⟩ := found
    rw [hfound] at hsame
    have hthrown : k'.throwIn target = k'.caught target c address := by
      unfold ControlState.throwIn
      rw [hsame]
    rw [hthrown]
    simpa using hset.refuse hlinked

theorem act_counted {action : Action} {n : ℕ} (hl : Linked k (frames (a :: rest) ++ fs))
    (hlegal : Legal k a.state action) (h : Counted k (frames (a :: rest) ++ fs) t)
    (hraised : raisedIn k a action = none) :
    CountedAfter k a rest fs action (t.act k (frames (a :: rest) ++ fs) a n action) := by
  have hcons : Linked k ((a.state, a.currentContext) :: (frames rest ++ fs)) := hl
  cases action with
  | next | jump => simpa [CountedAfter, Tally.act, pushed, leaves, ControlState.perform] using h
  | exit message =>
    simpa [CountedAfter, Tally.act, pushed, leaves, ControlState.perform] using
      h.subset (List.subset_append_right _ fs)
  | push | pop =>
    simpa [CountedAfter, Tally.act, pushed, leaves, ControlState.perform] using
      Counted.moveStack hcons h (Int.add_zero _).symm
  | native pops error =>
    cases error with
    | none =>
      have hmoved : Counted (k.moveStack a.state (-pops)) (frames (a :: rest) ++ fs)
          (t.add a.currentContext (-n) (n - pops)) := by
        apply Counted.moveStack hcons h
        omega
      simpa [CountedAfter, Tally.act, pushed, leaves, ControlState.perform] using hmoved
    | some message => cases hraised
  | raise | throwing => cases hraised
  | setCatch address => exact setCatch_counted h address n
  | clearCatch => exact clearCatch_counted h n
  | ret =>
    by_cases hreturn : (k.links a.currentContext).returnContext = 0
    · exact ret_ended_counted h hreturn n
    · exact ret_caller_counted hl h hreturn n
  | callOwn entry register arguments => exact callOwn_counted hl h entry register arguments n
  | callAsync entry arguments => exact callAsync_counted hl h entry arguments n
  | callOther => exact callOther_counted hl hlegal h n
  | construct entry => exact construct_counted hl h entry n
  | load className path entry => exact load_counted hl h className path entry n
  | write target =>
    have hset : Counted (k.setState target { k.states target with returnCode := false })
        (frames (a :: rest) ++ fs) t := h.same (fun _ => rfl) (stackPtr_setState rfl)
    simpa [CountedAfter, Tally.act, pushed, leaves, ControlState.perform] using hset
  | reject target again => exact reject_counted hl h hraised n

theorem perform_counted {action : Action} {n : ℕ} (hl : Linked k (frames (a :: rest) ++ fs))
    (hlegal : Legal k a.state action) (h : Counted k (frames (a :: rest) ++ fs) t)
    (ht : (t.act k (frames (a :: rest) ++ fs) a n action).recover k (frames (a :: rest))
      (k.perform (a :: rest) action) = some t') : CountedAfter k a rest fs action t' := by
  cases hraised : raisedIn k a action with
  | some raising =>
    obtain ⟨k', message⟩ := raising
    have hcounted := raisedIn_counted (n := n) hl h hraised
    unfold CountedAfter
    rw [perform_raised hraised] at ht ⊢
    rw [raise_spawned]
    simpa using raise_counted (raisedIn_linked hl List.mem_cons_self hraised) hcounted
      (raisedIn_links hraised).symm ht
  | none =>
    have hact := act_counted (n := n) hl hlegal h hraised
    have hquiet : (k.perform (a :: rest) action).caughtBy = none := (perform_unraised hraised).2.2
    unfold Tally.recover at ht
    rw [hquiet] at ht
    cases ht
    exact hact

end

theorem ArmedIn.handler {c : ContextId} {address : ℕ} (h : ArmedIn k t)
    (hhead : (k.links c).catches.head? = some address) :
    ∃ armed others, t.armed c = armed :: others ∧ armed.address = address := by
  rw [← h.handlers, List.head?_map] at hhead
  obtain ⟨armed, hfirst, haddress⟩ := Option.map_eq_some_iff.mp hhead
  obtain ⟨others, hlist⟩ := List.head?_eq_some_iff.mp hfirst
  exact ⟨armed, others, hlist, haddress⟩

theorem ArmedIn.same (h : ArmedIn k t) (hlinks : ∀ c, (k'.links c).catches = (k.links c).catches)
    (harmed : t'.armed = t.armed) (hentry : t'.entry = t.entry) : ArmedIn k' t' := by
  refine ⟨?_, ?_⟩
  · intro c x hx
    rw [harmed] at hx
    rw [hentry]
    exact h.depth c x hx
  · intro c
    rw [harmed, hlinks]
    exact h.handlers c

theorem ArmedIn.enter {link : Link} {depth : ℤ} (h : ArmedIn k t)
    (hlinks : k'.links = Function.update k.links k.nextContext link) (hlink : link.catches = []) :
    ArmedIn k' (t.enter k.nextContext s depth) := by
  refine ⟨?_, ?_⟩
  · intro c x hx
    by_cases hc : c = k.nextContext
    · subst hc
      simp [Tally.enter] at hx
    · simp only [Tally.enter, Function.update_of_ne hc] at hx ⊢
      exact h.depth c x hx
  · intro c
    rw [hlinks]
    by_cases hc : c = k.nextContext
    · subst hc
      simp [Tally.enter, hlink]
    · simp only [Tally.enter, Function.update_of_ne hc]
      exact h.handlers c

theorem ArmedIn.arm {c : ContextId} {link : Link} {armed : List Armed} (h : ArmedIn k t)
    (hdepth : ∀ x ∈ armed, x.depth = t.entry c + (x.arguments + x.left))
    (hlink : armed.map Armed.address = link.catches) :
    ArmedIn (k.setLink c link) (t.arm c armed) := by
  refine ⟨?_, ?_⟩
  · intro c' x hx
    by_cases hc : c' = c
    · subst hc
      simp only [Tally.arm, Function.update_self] at hx
      exact hdepth x hx
    · simp only [Tally.arm, Function.update_of_ne hc] at hx
      exact h.depth c' x hx
  · intro c'
    by_cases hc : c' = c
    · subst hc
      simpa [Tally.arm, ControlState.setLink] using hlink
    · simpa [Tally.arm, ControlState.setLink, hc] using h.handlers c'

theorem recover_armed {k₀ : ControlState} {outcome : Outcome}
    (ht : t.recover k₀ fs outcome = some t') : t'.armed = t.armed ∧ t'.entry = t.entry := by
  unfold Tally.recover at ht
  split at ht
  · cases ht
    exact ⟨rfl, rfl⟩
  · obtain ⟨x, -, rfl⟩ := Option.map_eq_some_iff.mp ht
    exact ⟨rfl, rfl⟩

theorem raisedIn_armed {a : Activation} {action : Action} {n : ℕ} {message : String}
    (h : ArmedIn k t) (hlinks : k'.links = k.links)
    (hraised : raisedIn k a action = some (k', message)) : ArmedIn k' (t.act k fs a n action) := by
  have hact : (t.act k fs a n action).armed = t.armed ∧ (t.act k fs a n action).entry = t.entry := by
    cases action with
    | reject target again =>
      unfold Tally.act
      dsimp only
      split <;> exact ⟨rfl, rfl⟩
    | raise | throwing | native => exact ⟨rfl, rfl⟩
    | _ => cases hraised
  exact h.same (fun c => by rw [hlinks]) hact.1 hact.2

theorem perform_armed {a : Activation} {rest : List Activation} {action : Action} {n : ℕ}
    (hdepth : (k.states a.state).stackPtr = t.depth a.currentContext) (h : ArmedIn k t)
    (ht : (t.act k fs a n action).recover k fs' (k.perform (a :: rest) action) = some t') :
    ArmedIn (k.perform (a :: rest) action).control t' := by
  obtain ⟨harmed, hentry⟩ := recover_armed ht
  suffices hact : ArmedIn (k.perform (a :: rest) action).control (t.act k fs a n action) from
    hact.same (fun _ => rfl) harmed hentry
  have hcounted : ArmedIn k (t.add a.currentContext (pushed n action) (leaves n action)) :=
    h.same (fun _ => rfl) rfl rfl
  cases hraised : raisedIn k a action with
  | some raising =>
    obtain ⟨k', message⟩ := raising
    have hlinks := (raise_cases (k := k') message (a :: rest)).1
    rw [perform_raised hraised]
    exact (raisedIn_armed h (raisedIn_links hraised) hraised).same (fun c => by rw [hlinks]) rfl rfl
  | none =>
  cases action with
  | next | jump | push | pop | exit | write => exact hcounted.same (fun _ => rfl) rfl rfl
  | native pops error =>
    cases error with
    | none => exact hcounted.same (fun _ => rfl) rfl rfl
    | some message => cases hraised
  | raise | throwing => cases hraised
  | setCatch address =>
    have hset : ∀ k' : ControlState, k'.links = k.links → ArmedIn (k'.setLink a.currentContext
        { k.links a.currentContext with
          catchesList := some (address :: (k.links a.currentContext).catches) })
        (t.act k fs a n (.setCatch address)) := by
      intro k' hlinks
      have hk' : ArmedIn k' (t.add a.currentContext 0 0) := h.same (fun c => by rw [hlinks]) rfl rfl
      refine hk'.arm ?_ ?_
      · intro x hx
        rcases List.mem_cons.mp hx with rfl | hx
        · exact hdepth
        · exact h.depth _ x hx
      · rw [List.map_cons, h.handlers]
        rfl
    simp only [ControlState.perform]
    split
    · exact hset _ rfl
    · exact hset k rfl
  | clearCatch =>
    refine hcounted.arm ?_ ?_
    · intro x hx
      exact h.depth _ x (List.mem_of_mem_tail hx)
    · rw [List.map_tail, h.handlers]
      rfl
  | ret =>
    have hlinks : (k.perform (a :: rest) .ret).control.links = k.links := by
      simp only [ControlState.perform]
      split <;> rfl
    refine h.same (fun c => by rw [hlinks]) ?_ ?_
    · unfold Tally.act
      dsimp only
      split <;> rfl
    · unfold Tally.act
      dsimp only
      split <;> rfl
  | callOwn | callAsync | callOther | construct | load => exact hcounted.enter rfl rfl
  | reject target again =>
    have hact : (t.act k fs a n (.reject target again)).armed = t.armed ∧
        (t.act k fs a n (.reject target again)).entry = t.entry := by
      unfold Tally.act
      dsimp only
      split <;> exact ⟨rfl, rfl⟩
    have hthrown : ∀ k' : ControlState, (k'.throwIn target).links = k'.links := by
      intro k'
      unfold ControlState.throwIn
      split <;> rfl
    simp only [ControlState.perform]
    split
    · rename_i hnone
      unfold raisedIn at hraised
      dsimp only at hraised
      rw [hnone] at hraised
      cases hraised
    · refine h.same ?_ hact.1 hact.2
      intro c
      rw [hthrown]
      rfl

theorem act_perm {a : Activation} {n : ℕ} (hp : fs.Perm fs') (action : Action) :
    t.act k fs a n action = t.act k fs' a n action := by
  cases action with
  | reject target again => simp only [Tally.act, hp.mem_iff]
  | _ => rfl

section

variable {α : Type} [NumOps α] {classes : String → Option Code} {m : Machine α}

theorem Tallied.reachable (h : Tallied classes m t) : m.Reachable classes := by
  induction h with
  | boot hcode hboot => exact ⟨_, _, _, _, hcode, hboot, .refl⟩
  | step h hstep ht ih =>
    obtain ⟨className, code, input, m₀, hcode, hboot, hpath⟩ := ih
    exact ⟨className, code, input, m₀, hcode, hboot, hpath.tail ⟨_, hstep.step⟩⟩

theorem boot_counted {className : String} {code : Code} {input : List String}
    (hboot : boot className code input = some m) :
    Counted m.control (frames m.activations) .boot ∧ ArmedIn m.control .boot := by
  obtain ⟨staticEntry, entry, hb⟩ := boot_of hboot
  have hlinks : ∀ c, m.control.links c = {} := by
    intro c
    rw [hb.control]
    simp [ControlState.start]
  have hactive : ∀ {f c : ContextId}, Active m.control.links f c → c = f := by
    intro f c hc
    cases hc with
    | self => rfl
    | caller hf hc =>
      rw [hlinks] at hc
      exact absurd rfl hc.start_ne_zero
  have hframes : ∀ g ∈ frames m.activations, g = (1, 2) ∨ g = (0, 1) := by
    unfold Machine.activations
    rw [hb.threads]
    simp
  refine ⟨⟨?_, ?_, ?_⟩, ⟨?_, ?_⟩⟩
  · intro g hg
    rw [hb.control]
    rcases hframes g hg with rfl | rfl <;> rfl
  · intro g hg c hc hreturn
    rw [hlinks] at hreturn
    exact absurd rfl hreturn
  · intro g hg c hc
    rw [hactive hc]
    rcases hframes g hg with rfl | rfl <;> rfl
  · intro c x hx
    cases hx
  · intro c
    rw [hlinks]
    rfl

/-- The invariant of runs. -/
theorem tallied_counted (h : Tallied classes m t) :
    Counted m.control (frames m.activations) t ∧ ArmedIn m.control t := by
  induction h with
  | boot hcode hboot => exact boot_counted hboot
  | @step m m' t t' thread a rest i e outcome h hstep ht ih =>
    obtain ⟨hcounted, harmed⟩ := ih
    obtain ⟨others, hbefore, hafter⟩ := hstep.others
    have hperm : (frames m.activations).Perm (frames (a :: rest) ++ frames others) := by
      rw [← frames_append]
      exact hbefore.map fun a => (a.state, a.currentContext)
    have hl := (reachable_linked h.reachable).perm hperm.symm
    have hcount := hcounted.subset hperm.symm.subset
    have hdepth := hcount.depth (a.state, a.currentContext) List.mem_cons_self
    rw [act_perm hperm, ← hstep.perform] at ht
    have hperform := perform_counted (a := { a with objectToSearchOn := e.objectToSearchOn }) hl
      (effect_asks hstep.effect).legal hcount ht
    have harms := perform_armed (a := { a with objectToSearchOn := e.objectToSearchOn }) hdepth
      harmed ht
    unfold CountedAfter at hperform
    rw [hstep.perform] at hperform harms
    rw [hstep.control]
    refine ⟨hperform.subset ?_, harms⟩
    rw [← frames_append, ← frames_append]
    exact (hafter.map fun a => (a.state, a.currentContext)).subset

def tallyStep (classes : String → Option Code) (p : Machine α × Tally) (thread : ℕ) :
    Option (Machine α × Tally) := do
  let m' ← p.1.step classes thread
  let (activations, i, action, outcome) ← p.1.outcome classes thread
  let a ← activations.head?
  let t ← (p.2.act p.1.control (frames p.1.activations) a i.r2.reg action).recover p.1.control
    (frames activations) outcome
  return (m', t)

def tallySteps (classes : String → Option Code) : List ℕ → Machine α × Tally →
    Option (Machine α × Tally)
  | [], p => some p
  | thread :: schedule, p => (tallyStep classes p thread).bind (tallySteps classes schedule)

def runTallied (fuel : ℕ) (program : List ClassDeclaration) (schedule : List ℕ) :
    Option (Machine α × Tally) := do
  let m ← boot "Main" (← imagesOf fuel program "Main") []
  tallySteps (imagesOf fuel program) schedule (m, .boot)

theorem tallyStep_tallied {p p' : Machine α × Tally} {thread : ℕ} (h : Tallied classes p.1 p.2)
    (hstep : tallyStep classes p thread = some p') : Tallied classes p'.1 p'.2 := by
  obtain ⟨m', hm', hstep⟩ := Option.bind_eq_some_iff.mp hstep
  obtain ⟨a, rest, i, e, outcome, hs⟩ := Machine.step_cases hm'
  rw [hs.outcome] at hstep
  dsimp only [Option.bind_eq_bind, Option.bind_some, List.head?_cons] at hstep
  obtain ⟨t, ht, hstep⟩ := Option.bind_eq_some_iff.mp hstep
  cases hstep
  exact .step h hs ht

theorem tallySteps_tallied {schedule : List ℕ} {p p' : Machine α × Tally}
    (h : Tallied classes p.1 p.2) (hsteps : tallySteps classes schedule p = some p') :
    Tallied classes p'.1 p'.2 := by
  induction schedule generalizing p with
  | nil =>
    cases hsteps
    exact h
  | cons thread schedule ih =>
    obtain ⟨p₁, hstep, hrest⟩ := Option.bind_eq_some_iff.mp hsteps
    exact ih (tallyStep_tallied h hstep) hrest

theorem runTallied_tallied {fuel : ℕ} {program : List ClassDeclaration} {schedule : List ℕ}
    {p : Machine α × Tally} (h : runTallied fuel program schedule = some p) :
    Tallied (imagesOf fuel program) p.1 p.2 := by
  obtain ⟨code, hcode, hrest⟩ := Option.bind_eq_some_iff.mp h
  obtain ⟨m, hboot, hrun⟩ := Option.bind_eq_some_iff.mp hrest
  exact tallySteps_tallied (p := (m, .boot)) (.boot hcode hboot) hrun

end

end Zeroscript.StackTally
