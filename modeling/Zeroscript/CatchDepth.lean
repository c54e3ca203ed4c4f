import Zeroscript.Number
import Zeroscript.StackTally

/-! # The value stack in a `catch` body

A `SET_CATCH` stores an address only. Where its handler begins, the stack has what it had when the
exception was raised, and the message. -/
namespace Zeroscript.CatchDepth

open StackTally
open CurrentContext (raisedIn raisedIn_linked perform_raised perform_unraised)

/-- The arguments that wait for a call when an exception is caught, in the frames that it leaves and
in the frame of the handler, beyond those of the `SET_CATCH`. -/
def waiting (t : Tally) (x : Catch) (armed : Armed) : ℤ :=
  (x.unwound.map t.arguments).sum + (t.arguments x.frame - armed.arguments)

/-- The items that calls have left in these frames since the `SET_CATCH`. -/
def leftSince (t : Tally) (x : Catch) (armed : Armed) : ℤ :=
  (x.unwound.map t.left).sum + (t.left x.frame - armed.left)

variable {k : ControlState} {fs : List (StateId × ContextId)} {t : Tally}

theorem sum_held (frames : List ContextId) :
    (frames.map t.held).sum = (frames.map t.arguments).sum + (frames.map t.left).sum := by
  induction frames with
  | nil => rfl
  | cons c frames ih =>
    simp only [List.map_cons, List.sum_cons, Tally.held] at ih ⊢
    omega

/-- The handler is the last one that its frame has armed, and the stack has then what all the frames
that are unwound have on it. -/
theorem raise_depth {k₀ : ControlState} {message : String} {activations : List Activation} {x : Catch}
    (hl : Linked k (frames activations ++ fs)) (h : Counted k (frames activations ++ fs) t)
    (harmed : ArmedIn k t) (hlinks : k₀.links = k.links)
    (hcatch : catchOf k₀ (frames activations) (k.raise message activations) = some x) :
    ∃ armed others, t.armed x.frame = armed :: others ∧ armed.address = x.address ∧
      ((k.raise message activations).control.states x.state).stackPtr - 1 - armed.depth =
        waiting t x armed + leftSince t x armed := by
  obtain ⟨-, hcases⟩ := raise_cases (k := k) message activations
  rcases hcases with ⟨hnone, -⟩ | ⟨above, c, below, c', address, hbefore, hcaught, hafter, hpos, hhead,
    hstack⟩
  · rw [catchOf, hnone] at hcatch
    cases hcatch
  · have hmem : (c.state, c.currentContext) ∈ frames activations ++ fs := by
      rw [hbefore]
      simp
    have hs := hstack c.state
      (apart_above (hbefore ▸ hl.distinct) (g := (c.state, c.currentContext)) List.mem_cons_self)
    rw [if_pos rfl] at hs
    rw [catchOf_frame hbefore hcaught hafter hl.distinct, hlinks] at hcatch
    obtain ⟨frames, hunwound, rfl⟩ := Option.map_eq_some_iff.mp hcatch
    obtain ⟨armed, others, harms, haddress⟩ := harmed.handler hhead
    refine ⟨armed, others, harms, haddress, ?_⟩
    have hunwinds := h.unwound_depth hpos ⟨_, hmem, .self (hl.context_pos _ hmem)⟩ hunwound
    have hdepth := h.depth _ hmem
    have hset := harmed.depth c' armed (by rw [harms]; exact List.mem_cons_self)
    have hdef : t.depth c' = t.entry c' + (t.arguments c' + t.left c') := rfl
    rw [sum_held] at hunwinds
    simp only [waiting, leftSince, hs]
    dsimp only at hdepth hunwinds
    omega

section

variable {α : Type} [NumOps α] {classes : String → Option Code}

/-- In every run: when an exception is caught, the stack is as deep without the message, which the
`POP` of the `catch` body takes, as at the `SET_CATCH` of the handler just when the frames that the
exception leaves and the frame of the handler have as many arguments and left items on it as this one
had there. -/
theorem catch_depth_iff {m m' : Machine α} {t t' : Tally} {thread : ℕ} {a : Activation}
    {rest : List Activation} {i : Instruction} {e : Effect α} {outcome : Outcome} {x : Catch}
    (h : Tallied classes m t) (hstep : StepOf classes m m' thread a rest i e outcome)
    (ht : t.act m.control (frames m.activations) a i.r2.reg e.action = t')
    (hcatch : catchOf m.control (frames (a :: rest)) outcome = some x) :
    ∃ armed others, t'.armed x.frame = armed :: others ∧ armed.address = x.address ∧
      ((m'.control.states x.state).stackPtr - 1 = armed.depth ↔
        waiting t' x armed + leftSince t' x armed = 0) := by
  obtain ⟨hcounted, harmed⟩ := tallied_counted h
  obtain ⟨others, hbefore, -⟩ := hstep.others
  have hperm : (frames m.activations).Perm (frames (a :: rest) ++ frames others) := by
    rw [← frames_append]
    exact hbefore.map fun a => (a.state, a.currentContext)
  have hl : Linked m.control
      (frames ({ a with objectToSearchOn := e.objectToSearchOn } :: rest) ++ frames others) :=
    (reachable_linked h.reachable).perm hperm.symm
  have hcount := hcounted.subset hperm.symm.subset
  have hperform := hstep.perform
  cases hraised : raisedIn m.control { a with objectToSearchOn := e.objectToSearchOn } e.action with
  | none =>
    have hnone : (m.control.perform ({ a with objectToSearchOn := e.objectToSearchOn } :: rest)
        e.action).caughtBy = none := (perform_unraised hraised).2.2
    rw [hperform] at hnone
    rw [catchOf, hnone] at hcatch
    cases hcatch
  | some raising =>
    obtain ⟨k', message⟩ := raising
    rw [perform_raised hraised] at hperform
    have hlinks := raisedIn_links hraised
    have hact : t.act m.control (frames (a :: rest) ++ frames others)
        { a with objectToSearchOn := e.objectToSearchOn } i.r2.reg e.action = t' := by
      rw [← ht, act_perm hperm]
      rfl
    have hcount' := raisedIn_counted (n := i.r2.reg) hl hcount hraised
    have harmed' : ArmedIn k' t' := hact ▸ raisedIn_armed harmed hlinks hraised
    have hl' := raisedIn_linked hl List.mem_cons_self hraised
    rw [← hperform] at hcatch
    obtain ⟨armed, others, harms, haddress, hdepth⟩ :=
      raise_depth hl' (hact ▸ hcount') harmed' hlinks.symm hcatch
    refine ⟨armed, others, harms, haddress, ?_⟩
    rw [hstep.control, ← hperform, ← hdepth]
    omega

end

/-- `class Main { fun f(x, y) { } try { … } catch (e) { } }`. -/
def sampleProgram (body : List Stmt) : List ClassDeclaration :=
  [⟨"Main", [], [.function false false false "f" ["x", "y"] [], .tryCatch "e" body [] none,
    .function true false false "__static__constructor__" [] []], []⟩]

/-- `f(1 / 0, 2);`. The last argument is pushed first. -/
def argumentProgram : List ClassDeclaration :=
  sampleProgram [.eval (.methodCall (.ident "f") [.binary .div (.num "1") (.num "0"), .num "2"])]

/-- `f(1, 2); 1 / 0;`. -/
def statementProgram : List ClassDeclaration :=
  sampleProgram [.eval (.methodCall (.ident "f") [.num "1", .num "2"]),
    .eval (.binary .div (.num "1") (.num "0"))]

def sampleCatch (program : List ClassDeclaration) (n : ℕ) : Option (ℤ × ℤ) := do
  let (m, t) : Machine ℚ × Tally ← runTallied 3 program (List.replicate n 0)
  let m' ← m.step (imagesOf 3 program) 0
  let (activations, i, action, outcome) ← m.outcome (imagesOf 3 program) 0
  let a ← activations.head?
  let x ← catchOf m.control (frames activations) outcome
  let armed ← ((t.act m.control (frames m.activations) a i.r2.reg action).armed x.frame).head?
  return ((m'.control.states x.state).stackPtr - 1, armed.depth)

theorem sampleCatch_reached {program : List ClassDeclaration} {n : ℕ} {depth armedDepth : ℤ}
    (h : sampleCatch program n = some (depth, armedDepth)) :
    ∃ (m m' : Machine ℚ) (t t' : Tally) (a : Activation) (rest : List Activation) (i : Instruction)
      (e : Effect ℚ) (outcome : Outcome) (x : Catch) (armed : Armed) (others : List Armed),
      Tallied (imagesOf 3 program) m t ∧
        StepOf (imagesOf 3 program) m m' 0 a rest i e outcome ∧
        t.act m.control (frames m.activations) a i.r2.reg e.action = t' ∧
        catchOf m.control (frames (a :: rest)) outcome = some x ∧ t'.armed x.frame = armed :: others ∧
        (m'.control.states x.state).stackPtr - 1 = depth ∧ armed.depth = armedDepth := by
  unfold sampleCatch at h
  obtain ⟨⟨m, t⟩, hrun, h⟩ := Option.bind_eq_some_iff.mp h
  obtain ⟨m', hm', h⟩ := Option.bind_eq_some_iff.mp h
  obtain ⟨a, rest, i, e, outcome, hstep⟩ := Machine.step_cases hm'
  rw [hstep.outcome] at h
  dsimp only [Option.bind_eq_bind, Option.bind_some, List.head?_cons] at h
  obtain ⟨x, hcatch, h⟩ := Option.bind_eq_some_iff.mp h
  obtain ⟨armed, harmed, h⟩ := Option.bind_eq_some_iff.mp h
  obtain ⟨others, hlist⟩ := List.head?_eq_some_iff.mp harmed
  cases h
  exact ⟨m, m', t, _, a, rest, i, e, outcome, x, armed, others, runTallied_tallied hrun, hstep, rfl,
    hcatch, hlist, rfl, rfl⟩

theorem argumentProgram_catch : sampleCatch argumentProgram 11 = some (1, 0) := by decide +kernel

theorem statementProgram_catch : sampleCatch statementProgram 16 = some (0, 0) := by decide +kernel

/-- The second argument of `f` is still on the stack in the `catch` body. -/
theorem argument_stays :
    ∃ (m m' : Machine ℚ) (t t' : Tally) (a : Activation) (rest : List Activation) (i : Instruction)
      (e : Effect ℚ) (outcome : Outcome) (x : Catch) (armed : Armed) (others : List Armed),
      Tallied (imagesOf 3 argumentProgram) m t ∧
        StepOf (imagesOf 3 argumentProgram) m m' 0 a rest i e outcome ∧
        t.act m.control (frames m.activations) a i.r2.reg e.action = t' ∧
        catchOf m.control (frames (a :: rest)) outcome = some x ∧ t'.armed x.frame = armed :: others ∧
        (m'.control.states x.state).stackPtr - 1 ≠ armed.depth := by
  obtain ⟨m, m', t, t', a, rest, i, e, outcome, x, armed, others, h, hstep, ht, hcatch, harmed, hdepth,
    harmedDepth⟩ := sampleCatch_reached argumentProgram_catch
  refine ⟨m, m', t, t', a, rest, i, e, outcome, x, armed, others, h, hstep, ht, hcatch, harmed, ?_⟩
  rw [hdepth, harmedDepth]
  decide

/-- Between two statements nothing waits. -/
theorem statement_waits_for_nothing :
    ∃ (m m' : Machine ℚ) (t t' : Tally) (a : Activation) (rest : List Activation) (i : Instruction)
      (e : Effect ℚ) (outcome : Outcome) (x : Catch) (armed : Armed),
      Tallied (imagesOf 3 statementProgram) m t ∧
        StepOf (imagesOf 3 statementProgram) m m' 0 a rest i e outcome ∧
        catchOf m.control (frames (a :: rest)) outcome = some x ∧
        waiting t' x armed + leftSince t' x armed = 0 := by
  obtain ⟨m, m', t, t', a, rest, i, e, outcome, x, armed, others, h, hstep, ht, hcatch, harmed, hdepth,
    harmedDepth⟩ := sampleCatch_reached statementProgram_catch
  obtain ⟨armed', others', harmed', -, hiff⟩ := catch_depth_iff h hstep ht hcatch
  rw [harmed] at harmed'
  cases harmed'
  exact ⟨m, m', t, t', a, rest, i, e, outcome, x, armed, h, hstep, hcatch,
    hiff.mp (hdepth.trans harmedDepth.symm)⟩

end Zeroscript.CatchDepth
