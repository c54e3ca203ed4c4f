import Zeroscript.CurrentContext
import Zeroscript.Number

/-! # Writes to a property that is not there

`interpreter_set_field_virtual` throws in the instance's own state before the writer throws in its own.
The first exception looks for a handler from the instance's current context, wherever that is. -/
namespace Zeroscript.RefusedWrites

open CurrentContext

section

variable {α : Type} [NumOps α]

/-- The instruction writes a property that the instance of the state `target` does not have. -/
structure WritesMissing (d : Data α) (a : Activation) (i : Instruction) (target : StateId) (name : String) :
    Prop where
  opcode : i.opcode = .SET_FIELD
  other : i.r0.reg ≠ 1
  tag : (d.regs a.currentContext i.r0.reg).type ≠ .number
  object : d.object (d.regs a.currentContext i.r0.reg) = some (.instanceObject target)
  key : d.fieldName (d.regs a.currentContext i.r1.reg) = some name
  missing : (buildSymbolTable (d.contexts (d.states target).rootContext).symbols).getFlags name = none

/-- What is seen of a state later. A run of it sets the return code and the details itself, so these are
seen only while it is running. -/
def seen (c : StateControl) : StateControl := { c with returnCode := c.isRunning && c.returnCode }

/-- The exception is raised once, in the frame of the writer, whose handlers are entered, and every state,
every context and every stack is then as it was. -/
structure RefusedOnce (d : Data α) (k : ControlState) (a : Activation) (rest : List Activation)
    (target : StateId) (e : Effect α) : Prop where
  raised : ∃ raising message, raisedIn k a e.action = some (raising, message) ∧
    k.perform (a :: rest) e.action = raising.raise message (a :: rest) ∧
    (raising.states a.state).currentContext = a.currentContext ∧
    (raising.states a.state).returnCode = false ∧ raising.links = k.links ∧ (∀ s, seen (raising.states s) = seen (k.states s)) ∧
    (∀ link stack stackPtr, (raising.start target link stack stackPtr).states =
      (k.start target link stack stackPtr).states)
  details : ∀ s, (k.states s).isRunning = true → e.data.exceptionDetails s = d.exceptionDetails s
  contexts : e.data.contexts = d.contexts
  valueStacks : e.data.valueStacks = d.valueStacks
  objects : e.data.objects = d.objects

/-- The state has been through such a write: it has no current context, and if it is running, its return
code and its details are those of a refusal. -/
structure AlreadyRefused (d : Data α) (k : ControlState) (target : StateId) : Prop where
  context : (k.states target).currentContext = 0
  running : (k.states target).isRunning = true → (k.states target).returnCode = true ∧
    d.exceptionDetails target = d.detailedMessage target "no such property found on object"

variable {classes : String → Option Code} {d : Data α} {k : ControlState} {a : Activation}
  {rest : List Activation} {i : Instruction} {target : StateId} {name : String} {e : Effect α}

theorem WritesMissing.setFieldVirtual (h : WritesMissing d a i target name)
    (he : effect classes d k a rest i = some e) :
    ∃ address, setFieldVirtual d k a address target name (d.regs a.currentContext i.r2.reg) = some e := by
  obtain ⟨opcode, r0, r1, r2⟩ := i
  obtain ⟨hi, hother, htag, hobject, hname, -⟩ := h
  obtain rfl : opcode = .SET_FIELD := hi
  dsimp only at hother htag hobject hname
  change (d.fieldName (d.regs a.currentContext r1.reg)).bind
    (setField classes d k a r0.reg · (d.regs a.currentContext r2.reg)) = _ at he
  rw [hname, Option.bind_some] at he
  unfold setField at he
  dsimp only at he
  rw [if_neg hother] at he
  split at he
  · contradiction
  · rename_i address _ _
    rw [hobject] at he
    exact ⟨address, he⟩
  · cases he

theorem WritesMissing.refused (h : WritesMissing d a i target name)
    (he : effect classes d k a rest i = some e) :
    ∃ message, e.action = .reject target (some message) ∧
      ((k.handler target).isSome ∨ (k.handler target = none ∧
        message = d.detailedMessage target "no such property found on object" ∧
        e.data = d.setDetails target message)) := by
  obtain ⟨address, he⟩ := h.setFieldVirtual he
  unfold Zeroscript.setFieldVirtual at he
  dsimp only at he
  rw [h.missing] at he
  split at he
  · cases he
  · dsimp only at he
    split at he
    · rename_i handler hhandler
      obtain ⟨refused, hrefused, he⟩ := Option.bind_eq_some_iff.mp he
      cases he
      exact ⟨_, rfl, Or.inl (by rw [hhandler]; rfl)⟩
    · rename_i hhandler
      cases he
      exact ⟨_, rfl, Or.inr ⟨hhandler, rfl, rfl⟩⟩

theorem refusing_states :
    (((k.setState target { k.states target with returnCode := false }).uncaught target).states) =
      Function.update k.states target
        { k.states target with currentContext := 0, returnCode := true } := by
  funext s
  unfold ControlState.uncaught ControlState.setState
  by_cases hs : s = target
  · subst hs
    simp
  · simp [Function.update_of_ne hs]

theorem raisedIn_reject {raising : ControlState} {message message' : String}
    (h : raisedIn k a (.reject target (some message)) = some (raising, message')) :
    raising = (k.setState target { k.states target with returnCode := false }).uncaught target := by
  unfold raisedIn at h
  dsimp only at h
  split at h
  · rename_i hnone
    cases h
    unfold ControlState.throwIn
    rw [Option.isNone_iff_eq_none.mp hnone]
  · cases h

theorem handler_none (h : (k.states target).currentContext = 0) : k.handler target = none := by
  unfold ControlState.handler
  rw [h]
  cases k.nextContext with
  | zero => rfl
  | succ bound => rfl

theorem refused_once_needs (h : WritesMissing d a i target name) (he : effect classes d k a rest i = some e)
    (honce : RefusedOnce d k a rest target e) : AlreadyRefused d k target ∧
      (k.states a.state).currentContext = a.currentContext ∧ (k.states a.state).returnCode = false := by
  obtain ⟨message, haction, hcases⟩ := h.refused he
  obtain ⟨⟨raising, message', hraised, -, hwriter, hreturn, -, hseen, -⟩, hdetails, -, -, -⟩ := honce
  rw [haction] at hraised
  obtain rfl := raisedIn_reject hraised
  have hcurrent : ∀ s, (((k.setState target { k.states target with returnCode := false }).uncaught
      target).states s).currentContext = (k.states s).currentContext := by
    intro s
    have hcontext := congrArg StateControl.currentContext (hseen s)
    exact hcontext
  have hother : a.state ≠ target := by
    rintro rfl
    rw [refusing_states, Function.update_self] at hreturn
    cases hreturn
  have hzero : (k.states target).currentContext = 0 := by
    rw [← hcurrent target, refusing_states, Function.update_self]
  refine ⟨⟨hzero, fun hruns => ?_⟩, (hcurrent a.state).symm.trans hwriter, ?_⟩
  · have hcode := congrArg StateControl.returnCode (hseen target)
    rw [refusing_states, Function.update_self] at hcode
    refine ⟨by simpa [seen, hruns] using hcode.symm, ?_⟩
    rcases hcases with hhandler | ⟨-, rfl, hdata⟩
    · rw [handler_none hzero] at hhandler
      cases hhandler
    · rw [← hdetails target hruns, hdata]
      exact Function.update_self ..
  · rwa [refusing_states, Function.update_of_ne hother] at hreturn

theorem raisedIn_again (hzero : (k.states target).currentContext = 0) (message : String) :
    raisedIn k a (.reject target (some message)) =
      some ((k.setState target { k.states target with returnCode := false }).uncaught target, message) := by
  have hclear : (k.setState target { k.states target with returnCode := false }).handler target = none := by
    apply handler_none
    simpa [ControlState.setState] using hzero
  unfold raisedIn ControlState.throwIn
  dsimp only
  rw [hclear]
  rfl

omit [NumOps α] in
theorem refusing_seen (h : AlreadyRefused d k target) (s : StateId) :
    seen (((k.setState target { k.states target with returnCode := false }).uncaught target).states s) =
      seen (k.states s) := by
  rw [refusing_states]
  by_cases hs : s = target
  · subst hs
    rw [Function.update_self]
    unfold seen
    dsimp only
    rw [← h.1, Bool.and_true]
    cases hruns : (k.states s).isRunning with
    | false => rfl
    | true => rw [(h.2 hruns).1, Bool.and_true]
  · rw [Function.update_of_ne hs]

theorem refused_once_of (h : WritesMissing d a i target name) (hrunning : (k.states a.state).isRunning = true)
    (he : effect classes d k a rest i = some e) (hrefused : AlreadyRefused d k target)
    (hwriter : (k.states a.state).currentContext = a.currentContext)
    (hreturn : (k.states a.state).returnCode = false) : RefusedOnce d k a rest target e := by
  obtain ⟨message, haction, hcases⟩ := h.refused he
  have hother : a.state ≠ target := by
    rintro rfl
    rw [(hrefused.2 hrunning).1] at hreturn
    cases hreturn
  rcases hcases with hhandler | ⟨-, hmessage, hdata⟩
  · rw [handler_none hrefused.1] at hhandler
    cases hhandler
  have hsome := raisedIn_again (a := a) hrefused.1 message
  rw [← haction] at hsome
  refine ⟨⟨_, _, hsome, perform_raised hsome, ?_, ?_, rfl, refusing_seen hrefused, ?_⟩, ?_, ?_, ?_, ?_⟩
  · rw [refusing_states, Function.update_of_ne hother]
    exact hwriter
  · rw [refusing_states, Function.update_of_ne hother]
    exact hreturn
  · intro link stack stackPtr
    unfold ControlState.start
    dsimp only
    rw [refusing_states, Function.update_idem]
    rfl
  · intro s hruns
    rw [hdata]
    change Function.update d.exceptionDetails target message s = d.exceptionDetails s
    by_cases hs : s = target
    · subst hs
      rw [Function.update_self, (hrefused.2 hruns).2, hmessage]
    · exact Function.update_of_ne hs ..
  · rw [hdata]
    rfl
  · rw [hdata]
    rfl
  · rw [hdata]
    rfl

theorem refused_once_iff (h : WritesMissing d a i target name) (hrunning : (k.states a.state).isRunning = true)
    (he : effect classes d k a rest i = some e) :
    RefusedOnce d k a rest target e ↔ AlreadyRefused d k target ∧
      (k.states a.state).currentContext = a.currentContext ∧ (k.states a.state).returnCode = false :=
  ⟨refused_once_needs h he, fun ⟨hrefused, hwriter, hreturn⟩ => refused_once_of h hrunning he hrefused hwriter hreturn⟩

/-- In every run, a write of a property that is not there raises once in the frame of the writer, with
everything else as it was, just when the instance's state has already been through such a write, and the
writer's state has its executing frame as current context and no return code left behind. -/
theorem refused_write_iff {m : Machine α} {thread : ℕ} (hm : m.Reachable classes)
    (hthread : m.threads[thread]? = some (a :: rest)) (_hi : m.fetch a = some i)
    (h : WritesMissing m.data a i target name)
    (he : effect classes m.data m.control a rest i = some e) :
    RefusedOnce m.data m.control a rest target e ↔ AlreadyRefused m.data m.control target ∧
      (m.control.states a.state).currentContext = a.currentContext ∧
      (m.control.states a.state).returnCode = false := by
  have hmem : a ∈ m.activations :=
    List.mem_flatten.mpr ⟨_, List.mem_of_getElem? hthread, List.mem_cons_self⟩
  exact refused_once_iff h ((reachable_linked hm).running _ (List.mem_map_of_mem hmem)) he

def writesMissing (d : Data α) (a : Activation) (i : Instruction) (target : StateId) (name : String) : Bool :=
  let r := d.regs a.currentContext i.r0.reg
  i.opcode == .SET_FIELD && i.r0.reg != 1 && r.type != .number &&
    (match d.object r with
      | some (.instanceObject s) => s == target
      | _ => false) &&
    d.fieldName (d.regs a.currentContext i.r1.reg) == some name &&
    ((buildSymbolTable (d.contexts (d.states target).rootContext).symbols).getFlags name).isNone

theorem writesMissing_of_check (h : writesMissing d a i target name = true) :
    WritesMissing d a i target name := by
  unfold writesMissing at h
  simp only [Bool.and_eq_true, bne_iff_ne, beq_iff_eq, Option.isNone_iff_eq_none] at h
  obtain ⟨⟨⟨⟨⟨hi, hother⟩, htag⟩, hobject⟩, hkey⟩, hmissing⟩ := h
  refine ⟨hi, hother, htag, ?_, hkey, hmissing⟩
  split at hobject
  · rename_i s hs
    rw [hs, beq_iff_eq.mp hobject]
  · cases hobject

end

/-- `class Safe { }` and `class Main { var o = Safe(); try { o.f = 1; } catch (e) { } o.f = 1; }`. -/
def sampleProgram : List ClassDeclaration :=
  let write : Stmt := .eval (.binary .assign (.binary .dot (.ident "o") (.str "f")) (.num "1"))
  let constructor : Stmt := .function true false false "__static__constructor__" [] []
  [⟨"Safe", [], [constructor], []⟩,
    ⟨"Main", [], [.var "o" (.methodCall (.ident "Safe") []) false false,
      .tryCatch "e" [write] [] none, write, constructor], []⟩]

def sampleWrite (n : ℕ) : Option (Bool × StateControl × StateControl × ContextId × Option ContextId) := do
  let (m, a, rest, i) ← (runUpTo 3 sampleProgram n : Option (Machine ℚ × _))
  let e ← effect (imagesOf 3 sampleProgram) m.data m.control a rest i
  return (writesMissing m.data a i 3 "f", m.control.states 3, m.control.states a.state, a.currentContext,
    (raisedIn m.control a e.action).map fun raised => (raised.1.states 3).currentContext)

theorem sampleWrite_first : sampleWrite 17 = some (true, ⟨4, 0, 0, 0, false, false⟩,
    ⟨1, 0, 0, 0, true, false⟩, 1, some 0) := by decide +kernel

theorem sampleWrite_second : sampleWrite 24 = some (true, ⟨0, 0, 0, 0, false, true⟩,
    ⟨1, 11, 0, 0, true, false⟩, 1, some 0) := by decide +kernel

theorem sampleWrite_reached {n : ℕ} {target writer : StateControl} {frame : ContextId}
    {raising : Option ContextId} (h : sampleWrite n = some (true, target, writer, frame, raising)) :
    ∃ (m : Machine ℚ) (a : Activation) (rest : List Activation) (i : Instruction) (e : Effect ℚ),
      m.Reachable (imagesOf 3 sampleProgram) ∧ m.threads[0]? = some (a :: rest) ∧ m.fetch a = some i ∧
        WritesMissing m.data a i 3 "f" ∧
        effect (imagesOf 3 sampleProgram) m.data m.control a rest i = some e ∧
        m.control.states 3 = target ∧ m.control.states a.state = writer ∧ a.currentContext = frame ∧
        (raisedIn m.control a e.action).map
          (fun raised => (raised.1.states 3).currentContext) = raising := by
  unfold sampleWrite at h
  obtain ⟨⟨m, a, rest, i⟩, hstate, h⟩ := Option.bind_eq_some_iff.mp h
  obtain ⟨e, he, h⟩ := Option.bind_eq_some_iff.mp h
  simp only [Option.pure_def, Option.some.injEq, Prod.mk.injEq] at h
  obtain ⟨hcheck, htarget, hwriter, hframe, hraising⟩ := h
  obtain ⟨hm, hthread, hi⟩ := runUpTo_reachable hstate
  exact ⟨m, a, rest, i, e, hm, hthread, hi, writesMissing_of_check hcheck, he, htarget, hwriter, hframe,
    hraising⟩

/-- The instance is idle, its current context is number 4, the frame of its constructor; when the
exception is raised in `Main` it has none. -/
theorem first_write_changes_instance :
    ∃ (m : Machine ℚ) (a : Activation) (rest : List Activation) (i : Instruction) (e : Effect ℚ),
      m.Reachable (imagesOf 3 sampleProgram) ∧ m.threads[0]? = some (a :: rest) ∧ m.fetch a = some i ∧
        WritesMissing m.data a i 3 "f" ∧
        effect (imagesOf 3 sampleProgram) m.data m.control a rest i = some e ∧
        (m.control.states 3).currentContext = 4 ∧
        (raisedIn m.control a e.action).map
          (fun raised => (raised.1.states 3).currentContext) = some 0 ∧
        ¬RefusedOnce m.data m.control a rest 3 e := by
  obtain ⟨m, a, rest, i, e, hm, hthread, hi, hwrite, he, htarget, -, -, hraising⟩ :=
    sampleWrite_reached sampleWrite_first
  refine ⟨m, a, rest, i, e, hm, hthread, hi, hwrite, he, by rw [htarget], hraising, fun h => ?_⟩
  obtain ⟨raising, message, hraised, -, -, -, -, hseen, -⟩ := h.raised
  rw [hraised] at hraising
  have hsame := congrArg StateControl.currentContext (hseen 3)
  have hzero := Option.some.inj hraising
  dsimp only [seen] at hsame hzero
  rw [hzero, htarget] at hsame
  cases hsame

theorem second_write_refused_once :
    ∃ (m : Machine ℚ) (a : Activation) (rest : List Activation) (i : Instruction) (e : Effect ℚ),
      m.Reachable (imagesOf 3 sampleProgram) ∧ m.threads[0]? = some (a :: rest) ∧ m.fetch a = some i ∧
        WritesMissing m.data a i 3 "f" ∧
        effect (imagesOf 3 sampleProgram) m.data m.control a rest i = some e ∧
        RefusedOnce m.data m.control a rest 3 e := by
  obtain ⟨m, a, rest, i, e, hm, hthread, hi, hwrite, he, htarget, hwriter, hframe, -⟩ :=
    sampleWrite_reached sampleWrite_second
  have hrefused : AlreadyRefused m.data m.control 3 := by
    refine ⟨by rw [htarget], fun hruns => ?_⟩
    rw [htarget] at hruns
    cases hruns
  exact ⟨m, a, rest, i, e, hm, hthread, hi, hwrite, he,
    (refused_write_iff hm hthread hi hwrite he).mpr
      ⟨hrefused, by rw [hwriter, hframe], by rw [hwriter]⟩⟩

end Zeroscript.RefusedWrites
