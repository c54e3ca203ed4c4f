import Zeroscript.Lib.DepthFirst
import Zeroscript.Steps

/-! # `interpreter/garbage_collector.h`

The lists that the collector works on stand beside the machine. A collection may come before any
instruction; what it frees stays in the machine, and is only written down. Addresses are not given
out again. -/
namespace Zeroscript

inductive Node where
  | object (address : Addr)
  | context (c : ContextId)
  deriving DecidableEq, Repr

/-- An address in `gc_objects_list`: of an object, or of a register. -/
inductive GcEntry where
  | node (n : Node)
  | register (c : ContextId) (r : ℕ)
  deriving DecidableEq, Repr

def GcEntry.node? : GcEntry → Option Node
  | .node n => some n
  | .register _ _ => none

/-- `statesList` is `interpreter_states_list`; `removedRoots` are the states with
`removed_as_a_root`, and `clones` those that get it when they have run. A string's characters are in
the buffer of the string `buffers` says. -/
structure Collector where
  objectsList : List GcEntry := []
  statesList : List StateId := []
  clones : List StateId := []
  removedRoots : List StateId := []
  localsCount : ContextId → ℕ := fun _ => 0
  buffers : Addr → Addr := id
  freed : List Node := []
  freedStates : List StateId := []
  freedBuffers : List Addr := []
  freedKeyLists : List Addr := []

section

variable {α : Type} [NumOps α]

def Data.registerNodes (d : Data α) (r : Reg α) : List Node :=
  match r.type, r.val, d.object r with
  | .number, _, _ | .nativeFunc, _, _ => []
  | _, .raw address, some _ => [.object address]
  | _, _, _ => []

def ControlState.contextNodes (k : ControlState) (c : ContextId) : List Node :=
  if c = 0 ∨ k.nextContext ≤ c then [] else [.context c]

def Machine.stateNodes (m : Machine α) (s : StateId) : List Node :=
  let c := m.control.states s
  m.control.contextNodes c.currentContext ++
    m.control.contextNodes (m.data.states s).rootContext ++
    (List.range c.stackPtr.toNat).flatMap fun i =>
      m.data.registerNodes (m.data.valueStacks c.stackStart (i + 1))

/-- What `gc_visit_object` goes on to. -/
def Machine.nextNodes (m : Machine α) (localsCount : ContextId → ℕ) : Node → List Node
  | .object address =>
    match m.data.objects[address - 1]? with
    | some (.json properties _) => properties.entries.flatMap (m.data.registerNodes ·.value)
    | some (.instanceObject s) => m.stateNodes s
    | some (.functionRef _ _ parent s) => m.control.contextNodes parent ++ m.stateNodes s
    | _ => []
  | .context c =>
    ((List.range (localsCount c)).drop 2).flatMap (fun i => m.data.registerNodes (m.data.regs c i)) ++
      m.control.contextNodes (m.data.contexts c).parentContext ++
      m.control.contextNodes (m.control.links c).returnContext

def TypeInfo.staticNodes (d : Data α) (info : TypeInfo α) : List Node :=
  info.staticVariables.keyList.flatMap fun name =>
    (info.staticVariables.get name).toList.flatMap d.registerNodes

def Collector.roots (g : Collector) : List StateId := g.statesList.filter (· ∉ g.removedRoots)

/-- The objects with the new `gc_version`. -/
def Collector.marked (g : Collector) (m : Machine α) : List Node :=
  DepthFirst.visitAll (m.nextNodes g.localsCount) (m.data.objects.length + m.control.nextContext) []
    (g.roots.flatMap m.stateNodes ++ m.data.knownTypes.flatMap fun t => t.2.staticNodes m.data)

/-- The state that goes with an object in `gc_free_object`. -/
def Data.stateOf (d : Data α) : Node → Option StateId
  | .object address =>
    match d.objects[address - 1]? with
    | some (.instanceObject s) => some s
    | _ => none
  | .context _ => none

def Data.bufferOf (d : Data α) (buffers : Addr → Addr) : Node → Option Addr
  | .object address =>
    match d.objects[address - 1]? with
    | some (.string _ _) => some (buffers address)
    | _ => none
  | .context _ => none

/-- The cached list of keys that goes with an object in `gc_free_object`. -/
def Data.keyListOf (d : Data α) : Node → Option Addr
  | .object address =>
    match d.objects[address - 1]? with
    | some (.json _ cache) => if cache = 0 then none else some cache
    | _ => none
  | .context _ => none

/-- `gc`. A register in the list is no object to look at. -/
def Collector.collect (g : Collector) (m : Machine α) : Option Collector := do
  let nodes ← g.objectsList.mapM GcEntry.node?
  let marked := g.marked m
  let swept := nodes.filter (· ∉ marked)
  return { g with
    objectsList := (nodes.filter (· ∈ marked)).map .node
    freed := g.freed ++ swept
    freedStates := g.freedStates ++ swept.filterMap m.data.stateOf
    freedBuffers := g.freedBuffers ++ swept.filterMap (m.data.bufferOf g.buffers)
    freedKeyLists := g.freedKeyLists ++ swept.filterMap m.data.keyListOf }

def freshObjects (d d' : Data α) : List GcEntry :=
  (List.range' (d.objects.length + 1) (d'.objects.length - d.objects.length)).map fun address =>
    .node (.object address)

/-- `ADD_OBJECT_TO_GC_LIST`, but for `OP_FFRAME`: `native_str_substring` gives it the register, and
`native_object_key_list` leaves the list itself out. -/
def addedObjects (d d' : Data α) (a : Activation) (i : Instruction) : List GcEntry :=
  let fresh := freshObjects d d'
  match i.opcode with
  | .MOV_FNC | .MOV_STR | .ADD | .GET_FIELD | .GET_FIELD_IMMEDIATE => fresh
  | .CALL =>
    match (d.regs a.currentContext i.r0.reg).val with
    | .native .substring => fresh.map fun _ => .register a.currentContext i.r1.reg
    | .native .keyList => fresh.tail
    | _ => fresh
  | _ => []

/-- The state that enters a new frame, and the address past its `OP_FFRAME`. -/
def Action.entered (k : ControlState) (a : Activation) : Action → Option (StateId × ℕ)
  | .callOwn entry _ _ => some (a.state, entry)
  | .callAsync entry _ | .construct entry | .load _ _ entry => some (k.nextState, entry)
  | .callOther target cloned entry _ _ => some (if cloned then k.nextState else target, entry)
  | _ => none

/-- The activations that have ended. -/
def Outcome.ended (outcome : Outcome) (k : ControlState) (a : Activation) :
    Action → List (StateId × Resume)
  | .ret => if (k.links a.currentContext).returnContext = 0 then [(a.state, a.resume)] else []
  | _ => outcome.left

namespace Collector

variable (g : Collector)

def enterFrame (code : Code) (c : ContextId) (entry : ℕ) : Collector :=
  { g with
    objectsList := g.objectsList ++ [.node (.context c)]
    localsCount := Function.update g.localsCount c
      (((code[entry - 1]?).map fun i => i.r0.reg + 1).getD 0) }

/-- `ADD_ROOT_TO_GC_LIST`, where a state begins to run. -/
def addRoot (k : ControlState) : Action → Collector
  | .callAsync _ _ => { g with statesList := g.statesList ++ [k.nextState] }
  | .callOther _ true _ _ _ =>
    { g with statesList := g.statesList ++ [k.nextState], clones := g.clones ++ [k.nextState] }
  | _ => g

/-- The end of a run: a static constructor's state becomes a root, a clone's is none any longer. -/
def endRun (ended : StateId × Resume) : Collector :=
  match ended.2 with
  | .method _ =>
    if ended.1 ∈ g.clones then { g with removedRoots := g.removedRoots ++ [ended.1] } else g
  | .load _ _ | .startup => { g with statesList := g.statesList ++ [ended.1] }
  | .construct | .root => g

/-- `interpreter_throw_exception_from_reg`: a thrown string and the string that its own state makes of
it, the next object, have the characters in common. -/
def throwString (d : Data α) (a : Activation) (i : Instruction) (outcome : Outcome) :
    Action → Collector
  | .throwing _ =>
    let r := d.regs a.currentContext i.r0.reg
    match r.type, r.val, d.object r with
    | .number, _, _ => g
    | _, .raw address, some (.string _ _) =>
      if (outcome.left = [] ∧ outcome.caughtBy.isSome) ∨ a.state ∈ outcome.broken then
        { g with buffers := Function.update g.buffers (d.objects.length + 1) (g.buffers address) }
      else g
    | _, _, _ => g
  | _ => g

def step (m : Machine α) (a : Activation) (i : Instruction) (e : Effect α) (outcome : Outcome) :
    Collector :=
  let g := { g with objectsList := g.objectsList ++ addedObjects m.data e.data a i }
  let g := match e.action.entered m.control a with
    | some (s, entry) => g.enterFrame (e.data.states s).byteStream m.control.nextContext entry
    | none => g
  let g := g.addRoot m.control e.action
  let g := g.throwString m.data a i outcome e.action
  (outcome.ended m.control a e.action).foldl endRun g

end Collector

/-- The lists when the static constructor of the main class is about to run. As in the machine, the
frame of the main class is there already. -/
def Collector.boot (code : Code) (staticEntry entry : ℕ) : Collector :=
  (({ statesList := [0] } : Collector).enterFrame code 2 staticEntry).enterFrame code 1 entry

inductive Event (α : Type) where
  | ran (m : Machine α) (a : Activation) (i : Instruction)
  | collected (m : Machine α) (g : Collector)

/-- A run of a program with collections, and what has happened in it, the last event first. -/
inductive Collected (classes : String → Option Code) :
    List (Event α) → Machine α → Collector → Prop where
  | boot {className : String} {code : Code} {input : List String} {m : Machine α}
      {staticEntry entry : ℕ} (hcode : classes className = some code)
      (hboot : boot className code input = some m)
      (hentry : BootOf className code m staticEntry entry) :
      Collected classes [] m (Collector.boot code staticEntry entry)
  | step {events : List (Event α)} {m m' : Machine α} {g : Collector} {thread : ℕ} {a : Activation}
      {rest : List Activation} {i : Instruction} {e : Effect α} {outcome : Outcome}
      (h : Collected classes events m g) (hstep : StepOf classes m m' thread a rest i e outcome) :
      Collected classes (.ran m a i :: events) m' (g.step m a i e outcome)
  | collect {events : List (Event α)} {m : Machine α} {g g' : Collector}
      (h : Collected classes events m g) (hcollect : g.collect m = some g') :
      Collected classes (.collected m g :: events) m g'

theorem Collected.reachable {classes : String → Option Code} {events : List (Event α)} {m : Machine α}
    {g : Collector} (h : Collected classes events m g) : m.Reachable classes := by
  induction h with
  | boot hcode hboot => exact ⟨_, _, _, _, hcode, hboot, .refl⟩
  | step _ hstep ih =>
    obtain ⟨className, code, input, m₀, hcode, hboot, hpath⟩ := ih
    exact ⟨className, code, input, m₀, hcode, hboot, hpath.tail ⟨_, hstep.step⟩⟩
  | collect _ _ ih => exact ih

/-- What comes next: an instruction of a thread, or a collection. -/
inductive Turn where
  | thread (n : ℕ)
  | gc

structure Progress (α : Type) where
  events : List (Event α)
  machine : Machine α
  collector : Collector

variable {classes : String → Option Code}

def Progress.turn (classes : String → Option Code) (h : Progress α) : Turn → Option (Progress α)
  | .thread n => do
    let m := h.machine
    let m' ← m.step classes n
    let activations ← m.threads[n]?
    let a ← activations.head?
    let i ← m.fetch a
    let e ← effect classes m.data m.control a activations.tail i
    let outcome := m.control.perform
      ({ a with objectToSearchOn := e.objectToSearchOn } :: activations.tail) e.action
    return ⟨.ran m a i :: h.events, m', h.collector.step m a i e outcome⟩
  | .gc => do
    let g ← h.collector.collect h.machine
    return ⟨.collected h.machine h.collector :: h.events, h.machine, g⟩

def Progress.turns (classes : String → Option Code) : List Turn → Progress α → Option (Progress α)
  | [], h => some h
  | turn :: turns, h => (h.turn classes turn).bind (Progress.turns classes turns)

def runCollected (fuel : ℕ) (program : List ClassDeclaration) (turns : List Turn) :
    Option (Progress α) := do
  let code ← imagesOf fuel program "Main"
  let m ← boot "Main" code []
  match m.threads with
  | [[static, main]] =>
    Progress.turns (imagesOf fuel program) turns
      ⟨[], m, Collector.boot code static.instructionPtr main.instructionPtr⟩
  | _ => none

theorem Progress.turn_collected {h h' : Progress α} {turn : Turn}
    (hrun : Collected classes h.events h.machine h.collector) (hturn : h.turn classes turn = some h') :
    Collected classes h'.events h'.machine h'.collector := by
  cases turn with
  | thread n =>
    obtain ⟨m', hm', hturn⟩ := Option.bind_eq_some_iff.mp hturn
    obtain ⟨a, rest, i, e, outcome, hstep⟩ := Machine.step_cases hm'
    obtain ⟨activations, hactivations, hturn⟩ := Option.bind_eq_some_iff.mp hturn
    rw [hstep.activations] at hactivations
    cases hactivations
    obtain ⟨a, ha, hturn⟩ := Option.bind_eq_some_iff.mp hturn
    cases ha
    obtain ⟨i, hi, hturn⟩ := Option.bind_eq_some_iff.mp hturn
    rw [hstep.fetch] at hi
    cases hi
    obtain ⟨e, he, hturn⟩ := Option.bind_eq_some_iff.mp hturn
    rw [List.tail_cons, hstep.effect] at he
    cases he
    dsimp only at hturn
    rw [List.tail_cons, hstep.perform] at hturn
    cases hturn
    exact .step hrun hstep
  | gc =>
    obtain ⟨g, hg, hturn⟩ := Option.bind_eq_some_iff.mp hturn
    cases hturn
    exact .collect hrun hg

theorem Progress.turns_collected {turns : List Turn} {h h' : Progress α}
    (hrun : Collected classes h.events h.machine h.collector)
    (hturns : h.turns classes turns = some h') :
    Collected classes h'.events h'.machine h'.collector := by
  induction turns generalizing h with
  | nil =>
    cases hturns
    exact hrun
  | cons turn turns ih =>
    obtain ⟨h₁, hturn, hrest⟩ := Option.bind_eq_some_iff.mp hturns
    exact ih (turn_collected hrun hturn) hrest

theorem runCollected_collected {fuel : ℕ} {program : List ClassDeclaration} {turns : List Turn}
    {h : Progress α} (hrun : runCollected fuel program turns = some h) :
    Collected (imagesOf fuel program) h.events h.machine h.collector := by
  obtain ⟨code, hcode, hrun⟩ := Option.bind_eq_some_iff.mp hrun
  obtain ⟨m, hboot, hrun⟩ := Option.bind_eq_some_iff.mp hrun
  obtain ⟨staticEntry, entry, hentry⟩ := boot_of hboot
  rw [hentry.threads] at hrun
  have hcollected : Collected (imagesOf fuel program) [] m (Collector.boot code staticEntry entry) :=
    .boot hcode hboot hentry
  exact Progress.turns_collected (h := ⟨[], m, _⟩) hcollected hrun

theorem runCollected_any {fuel : ℕ} {program : List ClassDeclaration} {turns : List Turn}
    {p : Progress α → Bool} (hrun : (runCollected fuel program turns).any p = true) :
    ∃ h : Progress α, Collected (imagesOf fuel program) h.events h.machine h.collector ∧ p h = true := by
  obtain ⟨h, hh, hp⟩ := (Option.any_eq_true p _).mp hrun
  exact ⟨h, runCollected_collected hh, hp⟩

end

end Zeroscript
