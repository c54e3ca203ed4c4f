import Mathlib.Data.List.Nodup
import Zeroscript.Frames
import Zeroscript.Heap
import Zeroscript.Marking
import Zeroscript.Number

/-! # `gc_objects_list`

Every place that adds to the list adds an object that it has just made, but for one:
`native_str_substring` adds the register of its result. -/
namespace Zeroscript.ObjectsList

section

variable {α : Type} [NumOps α]

def Allocated (m : Machine α) : Node → Prop
  | .object address => 0 < address ∧ address ≤ m.data.objects.length
  | .context c => 0 < c ∧ c < m.control.nextContext

/-- The entries are objects that are allocated and not freed yet, each listed once. -/
structure WellListed (m : Machine α) (g : Collector) : Prop where
  allocated : ∀ entry ∈ g.objectsList, ∃ n, entry = .node n ∧ Allocated m n ∧ n ∉ g.freed
  distinct : g.objectsList.Nodup

/-- A collection keeps every marked object once and frees every other object once. -/
def SweepsOnce (m : Machine α) (g : Collector) : Prop :=
  ∃ g', g.collect m = some g' ∧ ∀ n, .node n ∈ g.objectsList →
    (n ∈ g.marked m → g'.objectsList.count (.node n) = 1 ∧ g'.freed.count n = 0) ∧
    (n ∉ g.marked m → g'.objectsList.count (.node n) = 0 ∧ g'.freed.count n = 1)

def CopiesString (m : Machine α) (a : Activation) (i : Instruction) : Prop :=
  i.opcode = .CALL ∧ m.data.regs a.currentContext i.r0.reg = ⟨.nativeFunc, .native .substring⟩ ∧
    (m.data.valueStacks (m.control.states a.state).stackStart
      (m.control.states a.state).stackPtr).type = .number

def Event.copiesString : Event α → Prop
  | .ran m a i => CopiesString m a i
  | .collected _ _ => False

variable {classes : String → Option Code} {d d' : Data α} {k : ControlState} {a : Activation}
  {i : Instruction} {e : Effect α}

theorem effect_call {rest : List Activation} (hi : i.opcode = .CALL) :
    effect classes d k a rest i = call classes d k a i.r0.reg i.r1.reg i.r2.reg := by
  obtain ⟨opcode, r0, r1, r2⟩ := i
  cases hi
  rfl

theorem substring_objects {argument : Reg α} {receiver : Addr} {c : ContextId} {register : ℕ}
    {result : NativeReturn}
    (h : d.callNative .substring argument receiver c register = some (d', result)) :
    (argument.type = .number → ∃ text, d'.objects = d.objects ++ [.string text 0]) ∧
      (argument.type ≠ .number → d'.objects = d.objects) := by
  unfold Data.callNative at h
  dsimp only at h
  split at h
  · rename_i htype
    obtain ⟨text, -, h⟩ := Option.bind_eq_some_iff.mp h
    obtain ⟨offset, -, h⟩ := Option.bind_eq_some_iff.mp h
    obtain ⟨rest, -, h⟩ := Option.bind_eq_some_iff.mp h
    cases h
    exact ⟨fun _ => ⟨rest, rfl⟩, fun hne => absurd htype hne⟩
  · rename_i htype
    cases h
    exact ⟨fun hnumber => absurd hnumber htype, fun _ => rfl⟩

theorem call_substring {callee register n : ℕ}
    (hval : (d.regs a.currentContext callee).val = .native .substring)
    (h : call classes d k a callee register n = some e) :
    ((d.regs a.currentContext callee).type = .nativeFunc ∧
        (d.valueStacks (k.states a.state).stackStart (k.states a.state).stackPtr).type = .number →
      ∃ text, e.data.objects = d.objects ++ [.string text 0]) ∧
    (¬((d.regs a.currentContext callee).type = .nativeFunc ∧
        (d.valueStacks (k.states a.state).stackStart (k.states a.state).stackPtr).type = .number) →
      e.data.objects = d.objects) := by
  have hobject : d.object (d.regs a.currentContext callee) = none := by
    unfold Data.object
    rw [hval]
  unfold call at h
  dsimp only at h
  rw [hval, hobject] at h
  split at h
  · rename_i f htype hf
    cases hf
    rw [if_neg (by decide)] at h
    obtain ⟨argument, hargument, h⟩ := Option.bind_eq_some_iff.mp h
    obtain ⟨⟨d₁, result⟩, hresult, h⟩ := Option.bind_eq_some_iff.mp h
    have hitem : d.valueStacks (k.states a.state).stackStart (k.states a.state).stackPtr = argument := by
      unfold Data.stackItem at hargument
      split at hargument
      · exact Option.some.inj hargument
      · cases hargument
    have hdata : e.data = d₁ := by
      cases result <;>
      · cases h
        rfl
    obtain ⟨hnumber, hother⟩ := substring_objects hresult
    rw [hitem, hdata]
    exact ⟨fun h => hnumber h.2, fun h => hother fun hn => h ⟨htype, hn⟩⟩
  · cases h
  · cases h
  · rename_i hnone
    exact (hnone .substring rfl).elim
  · rename_i hnative _
    cases h
    exact ⟨fun h => (hnative h.1).elim, fun _ => rfl⟩

theorem added_fresh {m m' : Machine α} {thread : ℕ} {rest : List Activation} {outcome : Outcome}
    (hstep : StepOf classes m m' thread a rest i e outcome) (hcopies : ¬CopiesString m a i) :
    ∃ addresses : List Addr,
      addedObjects m.data e.data a i = addresses.map (fun address => .node (.object address)) ∧
        addresses.Nodup ∧
        ∀ x ∈ addresses, m.data.objects.length < x ∧ x ≤ e.data.objects.length := by
  have hrange : ∀ x ∈ List.range' (m.data.objects.length + 1)
      (e.data.objects.length - m.data.objects.length),
      m.data.objects.length < x ∧ x ≤ e.data.objects.length := by
    intro x hx
    obtain ⟨hlow, hhigh⟩ := List.mem_range'_1.mp hx
    omega
  have hnone : ∃ addresses : List Addr,
      ([] : List GcEntry) = addresses.map (fun address => .node (.object address)) ∧
        addresses.Nodup ∧
        ∀ x ∈ addresses, m.data.objects.length < x ∧ x ≤ e.data.objects.length :=
    ⟨[], rfl, List.nodup_nil, by simp⟩
  have hall : ∃ addresses : List Addr,
      freshObjects m.data e.data = addresses.map (fun address => .node (.object address)) ∧
        addresses.Nodup ∧
        ∀ x ∈ addresses, m.data.objects.length < x ∧ x ≤ e.data.objects.length :=
    ⟨_, rfl, List.nodup_range', hrange⟩
  unfold addedObjects
  dsimp only
  split
  · exact hall
  · exact hall
  · exact hall
  · exact hall
  · exact hall
  · rename_i hi
    split
    · rename_i hval
      have hcall := hstep.effect
      rw [effect_call hi] at hcall
      have hobjects : e.data.objects = m.data.objects := by
        refine (call_substring hval hcall).2 fun h => hcopies ⟨hi, ?_, h.2⟩
        cases hreg : m.data.regs a.currentContext i.r0.reg with
        | mk type val =>
          rw [hreg] at h hval
          obtain ⟨htype, -⟩ := h
          cases htype
          cases hval
          rfl
      exact ⟨[], by simp [freshObjects, hobjects], List.nodup_nil, by simp⟩
    · refine ⟨(List.range' (m.data.objects.length + 1)
        (e.data.objects.length - m.data.objects.length)).tail, List.map_tail.symm,
        List.Nodup.sublist (List.tail_sublist _) List.nodup_range', fun x hx => hrange x (List.mem_of_mem_tail hx)⟩
    · exact hall
  · exact hnone

theorem added_register {m m' : Machine α} {thread : ℕ} {rest : List Activation} {outcome : Outcome}
    (hstep : StepOf classes m m' thread a rest i e outcome) (hcopies : CopiesString m a i) :
    .register a.currentContext i.r1.reg ∈ addedObjects m.data e.data a i := by
  obtain ⟨hi, hreg, hnumber⟩ := hcopies
  have hcall := hstep.effect
  rw [effect_call hi] at hcall
  obtain ⟨text, hobjects⟩ := (call_substring (by rw [hreg]) hcall).1 ⟨by rw [hreg], hnumber⟩
  unfold addedObjects
  dsimp only
  rw [hi]
  dsimp only
  rw [hreg]
  simp only [freshObjects, hobjects, List.length_append, List.length_singleton, Nat.add_sub_cancel_left,
    List.range'_one, List.map_cons, List.mem_cons, true_or]

theorem raise_nextContext (message : String) (activations : List Activation) :
    (k.raise message activations).control.nextContext = k.nextContext := by
  exact ControlState.raise_keeps (P := (·.nextContext = k.nextContext)) (fun _ _ _ hk => hk) _ _ rfl

theorem throwIn_nextContext (s : StateId) : (k.throwIn s).nextContext = k.nextContext := by
  obtain ⟨c, hthrown⟩ := k.throwIn_setState s
  rw [hthrown]
  rfl

theorem perform_nextContext {rest : List Activation} {action : Action} :
    (k.perform (a :: rest) action).control.nextContext =
      k.nextContext + (if (action.entered k a).isSome then 1 else 0) := by
  cases action <;> try rfl
  case raise => exact raise_nextContext _ _
  case throwing => exact raise_nextContext _ _
  case native pops error =>
    cases error with
    | none => rfl
    | some message => exact raise_nextContext _ _
  case setCatch =>
    unfold ControlState.perform
    dsimp only
    split <;> rfl
  case ret =>
    unfold ControlState.perform
    dsimp only
    split <;> rfl
  case reject target again =>
    unfold ControlState.perform
    dsimp only
    split
    · exact (raise_nextContext _ _).trans (throwIn_nextContext _)
    · exact throwIn_nextContext _

theorem step_nextContext {m m' : Machine α} {thread : ℕ} {rest : List Activation}
    {outcome : Outcome} (h : StepOf classes m m' thread a rest i e outcome) :
    m'.control.nextContext =
      m.control.nextContext + (if (e.action.entered m.control a).isSome then 1 else 0) := by
  rw [h.control, ← h.perform, perform_nextContext]
  cases e.action <;> rfl

theorem Allocated.step {m m' : Machine α} {thread : ℕ} {rest : List Activation} {outcome : Outcome}
    {n : Node} (h : Allocated m n) (hstep : StepOf classes m m' thread a rest i e outcome) :
    Allocated m' n := by
  cases n with
  | object address => exact ⟨h.1, le_trans h.2 hstep.grows.length⟩
  | context c =>
    refine ⟨h.1, ?_⟩
    rw [step_nextContext hstep]
    exact Nat.lt_add_right _ h.2

def added (m : Machine α) (a : Activation) (i : Instruction) (e : Effect α) : List GcEntry :=
  addedObjects m.data e.data a i ++
    if (e.action.entered m.control a).isSome then [.node (.context m.control.nextContext)] else []

omit [NumOps α] in
theorem endRun_lists (g : Collector) (ended : StateId × Resume) :
    (g.endRun ended).objectsList = g.objectsList ∧ (g.endRun ended).freed = g.freed := by
  unfold Collector.endRun
  split
  · split <;> exact ⟨rfl, rfl⟩
  · exact ⟨rfl, rfl⟩
  · exact ⟨rfl, rfl⟩
  · exact ⟨rfl, rfl⟩
  · exact ⟨rfl, rfl⟩

theorem endRuns_lists (g : Collector) (ended : List (StateId × Resume)) :
    (ended.foldl Collector.endRun g).objectsList = g.objectsList ∧
      (ended.foldl Collector.endRun g).freed = g.freed := by
  induction ended generalizing g with
  | nil => exact ⟨rfl, rfl⟩
  | cons head ended ih =>
    obtain ⟨hlist, hfreed⟩ := ih (g.endRun head)
    obtain ⟨hlist', hfreed'⟩ := endRun_lists g head
    exact ⟨hlist.trans hlist', hfreed.trans hfreed'⟩

theorem addRoot_lists (g : Collector) (k : ControlState) (action : Action) :
    (g.addRoot k action).objectsList = g.objectsList ∧ (g.addRoot k action).freed = g.freed := by
  unfold Collector.addRoot
  split <;> exact ⟨rfl, rfl⟩

theorem throwString_lists (g : Collector) (d : Data α) (a : Activation) (i : Instruction)
    (outcome : Outcome) (action : Action) :
    (g.throwString d a i outcome action).objectsList = g.objectsList ∧
      (g.throwString d a i outcome action).freed = g.freed := by
  unfold Collector.throwString
  split
  · dsimp only
    split
    · exact ⟨rfl, rfl⟩
    · split <;> exact ⟨rfl, rfl⟩
    · exact ⟨rfl, rfl⟩
  · exact ⟨rfl, rfl⟩

theorem step_lists (g : Collector) (m : Machine α) (a : Activation) (i : Instruction)
    (e : Effect α) (outcome : Outcome) :
    (g.step m a i e outcome).objectsList = g.objectsList ++ added m a i e ∧
      (g.step m a i e outcome).freed = g.freed := by
  unfold Collector.step added
  dsimp only
  rw [(endRuns_lists _ _).1, (endRuns_lists _ _).2, (throwString_lists ..).1, (throwString_lists ..).2,
    (addRoot_lists ..).1, (addRoot_lists ..).2]
  cases hentered : e.action.entered m.control a with
  | none => simp
  | some target => simp [Collector.enterFrame]

theorem added_new {m m' : Machine α} {thread : ℕ} {rest : List Activation} {outcome : Outcome}
    (hstep : StepOf classes m m' thread a rest i e outcome) (hcopies : ¬CopiesString m a i)
    (hcontext : 0 < m.control.nextContext) :
    ∃ news : List Node, added m a i e = news.map .node ∧ news.Nodup ∧
      ∀ n ∈ news, ¬Allocated m n ∧ Allocated m' n := by
  obtain ⟨addresses, hadded, hnodup, hfresh⟩ := added_fresh hstep hcopies
  have hlength : e.data.objects.length ≤ m'.data.objects.length := by
    obtain ⟨texts, hobjects, -⟩ := hstep.objects
    rw [hobjects, List.length_append]
    exact Nat.le_add_right _ _
  have hobjects : ∀ n ∈ addresses.map Node.object, ¬Allocated m n ∧ Allocated m' n := by
    intro n hn
    obtain ⟨x, hx, rfl⟩ := List.mem_map.mp hn
    obtain ⟨hlow, hhigh⟩ := hfresh x hx
    exact ⟨fun h => absurd h.2 (Nat.not_le_of_lt hlow),
      Nat.zero_lt_of_lt hlow, le_trans hhigh hlength⟩
  have hmapped : (addresses.map Node.object).Nodup :=
    hnodup.map fun x y hxy => Node.object.inj hxy
  unfold added
  rw [hadded]
  split
  · rename_i hentered
    have hnext : m'.control.nextContext = m.control.nextContext + 1 := by
      rw [step_nextContext hstep, if_pos hentered]
    refine ⟨addresses.map .object ++ [.context m.control.nextContext], by simp, ?_, ?_⟩
    · apply List.Nodup.append hmapped (List.nodup_singleton _)
      intro n hn hn'
      rw [List.mem_singleton.mp hn'] at hn
      obtain ⟨x, -, hx⟩ := List.mem_map.mp hn
      cases hx
    · intro n hn
      rcases List.mem_append.mp hn with hn | hn
      · exact hobjects n hn
      · rw [List.mem_singleton.mp hn]
        exact ⟨fun h => absurd h.2 (Nat.lt_irrefl _), hcontext, by rw [hnext]; exact Nat.lt_succ_self _⟩
  · exact ⟨addresses.map .object, by simp, hmapped, hobjects⟩

theorem unlisted_step {m m' : Machine α} {g : Collector} {thread : ℕ} {rest : List Activation}
    {outcome : Outcome} {n : Node} (hstep : StepOf classes m m' thread a rest i e outcome)
    (hcopies : ¬CopiesString m a i) (hcontext : 0 < m.control.nextContext) (hn : Allocated m n)
    (hlist : .node n ∉ g.objectsList) : .node n ∉ (g.step m a i e outcome).objectsList := by
  obtain ⟨news, hadded, -, hnews⟩ := added_new hstep hcopies hcontext
  rw [(step_lists g m a i e outcome).1, hadded]
  intro hmem
  rcases List.mem_append.mp hmem with hmem | hmem
  · exact hlist hmem
  · obtain ⟨n', hn', heq⟩ := List.mem_map.mp hmem
    cases heq
    exact (hnews n hn').1 hn

structure Listed (m : Machine α) (g : Collector) (nodes : List Node) : Prop where
  list : g.objectsList = nodes.map .node
  distinct : (nodes ++ g.freed).Nodup
  allocated : ∀ n ∈ nodes ++ g.freed, Allocated m n
  context : 0 < m.control.nextContext

theorem Listed.step {m m' : Machine α} {g : Collector} {thread : ℕ} {rest : List Activation}
    {outcome : Outcome} {nodes : List Node} (h : Listed m g nodes)
    (hstep : StepOf classes m m' thread a rest i e outcome) (hcopies : ¬CopiesString m a i) :
    ∃ nodes', Listed m' (g.step m a i e outcome) nodes' := by
  obtain ⟨news, hadded, hnodup, hnews⟩ := added_new hstep hcopies h.context
  obtain ⟨hlist, hfreed⟩ := step_lists g m a i e outcome
  have hperm : (nodes ++ news ++ g.freed).Perm (nodes ++ g.freed ++ news) := by
    rw [List.append_assoc, List.append_assoc]
    exact List.perm_append_comm.append_left nodes
  refine ⟨nodes ++ news, ?_, ?_, ?_, ?_⟩
  · rw [hlist, h.list, hadded, List.map_append]
  · rw [hfreed, hperm.nodup_iff]
    apply List.Nodup.append h.distinct hnodup
    intro n hold hnew
    exact (hnews n hnew).1 (h.allocated n hold)
  · intro n hn
    rw [hfreed, hperm.mem_iff] at hn
    rcases List.mem_append.mp hn with hn | hn
    · exact (h.allocated n hn).step hstep
    · exact (hnews n hn).2
  · rw [step_nextContext hstep]
    exact Nat.lt_add_right _ h.context

theorem mapM_nodes (nodes : List Node) :
    (nodes.map GcEntry.node).mapM GcEntry.node? = some nodes := by
  induction nodes with
  | nil => rfl
  | cons n nodes ih => simp [ih, GcEntry.node?]

theorem Listed.collected {m : Machine α} {g : Collector} {nodes : List Node} (h : Listed m g nodes) :
    g.collect m = some { g with
      objectsList := (nodes.filter (· ∈ g.marked m)).map .node
      freed := g.freed ++ nodes.filter (· ∉ g.marked m)
      freedStates := g.freedStates ++ (nodes.filter (· ∉ g.marked m)).filterMap m.data.stateOf
      freedBuffers := g.freedBuffers ++
        (nodes.filter (· ∉ g.marked m)).filterMap (m.data.bufferOf g.buffers)
      freedKeyLists := g.freedKeyLists ++ (nodes.filter (· ∉ g.marked m)).filterMap m.data.keyListOf } := by
  unfold Collector.collect
  rw [h.list, mapM_nodes]
  rfl

theorem Listed.collect {m : Machine α} {g g' : Collector} {nodes : List Node} (h : Listed m g nodes)
    (hcollect : g.collect m = some g') : ∃ nodes', Listed m g' nodes' := by
  rw [h.collected] at hcollect
  cases hcollect
  have hperm : (nodes.filter (· ∈ g.marked m) ++ (g.freed ++ nodes.filter (· ∉ g.marked m))).Perm
      (nodes ++ g.freed) := by
    have hsplit : (nodes.filter (· ∈ g.marked m) ++ nodes.filter (· ∉ g.marked m)).Perm nodes := by
      simpa using List.filter_append_perm (· ∈ g.marked m) nodes
    refine (List.perm_append_comm.append_left _).trans ?_
    rw [← List.append_assoc]
    exact hsplit.append_right g.freed
  refine ⟨nodes.filter (· ∈ g.marked m), rfl, ?_, ?_, h.context⟩
  · exact hperm.nodup_iff.mpr h.distinct
  · intro n hn
    exact h.allocated n (hperm.mem_iff.mp hn)

theorem collected_listed {events : List (Event α)} {m : Machine α} {g : Collector}
    (h : Collected classes events m g) (hcopies : ∀ event ∈ events, ¬Event.copiesString event) :
    ∃ nodes, Listed m g nodes := by
  induction h with
  | @boot className code input m staticEntry entry hcode hboot hentry =>
    have hnext : m.control.nextContext = 3 := by
      rw [hentry.control]
      rfl
    have hdistinct : ([Node.context 2, Node.context 1] ++ [] : List Node).Nodup := by decide
    refine ⟨[.context 2, .context 1], rfl, hdistinct, ?_, by rw [hnext]; decide⟩
    intro n hn
    rcases List.mem_cons.mp hn with rfl | hn
    · exact ⟨Nat.two_pos, by rw [hnext]; exact Nat.lt_succ_self 2⟩
    · rw [List.mem_singleton.mp hn]
      exact ⟨Nat.one_pos, by rw [hnext]; decide⟩
  | step h hstep ih =>
    obtain ⟨nodes, hlisted⟩ := ih fun event hevent => hcopies event (List.mem_cons_of_mem _ hevent)
    exact hlisted.step hstep (hcopies _ List.mem_cons_self)
  | collect h hcollect ih =>
    obtain ⟨nodes, hlisted⟩ := ih fun event hevent => hcopies event (List.mem_cons_of_mem _ hevent)
    exact hlisted.collect hcollect

/-- With a register in the list there is no collection to speak of. -/
theorem register_uncollected {m : Machine α} {g : Collector} {c : ContextId} {r : ℕ}
    (h : .register c r ∈ g.objectsList) : g.collect m = none := by
  have hnone : ∀ entries : List GcEntry, .register c r ∈ entries →
      entries.mapM GcEntry.node? = none := by
    intro entries hmem
    induction entries with
    | nil => cases hmem
    | cons entry entries ih =>
      rcases List.mem_cons.mp hmem with rfl | hmem
      · rfl
      · rw [List.mapM_cons, ih hmem]
        cases GcEntry.node? entry <;> rfl
  unfold Collector.collect
  rw [hnone _ h]
  rfl

theorem collected_register {events : List (Event α)} {m : Machine α} {g : Collector}
    (h : Collected classes events m g) (hcopies : ∃ event ∈ events, Event.copiesString event) :
    ∃ c r, .register c r ∈ g.objectsList := by
  induction h with
  | boot hcode hboot hentry =>
    obtain ⟨event, hevent, -⟩ := hcopies
    cases hevent
  | @step events m m' g thread a rest i e outcome h hstep ih =>
    rw [(step_lists g m a i e outcome).1]
    obtain ⟨event, hevent, hcopy⟩ := hcopies
    rcases List.mem_cons.mp hevent with rfl | hevent
    · exact ⟨a.currentContext, i.r1.reg, List.mem_append_right _
        (List.mem_append_left _ (added_register hstep hcopy))⟩
    · obtain ⟨c, r, hmem⟩ := ih ⟨event, hevent, hcopy⟩
      exact ⟨c, r, List.mem_append_left _ hmem⟩
  | collect h hcollect ih =>
    obtain ⟨event, hevent, hcopy⟩ := hcopies
    rcases List.mem_cons.mp hevent with rfl | hevent
    · exact hcopy.elim
    · obtain ⟨c, r, hmem⟩ := ih ⟨event, hevent, hcopy⟩
      rw [register_uncollected hmem] at hcollect
      cases hcollect

theorem collected_copies {events : List (Event α)} {m : Machine α} {g g' : Collector}
    (h : Collected classes events m g)
    (hcollect : g.collect m = some g') : ∀ event ∈ events, ¬Event.copiesString event := by
  intro event hevent hcopy
  obtain ⟨c, r, hmem⟩ := collected_register h ⟨event, hevent, hcopy⟩
  rw [register_uncollected hmem] at hcollect
  cases hcollect

omit [NumOps α] in
theorem Listed.wellListed {m : Machine α} {g : Collector} {nodes : List Node} (h : Listed m g nodes) :
    WellListed m g where
  allocated entry hentry := by
    rw [h.list] at hentry
    obtain ⟨n, hn, rfl⟩ := List.mem_map.mp hentry
    exact ⟨n, rfl, h.allocated n (List.mem_append_left _ hn),
      fun hfreed => (List.nodup_append.mp h.distinct).2.2 n hn n hfreed rfl⟩
  distinct := by
    rw [h.list]
    exact (List.nodup_append.mp h.distinct).1.map fun x y hxy => GcEntry.node.inj hxy

theorem Listed.sweepsOnce {m : Machine α} {g : Collector} {nodes : List Node} (h : Listed m g nodes) :
    SweepsOnce m g := by
  obtain ⟨hnodup, -, hdisjoint⟩ := List.nodup_append.mp h.distinct
  refine ⟨_, h.collected, fun n hn => ?_⟩
  rw [h.list] at hn
  have hmem : n ∈ nodes := by simpa using hn
  have hfreed : g.freed.count n = 0 :=
    List.count_eq_zero.mpr fun hn' => hdisjoint n hmem n hn' rfl
  have hkept : ((nodes.filter (· ∈ g.marked m)).map GcEntry.node).count (.node n) =
      (nodes.filter (· ∈ g.marked m)).count n :=
    List.count_map_of_injective _ _ (fun x y hxy => GcEntry.node.inj hxy) _
  have hone : nodes.count n = 1 := List.count_eq_one_of_mem hnodup hmem
  dsimp only
  rw [hkept, List.count_append, hfreed, Nat.zero_add]
  constructor
  · intro hmarked
    constructor
    · rw [List.count_filter (by simpa using hmarked), hone]
    · exact List.count_eq_zero.mpr fun hn' => by simp [hmarked] at hn'
  · intro hunmarked
    constructor
    · exact List.count_eq_zero.mpr fun hn' => by simp [hunmarked] at hn'
    · rw [List.count_filter (by simpa using hunmarked), hone]

theorem Listed.mem_freed {m : Machine α} {g g' : Collector} {nodes : List Node} (h : Listed m g nodes) (hcollect : g.collect m = some g')
    (n : Node) : n ∈ g'.freed ↔ n ∈ g.freed ∨ n ∈ nodes ∧ ¬Reached m g n := by
  rw [h.collected] at hcollect
  cases hcollect
  simp [marked_iff]

omit [NumOps α] in
theorem Listed.mem_list {m : Machine α} {g : Collector} {nodes : List Node} (h : Listed m g nodes)
    (n : Node) : .node n ∈ g.objectsList ↔ n ∈ nodes := by
  simp [h.list]

theorem freed_iff {events : List (Event α)} {m : Machine α} {g : Collector}
    (h : Collected classes events m g) (hcopies : ∀ event ∈ events, ¬Event.copiesString event)
    (n : Node) : n ∈ g.freed ↔ ∃ m₀ g₀, .collected m₀ g₀ ∈ events ∧ .node n ∈ g₀.objectsList ∧
      ¬Reached m₀ g₀ n := by
  induction h with
  | boot =>
    constructor
    · exact fun hn => absurd hn List.not_mem_nil
    · rintro ⟨m₀, g₀, hmem, -⟩
      cases hmem
  | @step events m m' g thread a rest i e outcome h hstep ih =>
    rw [(step_lists g m a i e outcome).2,
      ih fun event hevent => hcopies event (List.mem_cons_of_mem _ hevent)]
    simp
  | collect h hcollect ih =>
    have hold := fun event hevent => hcopies event (List.mem_cons_of_mem _ hevent)
    obtain ⟨nodes, hlisted⟩ := collected_listed h hold
    rw [hlisted.mem_freed hcollect, ih hold, ← hlisted.mem_list]
    constructor
    · rintro (⟨m₀, g₀, hmem, hn⟩ | hn)
      · exact ⟨m₀, g₀, List.mem_cons_of_mem _ hmem, hn⟩
      · exact ⟨_, _, List.mem_cons_self, hn⟩
    · rintro ⟨m₀, g₀, hmem, hn⟩
      rcases List.mem_cons.mp hmem with heq | hmem
      · cases heq
        exact Or.inr hn
      · exact Or.inl ⟨m₀, g₀, hmem, hn⟩

/-- The list is right until `substring` is called with a number, and never after. -/
theorem well_listed_iff {events : List (Event α)} {m : Machine α} {g : Collector}
    (h : Collected classes events m g) :
    (WellListed m g ∧ SweepsOnce m g) ↔ ∀ event ∈ events, ¬Event.copiesString event := by
  constructor
  · rintro ⟨hlisted, -⟩ event hevent hcopy
    obtain ⟨c, r, hmem⟩ := collected_register h ⟨event, hevent, hcopy⟩
    obtain ⟨n, hn, -⟩ := hlisted.allocated _ hmem
    cases hn
  · intro hcopies
    obtain ⟨nodes, hnodes⟩ := collected_listed h hcopies
    exact ⟨hnodes.wellListed, hnodes.sweepsOnce⟩

instance [DecidableEq α] (m : Machine α) (a : Activation) (i : Instruction) :
    Decidable (CopiesString m a i) := inferInstanceAs (Decidable (_ ∧ _ ∧ _))

instance [DecidableEq α] (event : Event α) : Decidable (Event.copiesString event) :=
  match event with
  | .ran m a i => inferInstanceAs (Decidable (CopiesString m a i))
  | .collected _ _ => isFalse id

end

/-- `class Main { var t = "abc".substring(argument); }`. -/
def sampleProgram (argument : Expr) : List ClassDeclaration :=
  [⟨"Main", [], [.var "t" (.methodCall (.binary .dot (.str "abc") (.str "substring")) [argument])
      false false, .function true false false "__static__constructor__" [] []], []⟩]

def sampleRun (argument : Expr) : Option (Progress ℚ) :=
  runCollected 3 (sampleProgram argument) (List.replicate 11 (.thread 0))

/-- `"abc".substring(1)` lists the register of its result. -/
theorem substring_lists_register :
    ∃ (events : List (Event ℚ)) (m : Machine ℚ) (g : Collector),
      Collected (imagesOf 3 (sampleProgram (.num "1"))) events m g ∧ ¬WellListed m g := by
  have hrun : (sampleRun (.num "1")).any
      (fun h => decide (.register 1 2 ∈ h.collector.objectsList)) = true := by decide +kernel
  obtain ⟨h, hcollected, hmem⟩ := runCollected_any hrun
  refine ⟨h.events, h.machine, h.collector, hcollected, fun hlisted => ?_⟩
  obtain ⟨n, hn, -⟩ := hlisted.allocated _ (of_decide_eq_true hmem)
  cases hn

/-- `"abc".substring("1")` makes no string. -/
theorem text_argument_lists_objects :
    ∃ (events : List (Event ℚ)) (m : Machine ℚ) (g : Collector),
      Collected (imagesOf 3 (sampleProgram (.str "1"))) events m g ∧ events.length = 11 ∧
        WellListed m g ∧ SweepsOnce m g := by
  have hrun : (sampleRun (.str "1")).any (fun h => decide (h.events.length = 11 ∧
      ∀ event ∈ h.events, ¬Event.copiesString event)) = true := by decide +kernel
  obtain ⟨h, hcollected, hevents⟩ := runCollected_any hrun
  obtain ⟨hlength, hcopies⟩ := of_decide_eq_true hevents
  exact ⟨h.events, h.machine, h.collector, hcollected, hlength,
    (well_listed_iff hcollected).mpr hcopies⟩

end Zeroscript.ObjectsList
