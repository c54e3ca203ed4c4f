import Zeroscript.ObjectsList

/-! # `gc` with its marks and its recursion

`Collector.collect` says which objects a collection keeps. Here are the functions that find them: a
marked object carries the version of the collection, an interpreter state carries no mark, and the
recursion goes through both. `none` stands for a recursion deeper than its bound, and for a freed
object that is read again. -/
namespace Zeroscript.GarbageCollector

abbrev Versions := Node → BitVec 32

/-- `gc_visit_object`, which may get `NULL`. -/
abbrev Visitor := Versions → Option Node → Option Versions

section

variable {α : Type} (m : Machine α) (localsCount : ContextId → ℕ) (version : BitVec 32)

/-- `reg->val`, for a register that is neither a number nor a native function. -/
def pointee (r : Reg α) : Option Node :=
  match r.val, m.data.object r with
  | .raw address, some _ => some (.object address)
  | _, _ => none

def contextPointer (c : ContextId) : Option Node :=
  if c = 0 ∨ m.control.nextContext ≤ c then none else some (.context c)

variable (visit : Visitor) (v : Versions)

def gcVisitRegister (r : Reg α) : Option Versions :=
  if r.type ≠ .number ∧ r.type ≠ .nativeFunc then visit v (pointee m r) else some v

def gcVisitStack (stackStart : StackId) (stackPtr : ℤ) : Option Versions :=
  (List.range stackPtr.toNat).foldlM
    (fun v i => gcVisitRegister m visit v (m.data.valueStacks stackStart (i + 1))) v

def gcVisitState (s : StateId) : Option Versions := do
  let c := m.control.states s
  let v ← visit v (contextPointer m c.currentContext)
  let v ← visit v (contextPointer m (m.data.states s).rootContext)
  gcVisitStack m visit v c.stackStart c.stackPtr

def gcVisitFunctionRef (parent : ContextId) (s : StateId) : Option Versions := do
  gcVisitState m visit (← visit v (contextPointer m parent)) s

def gcVisitInstance (s : StateId) : Option Versions := gcVisitState m visit v s

/-- The entries of a map, bag by bag. -/
def bagged (properties : ZMap (Reg α)) : List (MapEntry (Reg α)) :=
  (List.range 10).flatMap fun bag => properties.entries.filter fun entry => ZMap.hash entry.key == bag

def gcVisitObjectWithMap (properties : ZMap (Reg α)) : Option Versions :=
  (bagged properties).foldlM (fun v entry => gcVisitRegister m visit v entry.value) v

def gcVisitStatics (info : TypeInfo α) : Option Versions :=
  info.staticVariables.keyList.foldlM
    (fun v name => (info.staticVariables.get name).bind (gcVisitRegister m visit v)) v

variable [NumOps α]

def gcVisitContext (c : ContextId) : Option Versions := do
  let v ← ((List.range (localsCount c)).drop 2).foldlM
    (fun v i => gcVisitRegister m visit v (m.data.regs c i)) v
  let v ← visit v (contextPointer m (m.data.contexts c).parentContext)
  visit v (contextPointer m (m.control.links c).returnContext)

/-- The number bounds the depth of the recursion. -/
def gcVisitObject : ℕ → Visitor
  | _, v, none => some v
  | 0, _, some _ => none
  | levels + 1, v, some n =>
    if v n = version then some v
    else
      let visit := gcVisitObject levels
      let v := Function.update v n version
      match n with
      | .context c => gcVisitContext m localsCount visit v c
      | .object address =>
        match m.data.objects[address - 1]? with
        | some (.json properties _) => gcVisitObjectWithMap m visit v properties
        | some (.instanceObject s) => gcVisitInstance m visit v s
        | some (.functionRef _ _ parent s) => gcVisitFunctionRef m visit v parent s
        | _ => some v

/-- The new `gc_objects_list`, and what has been freed. -/
structure Sweep where
  newList : List Node := []
  freed : List Node := []

def Sweep.entry (lists : Sweep) (n : Node) : Option Sweep :=
  if n ∈ lists.freed then none
  else if v n ≠ version then some { lists with freed := lists.freed ++ [n] }
  else some { lists with newList := lists.newList ++ [n] }

/-- `gc`, which also increments `gc_version`. -/
def gc (g : Collector) (levels : ℕ) : Option (BitVec 32 × Versions × Sweep) := do
  let version := version + 1
  let visit := gcVisitObject m g.localsCount version levels
  let v ← g.roots.foldlM (gcVisitState m visit) v
  let v ← m.data.knownTypes.foldlM (fun v t => gcVisitStatics m visit v t.2) v
  let lists ← (← g.objectsList.mapM GcEntry.node?).foldlM (Sweep.entry version v) {}
  return (version, v, lists)

end

section

variable {α : Type} {m : Machine α} {localsCount : ContextId → ℕ} {visit : Visitor} {v : Versions}

def walk (visit : Visitor) (v : Versions) (nodes : List Node) : Option Versions :=
  nodes.foldlM (fun v n => visit v (some n)) v

theorem walk_append {xs ys : List Node} :
    walk visit v (xs ++ ys) = (walk visit v xs).bind fun v => walk visit v ys :=
  List.foldlM_append

theorem foldlM_walk {β : Type} {xs : List β} {f : β → List Node} {step : Versions → β → Option Versions}
    (h : ∀ x ∈ xs, ∀ v, step v x = walk visit v (f x)) :
    xs.foldlM step v = walk visit v (xs.flatMap f) := by
  induction xs generalizing v with
  | nil => rfl
  | cons x xs ih =>
    rw [List.flatMap_cons, walk_append, List.foldlM_cons, h x List.mem_cons_self]
    exact bind_congr fun v' => ih fun y hy => h y (List.mem_cons_of_mem _ hy)

def edges (m : Machine α) [NumOps α] (localsCount : ContextId → ℕ) : Node → List Node
  | .object address =>
    match m.data.objects[address - 1]? with
    | some (.json properties _) => (bagged properties).flatMap (m.data.registerNodes ·.value)
    | _ => m.nextNodes localsCount (.object address)
  | .context c => m.nextNodes localsCount (.context c)

variable (hnull : ∀ v, visit v none = some v)
include hnull

theorem gcVisitRegister_walk {r : Reg α} :
    gcVisitRegister m visit v r = walk visit v (m.data.registerNodes r) := by
  unfold gcVisitRegister pointee Data.registerNodes
  split
  · rename_i htype
    obtain ⟨hnumber, hnative⟩ := htype
    split <;> simp_all [walk]
  · rename_i htype
    split <;> simp_all [walk]

theorem contextPointer_walk {c : ContextId} :
    visit v (contextPointer m c) = walk visit v (m.control.contextNodes c) := by
  unfold contextPointer ControlState.contextNodes
  split
  · exact hnull v
  · simp [walk]

theorem gcVisitState_walk {s : StateId} :
    gcVisitState m visit v s = walk visit v (m.stateNodes s) := by
  unfold gcVisitState gcVisitStack Machine.stateNodes
  simp only [contextPointer_walk hnull, walk_append]
  rw [Option.bind_assoc]
  refine bind_congr fun v' => bind_congr fun v'' => ?_
  exact foldlM_walk fun _ _ _ => gcVisitRegister_walk hnull

theorem gcVisitFunctionRef_walk {parent : ContextId} {s : StateId} :
    gcVisitFunctionRef m visit v parent s =
      walk visit v (m.control.contextNodes parent ++ m.stateNodes s) := by
  unfold gcVisitFunctionRef
  simp only [contextPointer_walk hnull, gcVisitState_walk hnull, walk_append]
  rfl

theorem gcVisitObjectWithMap_walk {properties : ZMap (Reg α)} :
    gcVisitObjectWithMap m visit v properties =
      walk visit v ((bagged properties).flatMap (m.data.registerNodes ·.value)) :=
  foldlM_walk fun _ _ _ => gcVisitRegister_walk hnull

theorem gcVisitStatics_walk {info : TypeInfo α} :
    gcVisitStatics m visit v info = walk visit v (info.staticNodes m.data) := by
  unfold gcVisitStatics TypeInfo.staticNodes
  refine foldlM_walk fun name hname v => ?_
  obtain ⟨value, hvalue⟩ := ZMap.get_of_mem_keyList hname
  rw [hvalue]
  simpa using gcVisitRegister_walk hnull

theorem gcVisitContext_walk [NumOps α] {c : ContextId} :
    gcVisitContext m localsCount visit v c =
      walk visit v (m.nextNodes localsCount (.context c)) := by
  unfold gcVisitContext Machine.nextNodes
  simp only [contextPointer_walk hnull, walk_append]
  rw [Option.bind_assoc]
  have hlocals : ((List.range (localsCount c)).drop 2).foldlM
      (fun v i => gcVisitRegister m visit v (m.data.regs c i)) v =
        walk visit v (((List.range (localsCount c)).drop 2).flatMap fun i =>
          m.data.registerNodes (m.data.regs c i)) :=
    foldlM_walk fun _ _ _ => gcVisitRegister_walk hnull
  rw [← hlocals]
  rfl

end

section

variable {α : Type} [NumOps α] {m : Machine α} {localsCount : ContextId → ℕ} {version : BitVec 32}

@[simp] theorem gcVisitObject_null {levels : ℕ} {v : Versions} :
    gcVisitObject m localsCount version levels v none = some v := by
  cases levels <;> rfl

theorem gcVisitObject_walk {levels : ℕ} {v : Versions} {n : Node} :
    gcVisitObject m localsCount version (levels + 1) v (some n) =
      if v n = version then some v
      else walk (gcVisitObject m localsCount version levels) (Function.update v n version)
        (edges m localsCount n) := by
  have hnull : ∀ v, gcVisitObject m localsCount version levels v none = some v :=
    fun _ => gcVisitObject_null
  rw [gcVisitObject]
  split
  · rfl
  · cases n with
    | context c => exact gcVisitContext_walk hnull
    | object address =>
      unfold edges Machine.nextNodes
      dsimp only
      cases m.data.objects[address - 1]? with
      | none => rfl
      | some o =>
        cases o with
        | json properties _ => exact gcVisitObjectWithMap_walk hnull
        | instanceObject s => exact gcVisitState_walk hnull
        | functionRef _ _ parent s => exact gcVisitFunctionRef_walk hnull
        | string _ _ => rfl
        | classRef _ => rfl

omit [NumOps α] in
theorem mem_bagged {properties : ZMap (Reg α)} {entry : MapEntry (Reg α)} :
    entry ∈ bagged properties ↔ entry ∈ properties.entries := by
  unfold bagged
  constructor
  · intro h
    obtain ⟨bag, -, h⟩ := List.mem_flatMap.mp h
    exact List.mem_of_mem_filter h
  · intro h
    refine List.mem_flatMap.mpr ⟨ZMap.hash entry.key, ?_, ?_⟩
    · exact List.mem_range.mpr (Nat.mod_lt _ (by decide))
    · exact List.mem_filter.mpr ⟨h, by simp⟩

theorem mem_edges {x n : Node} : n ∈ edges m localsCount x ↔ n ∈ m.nextNodes localsCount x := by
  unfold edges
  split
  · split
    · rename_i hobject
      unfold Machine.nextNodes
      simp only [hobject, List.mem_flatMap, mem_bagged]
    · rfl
  · rfl

/-- The objects `marked` carry the new version. -/
def paint (version : BitVec 32) (v : Versions) (marked : List Node) : Versions := fun n =>
  if n ∈ marked then version else v n

omit [NumOps α] in
theorem paint_cons {v : Versions} {marked : List Node} {n : Node} :
    Function.update (paint version v marked) n version = paint version v (n :: marked) := by
  funext x
  unfold paint
  by_cases hx : x = n
  · simp [hx]
  · simp [hx]

omit [NumOps α] in
theorem walk_paint {v : Versions} {visit : Visitor} {step : List Node → Node → Option (List Node)}
    {marked nodes : List Node}
    (hvisit : ∀ marked, ∀ n ∈ m.nodes,
      visit (paint version v marked) (some n) = (step marked n).map (paint version v))
    (hnodes : ∀ n ∈ nodes, n ∈ m.nodes) :
    walk visit (paint version v marked) nodes = (nodes.foldlM step marked).map (paint version v) := by
  induction nodes generalizing marked with
  | nil => rfl
  | cons n nodes ih =>
    unfold walk
    rw [List.foldlM_cons, List.foldlM_cons, hvisit marked n (hnodes n List.mem_cons_self)]
    cases step marked n with
    | none => rfl
    | some marked' => exact ih fun x hx => hnodes x (List.mem_cons_of_mem _ hx)

/-- The functions mark just as the marker of a graph does. -/
theorem gcVisitObject_paint {v : Versions} (hfresh : ∀ n ∈ m.nodes, v n ≠ version) {levels : ℕ}
    {marked : List Node} {n : Node} (hn : n ∈ m.nodes) :
    gcVisitObject m localsCount version levels (paint version v marked) (some n) =
      (DepthFirst.tryVisit (edges m localsCount) levels marked n).map (paint version v) := by
  induction levels generalizing marked n with
  | zero => rfl
  | succ levels ih =>
    rw [gcVisitObject_walk, DepthFirst.tryVisit]
    by_cases hmem : n ∈ marked
    · simp [paint, hmem]
    · have hold : paint version v marked n ≠ version := by
        simpa [paint, hmem] using hfresh n hn
      rw [if_neg hold, if_neg hmem, paint_cons]
      exact walk_paint (fun marked x hx => ih hx) fun x hx => nextNodes_nodes (mem_edges.mp hx)

omit [NumOps α] in
theorem rootNodes_walk {visit : Visitor} (hnull : ∀ v, visit v none = some v) {g : Collector}
    {v : Versions} :
    (g.roots.foldlM (gcVisitState m visit) v).bind
      (m.data.knownTypes.foldlM fun v t => gcVisitStatics m visit v t.2) =
        walk visit v (g.rootNodes m) := by
  unfold Collector.rootNodes
  have hstates : g.roots.foldlM (gcVisitState m visit) v = walk visit v (g.roots.flatMap m.stateNodes) :=
    foldlM_walk fun _ _ _ => gcVisitState_walk hnull
  rw [walk_append, hstates]
  congr 1
  funext v'
  exact foldlM_walk fun _ _ _ => gcVisitStatics_walk hnull

theorem mark_phase {g : Collector} {v : Versions} (hfresh : ∀ n ∈ m.nodes, v n ≠ version)
    {levels : ℕ} (hlevels : m.nodes.card < levels) :
    ∃ marked, walk (gcVisitObject m g.localsCount version levels) v (g.rootNodes m) =
        some (paint version v marked) ∧ ∀ n, n ∈ marked ↔ Reached m g n := by
  have hU : ∀ x ∈ m.nodes, ∀ y ∈ edges m g.localsCount x, y ∈ m.nodes :=
    fun x _ y hy => nextNodes_nodes (mem_edges.mp hy)
  have hroots : ∀ n ∈ g.rootNodes m, n ∈ m.nodes := fun n hn => rootNodes_nodes hn
  obtain ⟨marked, hmarked, hreach⟩ := DepthFirst.tryVisitAll_iff hU hroots hlevels
  refine ⟨marked, ?_, fun n => (hreach n).trans ⟨?_, ?_⟩⟩
  · have hwalk : walk (gcVisitObject m g.localsCount version levels) (paint version v [])
        (g.rootNodes m) = _ :=
      walk_paint (fun marked n hn => gcVisitObject_paint hfresh hn) hroots
    have hnil : paint version v [] = v := by
      funext n
      simp [paint]
    rw [hmarked, hnil] at hwalk
    exact hwalk
  · exact DepthFirst.Reach.mono fun x y hy => mem_edges.mp hy
  · exact DepthFirst.Reach.mono fun x y hy => mem_edges.mpr hy

omit [NumOps α] in
theorem sweep_nodes {v : Versions} {nodes : List Node} {lists : Sweep} (hnodup : nodes.Nodup)
    (hfreed : ∀ n ∈ nodes, n ∉ lists.freed) :
    nodes.foldlM (Sweep.entry version v) lists =
      some ⟨lists.newList ++ nodes.filter (v · = version),
        lists.freed ++ nodes.filter (v · ≠ version)⟩ := by
  induction nodes generalizing lists with
  | nil => simp
  | cons n nodes ih =>
    obtain ⟨hn, hnodup⟩ := List.nodup_cons.mp hnodup
    rw [List.foldlM_cons, Sweep.entry, if_neg (hfreed n List.mem_cons_self)]
    by_cases hv : v n = version
    · rw [if_neg (not_not.mpr hv), Option.bind_eq_bind, Option.bind_some, ih hnodup]
      · simp [hv]
      · exact fun x hx => hfreed x (List.mem_cons_of_mem _ hx)
    · rw [if_pos hv, Option.bind_eq_bind, Option.bind_some, ih hnodup]
      · simp [hv]
      · intro x hx hmem
        rcases List.mem_append.mp hmem with hmem | hmem
        · exact hfreed x (List.mem_cons_of_mem _ hx) hmem
        · exact hn (List.mem_singleton.mp hmem ▸ hx)

/-- The whole of `gc`: the marks and the two halves of the list. -/
theorem gc_eq {g : Collector} {nodes : List Node} (hlist : g.objectsList = nodes.map .node)
    (hnodup : nodes.Nodup) {v : Versions} (hfresh : ∀ n ∈ m.nodes, v n ≠ version + 1) {levels : ℕ}
    (hlevels : m.nodes.card < levels) :
    ∃ marked, (∀ n, n ∈ marked ↔ Reached m g n) ∧
      gc m version v g levels = some (version + 1, paint (version + 1) v marked,
        ⟨nodes.filter (paint (version + 1) v marked · = version + 1),
          nodes.filter (paint (version + 1) v marked · ≠ version + 1)⟩) := by
  obtain ⟨marked, hwalk, hreach⟩ := mark_phase hfresh hlevels
  refine ⟨marked, hreach, ?_⟩
  rw [← rootNodes_walk fun _ => gcVisitObject_null] at hwalk
  obtain ⟨v', hstates, hstatics⟩ := Option.bind_eq_some_iff.mp hwalk
  have hsweep : nodes.foldlM (Sweep.entry (version + 1) (paint (version + 1) v marked)) {} = _ :=
    sweep_nodes hnodup fun n _ => List.not_mem_nil
  unfold gc
  rw [hlist, ObjectsList.mapM_nodes]
  simp only [hstates, hstatics, hsweep, Option.bind_eq_bind, Option.bind_some, List.nil_append]
  rfl

omit [NumOps α] in
theorem listed_nodes {g : Collector} (h : ObjectsList.WellListed m g) :
    ∃ nodes : List Node, g.objectsList = nodes.map .node := by
  have hrange : g.objectsList ∈ Set.range (List.map GcEntry.node) := by
    rw [Set.range_list_map]
    intro entry hentry
    obtain ⟨n, hn, -⟩ := h.allocated entry hentry
    exact ⟨n, hn.symm⟩
  obtain ⟨nodes, hnodes⟩ := hrange
  exact ⟨nodes, hnodes.symm⟩

omit [NumOps α] in
theorem allocated_nodes {n : Node} (h : ObjectsList.Allocated m n) : n ∈ m.nodes := by
  cases n with
  | object address => exact Machine.object_mem_nodes.mpr h
  | context c => exact Machine.context_mem_nodes.mpr h

/-- However the heap is linked, `gc` ends, marks just what can be reached, leaves the other objects'
marks alone, and keeps just the marked entries of the list, in their order. -/
theorem gc_marks_reachable {g : Collector} (hlisted : ObjectsList.WellListed m g) {v : Versions}
    (hfresh : ∀ n ∈ m.nodes, v n ≠ version + 1) {levels : ℕ} (hlevels : m.nodes.card < levels) :
    ∃ (v' : Versions) (lists : Sweep), gc m version v g levels = some (version + 1, v', lists) ∧
      (∀ n ∈ m.nodes, v' n = version + 1 ↔ Reached m g n) ∧
      (∀ n, ¬Reached m g n → v' n = v n) ∧
      lists.newList.map .node =
        g.objectsList.filter (·.node?.any fun n => v' n = version + 1) ∧
      lists.freed.map .node =
        g.objectsList.filter (·.node?.any fun n => v' n ≠ version + 1) := by
  obtain ⟨nodes, hlist⟩ := listed_nodes hlisted
  have hnodup : nodes.Nodup := by
    have hdistinct := hlisted.distinct
    rw [hlist] at hdistinct
    exact List.Nodup.of_map _ hdistinct
  obtain ⟨marked, hreach, hgc⟩ := gc_eq hlist hnodup hfresh hlevels
  refine ⟨_, _, hgc, fun n hn => ?_, fun n hn => ?_, ?_, ?_⟩
  · rw [← hreach n]
    by_cases hmem : n ∈ marked
    · simp [paint, hmem]
    · simpa [paint, hmem] using hfresh n hn
  · have hmem : n ∉ marked := fun hmem => hn ((hreach n).mp hmem)
    simp [paint, hmem]
  · rw [hlist, List.filter_map]
    rfl
  · rw [hlist, List.filter_map]
    rfl

theorem gc_collect {g g' : Collector} (hlisted : ObjectsList.WellListed m g)
    (hcollect : g.collect m = some g') {v : Versions} (hfresh : ∀ n ∈ m.nodes, v n ≠ version + 1)
    {levels : ℕ} (hlevels : m.nodes.card < levels) :
    ∃ (v' : Versions) (lists : Sweep), gc m version v g levels = some (version + 1, v', lists) ∧
      g'.objectsList = lists.newList.map .node ∧ g'.freed = g.freed ++ lists.freed := by
  obtain ⟨nodes, hlist⟩ := listed_nodes hlisted
  have hdistinct := hlisted.distinct
  rw [hlist] at hdistinct
  obtain ⟨marked, hreach, hgc⟩ := gc_eq hlist (List.Nodup.of_map _ hdistinct) hfresh hlevels
  have hmarked : ∀ n ∈ nodes, paint (version + 1) v marked n = version + 1 ↔ n ∈ g.marked m := by
    intro n hn
    rw [marked_iff, ← hreach n]
    by_cases hmem : n ∈ marked
    · simp [paint, hmem]
    · obtain ⟨_, hentry, halloc, -⟩ := hlisted.allocated (.node n) (by simp [hlist, hn])
      cases hentry
      simpa [paint, hmem] using hfresh n (allocated_nodes halloc)
  unfold Collector.collect at hcollect
  rw [hlist, ObjectsList.mapM_nodes] at hcollect
  cases hcollect
  refine ⟨_, _, hgc, ?_, ?_⟩
  · refine congrArg _ (List.filter_congr fun n hn => ?_)
    exact decide_eq_decide.mpr (hmarked n hn).symm
  · refine congrArg _ (List.filter_congr fun n hn => ?_)
    exact decide_eq_decide.mpr (not_congr (hmarked n hn).symm)

/-- State 0 has an instance on its stack whose state is state 0; a JSON object stands alone. -/
def cyclicMachine : Machine ℚ :=
  ⟨⟨[.instanceObject 0, .json .new 0], fun _ => {}, fun _ => ⟨"Main", [], 0, 0⟩, fun _ => .null,
      fun _ => "", fun _ _ => ⟨.instanceObj, .raw 1⟩, [], [], .new, [], []⟩,
    ⟨fun _ => {}, fun _ => { stackPtr := 1 }, 1, 1, 1⟩, [], none⟩

def cyclicCollector : Collector :=
  { objectsList := [.node (.object 1), .node (.object 2)], statesList := [0] }

theorem cyclic_heap_marked :
    ∃ (v' : Versions) (lists : Sweep),
      gc cyclicMachine 6 (fun _ => 0) cyclicCollector 4 = some (7, v', lists) ∧
      (∀ n ∈ cyclicMachine.nodes, v' n = 7 ↔ Reached cyclicMachine cyclicCollector n) ∧
      (∀ n, ¬Reached cyclicMachine cyclicCollector n → v' n = 0) ∧
      lists.newList.map .node =
        cyclicCollector.objectsList.filter (·.node?.any fun n => v' n = 7) ∧
      lists.freed.map .node =
        cyclicCollector.objectsList.filter (·.node?.any fun n => v' n ≠ 7) := by
  refine gc_marks_reachable ⟨?_, by decide⟩ (fun n _ => by decide) ?_
  · intro entry hentry
    simp only [cyclicCollector, List.mem_cons, List.not_mem_nil, or_false] at hentry
    rcases hentry with rfl | rfl
    · exact ⟨.object 1, rfl, ⟨by decide, by decide⟩, List.not_mem_nil⟩
    · exact ⟨.object 2, rfl, ⟨by decide, by decide⟩, List.not_mem_nil⟩
  · exact lt_of_le_of_lt cyclicMachine.card_nodes (by decide)

end

end Zeroscript.GarbageCollector
