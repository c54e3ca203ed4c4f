import Zeroscript.ClassCode
import Zeroscript.Marking
import Zeroscript.Number
import Zeroscript.ObjectsList

/-! # Objects that the program can load

What a program can get at is defined by what its instructions read: `Loads` has one rule for every
kind of location. `Missed` names the locations among them that the collector does not look at. -/
namespace Zeroscript.LiveObjects

open ObjectsList

/-- Where a program can be: at an object, or in an interpreter state. -/
inductive Place where
  | node (n : Node)
  | state (s : StateId)

section

variable {α : Type}

def activationNodes (m : Machine α) (a : Activation) : List Node :=
  m.control.contextNodes a.currentContext ++ m.stateNodes a.state

variable [NumOps α]

/-- From a place the program can load what is at another one. -/
inductive Loads (m : Machine α) (localsCount : ContextId → ℕ) : Place → Place → Prop where
  /-- A property of a JSON object. -/
  | property {address cache : Addr} {properties : ZMap (Reg α)} {name : String} {value : Reg α}
      {n : Node} (ho : m.data.objects[address - 1]? = some (.json properties cache))
      (hget : properties.get name = some value) (hn : n ∈ m.data.registerNodes value) :
      Loads m localsCount (.node (.object address)) (.node n)
  /-- A property set on a string; all strings have them in common. -/
  | stringProperty {address cache : Addr} {text name : String} {value : Reg α} {n : Node}
      (ho : m.data.objects[address - 1]? = some (.string text cache))
      (hget : m.data.stringProperties.get name = some value) (hn : n ∈ m.data.registerNodes value) :
      Loads m localsCount (.node (.object address)) (.node n)
  /-- The list that `keys` has made and returns again. -/
  | keyList {address cache : Addr} {properties : ZMap (Reg α)}
      (ho : m.data.propertiesAt address = some (properties, cache)) (hcache : cache ≠ 0) :
      Loads m localsCount (.node (.object address)) (.node (.object cache))
  /-- A field of an instance. -/
  | instanceState {address : Addr} {s : StateId}
      (ho : m.data.objects[address - 1]? = some (.instanceObject s)) :
      Loads m localsCount (.node (.object address)) (.state s)
  /-- The frame of a function gets its `this` from the state and its scope from the parent. -/
  | function {address : Addr} {start : ℕ} {isAsync : Bool} {parent : ContextId} {s : StateId}
      (ho : m.data.objects[address - 1]? = some (.functionRef start isAsync parent s)) :
      Loads m localsCount (.node (.object address)) (.state s)
  | functionScope {address : Addr} {start : ℕ} {isAsync : Bool} {parent : ContextId} {s : StateId}
      {n : Node} (ho : m.data.objects[address - 1]? = some (.functionRef start isAsync parent s))
      (hn : n ∈ m.control.contextNodes parent) :
      Loads m localsCount (.node (.object address)) (.node n)
  | register {c : ContextId} {r : ℕ} {n : Node} (hr : r < localsCount c)
      (hn : n ∈ m.data.registerNodes (m.data.regs c r)) :
      Loads m localsCount (.node (.context c)) (.node n)
  | scope {c : ContextId} {n : Node}
      (hn : n ∈ m.control.contextNodes (m.data.contexts c).parentContext) :
      Loads m localsCount (.node (.context c)) (.node n)
  | caller {c : ContextId} {n : Node}
      (hn : n ∈ m.control.contextNodes (m.control.links c).returnContext) :
      Loads m localsCount (.node (.context c)) (.node n)
  | root {s : StateId} {n : Node}
      (hn : n ∈ m.control.contextNodes (m.data.states s).rootContext) :
      Loads m localsCount (.state s) (.node n)
  | shared {s : StateId} {name : String} {value : Reg α} {n : Node}
      (hget : (m.data.sharedOf s).get name = some value) (hn : n ∈ m.data.registerNodes value) :
      Loads m localsCount (.state s) (.node n)

/-- What the program can still load: from the running states and the static variables. -/
inductive Accessible (m : Machine α) (localsCount : ContextId → ℕ) : Place → Prop where
  | running {a : Activation} (ha : a ∈ m.activations) : Accessible m localsCount (.state a.state)
  | frame {a : Activation} {n : Node} (ha : a ∈ m.activations) (hn : n ∈ activationNodes m a) :
      Accessible m localsCount (.node n)
  | static {className name : String} {info : TypeInfo α} {value : Reg α} {n : Node}
      (hinfo : m.data.typeInfo className = some info)
      (hget : info.staticVariables.get name = some value) (hn : n ∈ m.data.registerNodes value) :
      Accessible m localsCount (.node n)
  | load {p q : Place} (hp : Accessible m localsCount p) (h : Loads m localsCount p q) :
      Accessible m localsCount q

variable {classes : String → Option Code} {events : List (Event α)} {m : Machine α}
  {g g' : Collector} {n : Node}

omit [NumOps α] in
theorem get_mem {β : Type} {entries : ZMap β} {name : String} {value : β}
    (h : entries.get name = some value) :
    ∃ entry ∈ entries.entries, entry.key = name ∧ entry.value = value := by
  unfold ZMap.get ZMap.getFlags at h
  rw [Option.map_map] at h
  obtain ⟨entry, hfind, hvalue⟩ := Option.map_eq_some_iff.mp h
  exact ⟨entry, List.mem_of_find?_eq_some hfind, by simpa using List.find?_some hfind, hvalue⟩

end

/-- `class Main { static var s = gc(); }`: the static constructor calls `gc`. -/
def staticProgram : List ClassDeclaration :=
  [⟨"Main", [], [.function true false false "__static__constructor__" []
    [.eval (.binary .assign (.binary .dot (.ident "__static__") (.str "s"))
      (.methodCall (.ident "gc") []))]], []⟩]

def sampleRun (program : List ClassDeclaration) (n : ℕ) : Option (Progress ℚ) :=
  runCollected 3 program (List.replicate n (.thread 0))

end Zeroscript.LiveObjects
