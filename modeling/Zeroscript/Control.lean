import Mathlib.Logic.Function.Basic
import Mathlib.Tactic.Common
import Zeroscript.Object

/-! # Control in `z_interpreter_run`

The fields of contexts and interpreter states that only the interpreter itself looks at, and the
activations of `z_interpreter_run` that a thread has on the C stack. An instruction asks for one
`Action`; what an action does to control does not depend on the data. -/
namespace Zeroscript

/-- The control fields of a `context_object`. `returnContext` is 0 when the activation ends with the
function; `catchesList` is `NULL` at first, and has the last entry in front. -/
structure Link where
  returnContext : ContextId := 0
  returnAddress : ℕ := 0
  requestedReturnRegister : ℕ := 0
  catchesList : Option (List ℕ) := none
  deriving DecidableEq, Repr

def Link.catches (link : Link) : List ℕ := link.catchesList.getD []

/-- The control fields of a `z_interpreter_state_t`. The stack pointer is an index into the stack,
whose first item has index 1. -/
structure StateControl where
  currentContext : ContextId := 0
  instructionPointer : ℕ := 0
  stackStart : StackId := 0
  stackPtr : ℤ := 0
  isRunning : Bool := false
  returnCode : Bool := false
  deriving DecidableEq, Repr

/-- Contexts, states and stacks from `nextContext`, `nextState` and `nextStack` on do not exist yet;
context 0 is `NULL`. -/
structure ControlState where
  links : ContextId → Link
  states : StateId → StateControl
  nextContext : ContextId
  nextState : StateId
  nextStack : StackId

/-- What the caller of an activation does when it ends. -/
inductive Resume where
  /-- The rest of `OP_CALL` for a function of another state; the register for the result. -/
  | method (register : ℕ)
  /-- The rest of `object_new`, which ignores `return_code`. -/
  | construct
  /-- The rest of `object_manager_get_or_load_type_info`; the instruction that wanted the class is
  dispatched again. -/
  | load (className path : String)
  /-- `main`, after the static constructor. -/
  | startup
  /-- The end of `main` or of `run_async`. -/
  | root
  deriving DecidableEq, Repr

/-- The C variables of one `z_interpreter_run`. -/
structure Activation where
  state : StateId
  currentContext : ContextId
  instructionPtr : ℕ
  objectToSearchOn : Addr
  resume : Resume
  deriving DecidableEq, Repr

/-- What an instruction asks of control, once its data are done. -/
inductive Action where
  | next
  | jump (address : ℕ)
  | push
  | pop
  /-- A native function has popped its arguments, and may have failed. -/
  | native (pops : ℕ) (error : Option String)
  | raise (message : String)
  /-- `OP_THROW`, which sets `current_context` first. -/
  | throwing (message : String)
  | setCatch (address : ℕ)
  | clearCatch
  | ret
  /-- A function of this state; `entry` is past its `FFRAME`. -/
  | callOwn (entry register arguments : ℕ)
  | callAsync (entry arguments : ℕ)
  /-- A function of the state `target`, or of a clone of it. -/
  | callOther (target : StateId) (cloned : Bool) (entry register arguments : ℕ)
  | construct (entry : ℕ)
  | load (className path : String) (entry : ℕ)
  /-- A write to a field of an instance of the state `target`. -/
  | write (target : StateId)
  /-- A write that the instance refuses. A field that it does not have gives a message to raise
  again, if `target` does not catch the exception. -/
  | reject (target : StateId) (again : Option String)
  | exit (message : Option String)
  deriving DecidableEq, Repr

/-- What has become of a step: control, the activations of the thread, a new thread. After an
exception also its message, the states it left with what their callers do, those of them that had a
handler, and the state that caught it. -/
structure Outcome where
  control : ControlState
  activations : List Activation
  spawned : Option Activation := none
  raised : Option String := none
  left : List (StateId × Resume) := []
  broken : List StateId := []
  caughtBy : Option StateId := none
  exited : Option (Option String) := none

namespace ControlState

variable (k : ControlState)

def setState (s : StateId) (c : StateControl) : ControlState :=
  { k with states := Function.update k.states s c }

def setLink (c : ContextId) (link : Link) : ControlState :=
  { k with links := Function.update k.links c link }

def moveStack (s : StateId) (items : ℤ) : ControlState :=
  k.setState s { k.states s with stackPtr := (k.states s).stackPtr + items }

/-- The search of `interpreter_throw_exception_from_str`: the first context, from `c` along the
return contexts, with a nonempty list of catches. The bound is on the length of the chain. -/
def findCatch : ℕ → ContextId → Option (ContextId × ℕ)
  | 0, _ => none
  | bound + 1, c =>
    if c = 0 then none
    else
      match (k.links c).catches with
      | address :: _ => some (c, address)
      | [] => findCatch bound (k.links c).returnContext

def handler (s : StateId) : Option (ContextId × ℕ) :=
  k.findCatch k.nextContext (k.states s).currentContext

/-- `RETURN_IF_ERROR`, which comes after the search: a `return_code` that a refused write has left
behind ends the run, whatever was found. -/
def catcher (s : StateId) : Option (ContextId × ℕ) := if (k.states s).returnCode then none else k.handler s

def brokenOff (s : StateId) : List StateId := if (k.handler s).isSome then [s] else []

def caught (s : StateId) (c : ContextId) (address : ℕ) : ControlState :=
  k.setState s { k.states s with
    currentContext := c, instructionPointer := address, stackPtr := (k.states s).stackPtr + 1 }

def uncaught (s : StateId) : ControlState :=
  k.setState s { k.states s with currentContext := 0, returnCode := true }

/-- `interpreter_throw_exception_from_str` by itself. -/
def throwIn (s : StateId) : ControlState :=
  match k.handler s with
  | some (c, address) => k.caught s c address
  | none => k.uncaught s

def stop (s : StateId) : ControlState := k.setState s { k.states s with isRunning := false }

def enter (s : StateId) (link : Link) (arguments : ℕ) : ControlState :=
  { k with
    links := Function.update k.links k.nextContext link
    states := Function.update k.states s { k.states s with
      currentContext := k.nextContext
      stackPtr := (k.states s).stackPtr - arguments }
    nextContext := k.nextContext + 1 }

/-- A new context, and an activation of `z_interpreter_run` on it up to its first `OP_FFRAME`. -/
def start (s : StateId) (link : Link) (stack : StackId) (stackPtr : ℤ) : ControlState :=
  { k with
    links := Function.update k.links k.nextContext link
    states := Function.update k.states s
      { currentContext := k.nextContext, stackStart := stack, stackPtr := stackPtr, isRunning := true }
    nextContext := k.nextContext + 1
    nextState := max k.nextState (s + 1)
    nextStack := max k.nextStack (stack + 1) }

end ControlState

def advance : List Activation → List Activation
  | [] => []
  | a :: rest => { a with instructionPtr := a.instructionPtr + 1 } :: rest

/-- An activation has ended without an exception. -/
def resumeCaller (resume : Resume) (rest : List Activation) : List Activation :=
  match resume with
  | .method _ | .construct => advance rest
  | .load _ _ | .startup => rest
  | .root => []

namespace ControlState

/-- An exception in the activation on top: to the handler that the search finds, or out of the
activation. `OP_CALL` raises it once more in the caller; the other callers do not look. -/
def raise (message : String) : ControlState → List Activation → Outcome
  | k, [] => { control := k, activations := [], raised := some message }
  | k, a :: rest =>
    match k.catcher a.state with
    | some (c, address) =>
      { control := k.caught a.state c address
        activations := { a with currentContext := c, instructionPtr := address } :: rest
        raised := some message
        caughtBy := some a.state }
    | none =>
      match a.resume with
      | .method _ =>
        let outcome := raise message ((k.throwIn a.state).stop a.state) rest
        { outcome with
          left := (a.state, a.resume) :: outcome.left
          broken := k.brokenOff a.state ++ outcome.broken }
      | resume =>
        { control := (k.throwIn a.state).stop a.state
          activations := resumeCaller resume rest
          raised := some message
          left := [(a.state, resume)]
          broken := k.brokenOff a.state }

def perform (k : ControlState) : List Activation → Action → Outcome
  | [], _ => { control := k, activations := [] }
  | a :: rest, action =>
    let s := k.states a.state
    let link := k.links a.currentContext
    match action with
    | .next => { control := k, activations := advance (a :: rest) }
    | .jump address => { control := k, activations := { a with instructionPtr := address } :: rest }
    | .push => { control := k.moveStack a.state 1, activations := advance (a :: rest) }
    | .pop => { control := k.moveStack a.state (-1), activations := advance (a :: rest) }
    | .native pops none =>
      { control := k.moveStack a.state (-pops), activations := advance (a :: rest) }
    | .native pops (some message) => (k.moveStack a.state (-pops)).raise message (a :: rest)
    | .raise message => k.raise message (a :: rest)
    | .throwing message =>
      (k.setState a.state { s with currentContext := a.currentContext }).raise message (a :: rest)
    | .setCatch address =>
      let k := if link.catchesList.isNone then
          k.setState a.state { s with currentContext := a.currentContext }
        else k
      { control := k.setLink a.currentContext { link with
          catchesList := some (address :: link.catches) }
        activations := advance (a :: rest) }
    | .clearCatch =>
      { control := k.setLink a.currentContext { link with catchesList := some link.catches.tail }
        activations := advance (a :: rest) }
    | .ret =>
      let k := k.setState a.state { s with currentContext := a.currentContext }
      if link.returnContext = 0 then
        { control := (k.setState a.state { k.states a.state with returnCode := false }).stop a.state
          activations := resumeCaller a.resume rest }
      else
        { control := k
          activations := { a with
            currentContext := link.returnContext
            instructionPtr := link.returnAddress + 1 } :: rest }
    | .callOwn entry register n =>
      { control := k.enter a.state ⟨a.currentContext, a.instructionPtr, register, none⟩ n
        activations := { a with currentContext := k.nextContext, instructionPtr := entry } :: rest }
    | .callAsync entry n =>
      { control := (k.moveStack a.state 1).start k.nextState {} k.nextStack (s.stackPtr - n)
        activations := advance (a :: rest)
        spawned := some ⟨k.nextState, k.nextContext, entry, 0, .root⟩ }
    | .callOther target cloned entry register n =>
      let other := if cloned then k.nextState else target
      { control := (k.moveStack a.state 1).start other { requestedReturnRegister := register }
          s.stackStart (s.stackPtr - n)
        activations := ⟨other, k.nextContext, entry, 0, .method register⟩ :: a :: rest }
    | .construct entry =>
      { control := k.start k.nextState {} s.stackStart s.stackPtr
        activations := ⟨k.nextState, k.nextContext, entry, 0, .construct⟩ :: a :: rest }
    | .load className path entry =>
      { control := k.start k.nextState {} k.nextStack 0
        activations := ⟨k.nextState, k.nextContext, entry, 0, .load className path⟩ :: a :: rest }
    | .write target =>
      { control := k.setState target { k.states target with returnCode := false }
        activations := advance (a :: rest) }
    | .reject target again =>
      let k := k.setState target { k.states target with returnCode := false }
      match k.handler target, again with
      | none, some message => (k.throwIn target).raise message (a :: rest)
      | _, _ => { control := k.throwIn target, activations := advance (a :: rest) }
    | .exit message => { control := k, activations := [], exited := some message }

theorem catcher_some {k : ControlState} {s : StateId} {found : ContextId × ℕ} (h : k.catcher s = some found) :
    k.handler s = some found ∧ (k.states s).returnCode = false := by
  unfold catcher at h
  split at h
  · cases h
  · exact ⟨h, Bool.not_eq_true _ ▸ ‹_›⟩

theorem throwIn_setState (k : ControlState) (s : StateId) : ∃ c, k.throwIn s = k.setState s c := by
  unfold throwIn
  split
  · exact ⟨_, rfl⟩
  · exact ⟨_, rfl⟩

theorem raise_keeps {P : ControlState → Prop} (hset : ∀ k s c, P k → P (k.setState s c)) (message : String)
    (activations : List Activation) {k : ControlState} (hk : P k) : P (k.raise message activations).control := by
  induction activations generalizing k with
  | nil => exact hk
  | cons a rest ih =>
    obtain ⟨c, hthrown⟩ := k.throwIn_setState a.state
    have hleft : P ((k.throwIn a.state).stop a.state) := by
      rw [hthrown]
      exact hset _ _ _ (hset _ _ _ hk)
    rw [raise]
    split
    · exact hset _ _ _ hk
    · split
      · exact ih hleft
      · exact hleft

end ControlState

end Zeroscript
