import Mathlib.Logic.Relation
import Zeroscript.BytecodeOptimizer
import Zeroscript.Compiler
import Zeroscript.Interpreter

/-! # Programs and their runs -/
namespace Zeroscript

open Relation (ReflTransGen)

/-- What the compiler and the optimizer make of a class. -/
def image (fuel : ℕ) (cls : ClassDeclaration) : Option Code :=
  match compileClass fuel cls with
  | .ok code => optimize code
  | .error _ => none

/-- The class path of a program, with every class compiled. -/
def imagesOf (fuel : ℕ) (program : List ClassDeclaration) (path : String) : Option Code :=
  (program.find? (·.identifier = path)).bind (image fuel)

variable {α : Type} [NumOps α]

/-- `main`, up to the first instruction of the static constructor. The state of the main class is
number 0 and waits in its first frame, which the static constructor cannot see. -/
def boot (className : String) (code : Code) (input : List String) : Option (Machine α) := do
  let (entry, symbols) ← frameAt code 0
  let (staticEntry, staticSymbols) ← frameAt code (← labelIndex code "__static__constructor__")
  let empty : Data α := {
    objects := []
    contexts := fun _ => {}
    states := fun _ => ⟨"", [], 0, 0⟩
    returnValues := fun _ => .null
    exceptionDetails := fun _ => ""
    valueStacks := fun _ _ => .null
    synchronized := []
    knownTypes := [(className, { bytecodeStream := code })]
    stringProperties := [("length", Native.strlen), ("startsWith", .startsWith), ("equals", .equals),
      ("substring", .substring)].foldl
        (fun properties f => properties.insertHidden f.1 ⟨.nativeFunc, .native f.2⟩) .new
    output := []
    input := input }
  let none' : ControlState := ⟨fun _ => {}, fun _ => {}, 1, 0, 0⟩
  return {
    data := ((empty.newOwnState 0 className code 1).newOwnState 1 className code 2
      |>.enterFrame 1 0 1 symbols []).enterFrame 2 0 2 staticSymbols []
    control := (none'.start 0 {} 0 0).start 1 {} 1 0
    threads := [[⟨1, 2, staticEntry, 0, .startup⟩, ⟨0, 1, entry, 0, .root⟩]] }

def Machine.Steps (classes : String → Option Code) (m m' : Machine α) : Prop :=
  ∃ thread, m.step classes thread = some m'

def Machine.run (classes : String → Option Code) : List ℕ → Machine α → Option (Machine α)
  | [], m => some m
  | thread :: schedule, m => (m.step classes thread).bind (Machine.run classes schedule)

theorem Machine.run_path {classes : String → Option Code} {schedule : List ℕ} {m m' : Machine α}
    (h : m.run classes schedule = some m') : ReflTransGen (Machine.Steps classes) m m' := by
  induction schedule generalizing m with
  | nil =>
    cases h
    exact .refl
  | cons thread schedule ih =>
    obtain ⟨m₁, hstep, hrest⟩ := Option.bind_eq_some_iff.mp h
    exact ReflTransGen.head ⟨thread, hstep⟩ (ih hrest)

def Machine.fetch (m : Machine α) (a : Activation) : Option Instruction :=
  (m.data.states a.state).byteStream[a.instructionPtr]?

/-- A machine in some run of a program. -/
def Machine.Reachable (classes : String → Option Code) (m : Machine α) : Prop :=
  ∃ className code input m₀, classes className = some code ∧
    boot className code input = some m₀ ∧ ReflTransGen (Machine.Steps classes) m₀ m

theorem Machine.Reachable.step {classes : String → Option Code} {m m' : Machine α} {thread : ℕ}
    (h : m.Reachable classes) (hstep : m.step classes thread = some m') : m'.Reachable classes := by
  obtain ⟨className, code, input, m₀, hcode, hboot, hpath⟩ := h
  exact ⟨className, code, input, m₀, hcode, hboot, hpath.tail ⟨thread, hstep⟩⟩

/-- The run of a program from its class `Main` in which the threads take turns as listed. -/
def runProgram (fuel : ℕ) (program : List ClassDeclaration) (input : List String)
    (schedule : List ℕ) : Option (Machine α) := do
  (← boot "Main" (← imagesOf fuel program "Main") input).run (imagesOf fuel program) schedule

theorem runProgram_reachable {fuel : ℕ} {program : List ClassDeclaration} {input : List String}
    {schedule : List ℕ} {m : Machine α} (h : runProgram fuel program input schedule = some m) :
    m.Reachable (imagesOf fuel program) := by
  obtain ⟨code, hcode, hrest⟩ := Option.bind_eq_some_iff.mp h
  obtain ⟨m₀, hboot, hrun⟩ := Option.bind_eq_some_iff.mp hrest
  exact ⟨"Main", code, input, m₀, hcode, hboot, Machine.run_path hrun⟩

def runUpTo (fuel : ℕ) (program : List ClassDeclaration) (n : ℕ) :
    Option (Machine α × Activation × List Activation × Instruction) := do
  let m ← runProgram fuel program [] (List.replicate n 0)
  let activations ← m.threads[0]?
  let a ← activations.head?
  let i ← m.fetch a
  return (m, a, activations.tail, i)

theorem runUpTo_reachable {fuel : ℕ} {program : List ClassDeclaration} {n : ℕ} {m : Machine α}
    {a : Activation} {rest : List Activation} {i : Instruction}
    (h : runUpTo fuel program n = some (m, a, rest, i)) :
    m.Reachable (imagesOf fuel program) ∧ m.threads[0]? = some (a :: rest) ∧ m.fetch a = some i := by
  obtain ⟨m₁, hm, h⟩ := Option.bind_eq_some_iff.mp h
  obtain ⟨activations, hthread, h⟩ := Option.bind_eq_some_iff.mp h
  obtain ⟨a₁, hhead, h⟩ := Option.bind_eq_some_iff.mp h
  obtain ⟨i₁, hi, h⟩ := Option.bind_eq_some_iff.mp h
  cases h
  obtain ⟨rest, rfl⟩ := List.head?_eq_some_iff.mp hhead
  exact ⟨runProgram_reachable hm, hthread, hi⟩

end Zeroscript
