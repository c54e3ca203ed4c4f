import Zeroscript.Map
import Zeroscript.Register

/-! # `interpreter/object.h` and `object.c`

Everything a program can read or write: heap objects, the locals of contexts, value stacks, loaded
classes. Heap objects have addresses from 1 on, 0 is `NULL`; contexts, interpreter states and
stacks are numbered on their own. The collector is left out, so that nothing is ever freed. -/
namespace Zeroscript

abbrev Addr := ℕ

abbrev ContextId := ℕ

abbrev StateId := ℕ

abbrev StackId := ℕ

inductive Object (α : Type) where
  | string (value : String) (keyListCache : Addr)
  | json (properties : ZMap (Reg α)) (keyListCache : Addr)
  | functionRef (startAddress : ℕ) (isAsync : Bool) (parentContext : ContextId)
      (responsibleInterpreterState : StateId)
  | instanceObject (savedState : StateId)
  | classRef (value : String)

/-- A `context_object` as far as the program sees it. `locals` is `NULL` before `OP_FFRAME`. -/
structure ContextObject (α : Type) where
  parentContext : ContextId := 0
  locals : Option (Regs α) := none
  symbols : SymbolInfo := []

/-- The fields of a `z_interpreter_state_t` that stay as `interpreter_state_new` and `run_async` set
them. -/
structure StateInfo where
  className : String
  byteStream : Code
  rootContext : ContextId
  synchronizedVariables : ℕ
  deriving Repr

structure TypeInfo (α : Type) where
  bytecodeStream : Code
  staticVariables : ZMap (Reg α) := .new
  importsTable : ZMap String := .new

/-- What `print` has written: a number in a format of `printf`, or a text. -/
inductive Line (α : Type) where
  | number (x : α)
  | text (s : String)

structure Data (α : Type) where
  objects : List (Object α)
  contexts : ContextId → ContextObject α
  states : StateId → StateInfo
  returnValues : StateId → Reg α
  exceptionDetails : StateId → String
  valueStacks : StackId → ℤ → Reg α
  synchronized : List (ZMap (Reg α))
  knownTypes : List (String × TypeInfo α)
  stringProperties : ZMap (Reg α)
  output : List (Line α)
  input : List String

/-- `build_symbol_table`: the slot at position `i` gets index `i + 1`. -/
def buildSymbolTable (symbols : SymbolInfo) : ZMap ℕ :=
  symbols.zipIdx.foldl (fun table item => table.insertFlags item.1.1 (item.2 + 1) ⟨true, item.1.2⟩) .new

namespace Data

variable {α : Type} [NumOps α]

def object (d : Data α) (r : Reg α) : Option (Object α) :=
  match r.val with
  | .raw (address + 1) => d.objects[address]?
  | _ => none

def alloc (d : Data α) (o : Object α) : Data α × Addr :=
  ({ d with objects := d.objects ++ [o] }, d.objects.length + 1)

def setObject (d : Data α) (address : Addr) (o : Object α) : Data α :=
  { d with objects := d.objects.set (address - 1) o }

def newReg (d : Data α) (type : RegType) (o : Object α) : Data α × Reg α :=
  let (d, address) := d.alloc o
  (d, ⟨type, .raw address⟩)

def regs (d : Data α) (c : ContextId) : Regs α := (d.contexts c).locals.getD fun _ => .null

def setRegs (d : Data α) (c : ContextId) (regs : Regs α) : Data α :=
  { d with contexts := Function.update d.contexts c { d.contexts c with locals := some regs } }

def setReg (d : Data α) (c : ContextId) (r : ℕ) (v : Reg α) : Data α :=
  d.setRegs c (Function.update (d.regs c) r v)

omit [NumOps α] in
@[simp] theorem contexts_setRegs (d : Data α) (c c' : ContextId) (regs : Regs α) :
    (d.setRegs c regs).contexts c' =
      if c' = c then { d.contexts c with locals := some regs } else d.contexts c' := by
  unfold setRegs
  by_cases h : c' = c
  · subst h
    simp
  · simp [h]

@[simp] theorem regs_setReg_self (d : Data α) (c : ContextId) (r : ℕ) (v : Reg α) :
    (d.setReg c r v).regs c = Function.update (d.regs c) r v := by
  simp [setReg, regs]

def hexDigits (n : ℕ) : String := String.ofList (Nat.toDigits 16 n)

/-- `operations.to_string`; only the register's tag tells a number. -/
def toText (d : Data α) (r : Reg α) : Option String :=
  match r.type with
  | .number => some (NumOps.toText r.number)
  | _ =>
    match d.object r, r.val with
    | some (.string value _), _ => some value
    | some _, .raw address => some ("obj@0x" ++ hexDigits address)
    | _, _ => none

def typeInfo (d : Data α) (className : String) : Option (TypeInfo α) := d.knownTypes.lookup className

def setTypeInfo (d : Data α) (className : String) (info : TypeInfo α) : Data α :=
  { d with
    knownTypes :=
      if (d.knownTypes.lookup className).isSome then
        d.knownTypes.map fun entry => if entry.1 = className then (className, info) else entry
      else d.knownTypes ++ [(className, info)] }

def setStatic (d : Data α) (className name : String) (v : Reg α) : Data α :=
  match d.typeInfo className with
  | some info =>
    d.setTypeInfo className { info with staticVariables := info.staticVariables.insert name v }
  | none => d

/-- `map_insert(type_info->imports_table, …)`. -/
def addImport (d : Data α) (className shortName path : String) : Data α :=
  match d.typeInfo className with
  | some info => d.setTypeInfo className { info with importsTable := info.importsTable.insert shortName path }
  | none => d

/-- The synchronized variables of an interpreter state. -/
def sharedOf (d : Data α) (s : StateId) : ZMap (Reg α) :=
  d.synchronized.getD (d.states s).synchronizedVariables .new

def setShared (d : Data α) (s : StateId) (name : String) (v : Reg α) : Data α :=
  { d with
    synchronized := d.synchronized.set (d.states s).synchronizedVariables
      ((d.sharedOf s).insert name v) }

def setStack (d : Data α) (stack : StackId) (index : ℤ) (v : Reg α) : Data α :=
  { d with valueStacks := Function.update d.valueStacks stack (Function.update (d.valueStacks stack) index v) }

/-- The walk over the scopes in `OP_GET_FIELD` and `OP_SET_FIELD`: the context and index of a slot,
or `none` inside when no scope has the name. A context that never ran has no symbol table to read.
The bound is on the length of the chain. -/
def findSlot (d : Data α) (name : String) : ℕ → ContextId → Option (Option (ContextId × ℕ))
  | 0, _ => none
  | bound + 1, c =>
    if c = 0 then some none
    else
      let context := d.contexts c
      if context.locals.isNone then none
      else
        match (buildSymbolTable context.symbols).get name with
        | some index => some (some (c, index))
        | none => findSlot d name bound context.parentContext

def newJson (d : Data α) : Data α × Addr :=
  let properties : ZMap (Reg α) := ZMap.new.insertHidden "size" ⟨.nativeFunc, .native .keySize⟩
  d.alloc (.json (properties.insertHidden "keys" ⟨.nativeFunc, .native .keyList⟩) 0)

end Data

end Zeroscript
