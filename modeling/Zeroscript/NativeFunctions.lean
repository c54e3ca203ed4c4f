import Zeroscript.Object

/-! # `interpreter/native_functions.c`

A native function pops its arguments itself, whatever number the call pushed, writes the register
of the result directly, and finds its receiver in `object_to_search_on`. -/
namespace Zeroscript

/-- The map `native_functions`, which every field access searches first. -/
def nativeFunctions : List (String × Native) :=
  [("print", .print), ("Object", .object), ("number", .number), ("int", .int), ("gc", .gc),
    ("assert", .assert), ("exit", .exit), ("read", .read)]

/-- The number of arguments a native function pops. -/
def Native.arity : Native → ℕ
  | .print | .number | .int | .assert | .exit | .startsWith | .equals | .substring => 1
  | .object | .gc | .read | .strlen | .keySize | .keyList => 0

/-- How a native function comes back; `exit` does not. -/
inductive NativeReturn where
  | returned
  | failed (message : String)
  | exited
  deriving DecidableEq, Repr

namespace Data

variable {α : Type} [NumOps α]

/-- `properties` and `key_list_cache`, which strings and JSON objects have. -/
def propertiesAt (d : Data α) (address : Addr) : Option (ZMap (Reg α) × Addr) :=
  match address with
  | 0 => none
  | index + 1 =>
    match d.objects[index]? with
    | some (.json properties cache) => some (properties, cache)
    | some (.string _ cache) => some (d.stringProperties, cache)
    | _ => none

def setCache (d : Data α) (address cache : Addr) : Data α :=
  match d.objects[address - 1]? with
  | some (.json properties _) => d.setObject address (.json properties cache)
  | some (.string value _) => d.setObject address (.string value cache)
  | _ => d

/-- The loop of `native_object_key_list`: entry `i` is the `i`-th key. -/
def fillKeyList : List String → ℕ → ZMap (Reg α) → Data α → ZMap (Reg α) × Data α
  | [], _, properties, d => (properties, d)
  | key :: keys, i, properties, d =>
    let (d, value) := d.newReg .str (.string key 0)
    fillKeyList keys (i + 1) (properties.insert (NumOps.toText (NumOps.ofNat i : α)) value) d

def nativeKeyList (d : Data α) (address : Addr) : Option (Data α × Addr) := do
  let (properties, cache) ← d.propertiesAt address
  if cache ≠ 0 then return (d, cache)
  else
    let (d, list) := d.newJson
    let .json empty _ ← d.objects[list - 1]? | none
    let (entries, d) := fillKeyList properties.keyList 0 empty d
    let d := d.setObject list (.json { entries with isImmutable := true } 0)
    return (d.setCache address list, list)

/-- The rest of a text from a byte offset on, which has to be at a character. -/
def bytesFrom (text : String) (offset : ℕ) : Option String :=
  (text.toList.tails.map String.ofList).find? fun suffix =>
    suffix.utf8ByteSize + offset == text.utf8ByteSize

/-- `native_print`. A `TYPE_STR` is printed as it is, any other object by its `to_string`. -/
def nativePrint (d : Data α) (argument : Reg α) : Option (Data α) :=
  match argument.type with
  | .number => some { d with output := d.output ++ [.number argument.number] }
  | _ => (d.toText argument).map fun text => { d with output := d.output ++ [.text text] }

/-- A native function with its argument, its receiver and the register for the result. -/
def callNative (d : Data α) (f : Native) (argument : Reg α) (receiver : Addr) (c : ContextId)
    (result : ℕ) : Option (Data α × NativeReturn) := do
  let ofNum (x : α) := some (d.setReg c result (.ofNum x), NativeReturn.returned)
  let ofBool (b : Bool) := some (d.setReg c result (.ofBool b), NativeReturn.returned)
  let this := d.toText ⟨.obj, .raw receiver⟩
  match f with
  | .print => return (← d.nativePrint argument, .returned)
  | .object =>
    let (d, address) := d.newJson
    return (d.setReg c result ⟨.obj, .raw address⟩, .returned)
  | .number =>
    match argument.type with
    | .number => ofNum argument.number
    | _ => ofNum (NumOps.atof (← d.toText argument))
  | .int => ofNum (NumOps.trunc argument.number)
  | .gc => return (d, .returned)
  | .assert =>
    if argument.type = .number ∧ NumOps.eq argument.number NumOps.one then return (d, .returned)
    else return (d, .failed "assertion failed")
  | .exit => return (d, .exited)
  | .read =>
    let (d, value) := { d with input := d.input.tail }.newReg .str (.string (d.input.headD "") 0)
    return (d.setReg c result value, .returned)
  | .strlen => ofNum (NumOps.ofNat (← this).utf8ByteSize)
  | .startsWith =>
    match argument.type with
    | .number => ofBool false
    | _ => ofBool ((← d.toText argument).toList.isPrefixOf (← this).toList)
  | .equals =>
    match argument.type with
    | .number => ofBool false
    | _ => ofBool ((← d.toText argument) == (← this))
  | .substring =>
    match argument.type with
    | .number =>
      let rest ← bytesFrom (← this) (← NumOps.toIndex argument.number)
      let (d, value) := d.newReg .str (.string rest 0)
      return (d.setReg c result value, .returned)
    | _ => ofNum NumOps.zero
  | .keySize => ofNum (NumOps.ofNat (← d.propertiesAt receiver).1.size)
  | .keyList =>
    let (d, list) ← d.nativeKeyList receiver
    return (d.setReg c result ⟨.obj, .raw list⟩, .returned)

end Data

end Zeroscript
