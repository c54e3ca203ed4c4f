import Zeroscript.Ast
import Zeroscript.Instruction

/-! # Register tables

`FunctionKind` keeps a symbol table, filled once by `AddressCalculator`, and a table of the
temporary registers above it. Both `std::map`s are association lists with distinct keys. -/
namespace Zeroscript

structure FunctionKind where
  symbolTable : List (String × ℕ) := []
  privatesTable : List String := []
  /-- `true` marks a register that may be handed out again. -/
  registerTable : List (ℕ × Bool) := []
  deriving DecidableEq, Repr

namespace FunctionKind

/-- `registerTable[index] = free`: overwrite the entry or create it. -/
def setRegister (table : List (ℕ × Bool)) (index : ℕ) (free : Bool) : List (ℕ × Bool) :=
  if (table.lookup index).isSome then
    table.map fun entry => if entry.1 == index then (index, free) else entry
  else table ++ [(index, free)]

/-- `getRegister(ident)`: the register of a symbol, 0 when there is none. -/
def getRegister (fk : FunctionKind) (ident : String) : ℕ :=
  (fk.symbolTable.lookup ident).getD 0

/-- The loop of `getRegister(NULL)`: the first register marked free. `at` throws on a key that is
absent, which is the outer `none`. -/
def firstFree (fk : FunctionKind) : Option (Option ℕ) :=
  let size := fk.symbolTable.length + 1
  (List.range fk.registerTable.length).foldr
    (fun i rest =>
      match fk.registerTable.lookup (i + size) with
      | none => none
      | some true => some (some (i + size))
      | some false => rest)
    (some none)

/-- `getRegister(NULL)`: reuse the first free temporary, or append one. -/
def getTemporary (fk : FunctionKind) : Option (ℕ × FunctionKind) :=
  match fk.firstFree with
  | none => none
  | some (some index) =>
    some (index, { fk with registerTable := setRegister fk.registerTable index false })
  | some none =>
    let nextReg := fk.registerTable.length + fk.symbolTable.length + 1
    some (nextReg, { fk with registerTable := setRegister fk.registerTable nextReg false })

def freeRegister (fk : FunctionKind) (index : ℕ) : FunctionKind :=
  if index > fk.symbolTable.length then
    if (fk.registerTable.lookup index).isSome then
      { fk with registerTable := setRegister fk.registerTable index true }
    else fk
  else fk

/-- The entry of the image's symbol table for each slot, in register order. -/
def symbolInfo (fk : FunctionKind) : SymbolInfo :=
  fk.symbolTable.map fun entry => (entry.1, fk.privatesTable.contains entry.1)

end FunctionKind

end Zeroscript
