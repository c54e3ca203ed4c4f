import Zeroscript.PlainWrites

/-! # Assignments to local variables

No store is emitted for `x = e`: the right-hand side is compiled with the register of `x` as its
destination, and the register requested for the whole assignment is returned without a write. -/
namespace Zeroscript.LocalAssignment

open Emission ProtectedRegisters ExpressionInversion PlainExpressions PlainWrites

section

variable {α ω : Type} [NumOps α] {env : Environment α ω} {syms : List (String × ℕ)}
  {fk fk' : FunctionKind} {x : String} {e : Expr} {d r : ℕ} {k : Bool} {c : Code}

end

abbrev sampleSymbols : List (String × ℕ) := [("this", 1), ("x", 2), ("y", 3)]

abbrev sampleFunction : FunctionKind := { symbolTable := sampleSymbols }

theorem sampleSymbols_valid : SymbolsValid sampleSymbols :=
  SymbolsValid.of_entries (by decide) (by decide)

theorem sampleFunction_ready : Ready sampleSymbols sampleFunction := ⟨rfl, rfl, fun _ h => h.elim⟩

end Zeroscript.LocalAssignment
