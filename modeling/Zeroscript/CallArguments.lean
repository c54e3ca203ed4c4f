import Zeroscript.LocalAssignment

/-! # The arguments of a call

The register returned for one argument is the destination requested for the next. After a local
variable that register is the variable's own, and the next value lands in it. -/
namespace Zeroscript.CallArguments

open Emission ProtectedRegisters ExpressionInversion PlainExpressions PlainWrites LocalAssignment

section

variable {α ω : Type} [NumOps α] {env : Environment α ω} {syms : List (String × ℕ)}

/-- The values of the arguments, first argument first, and the store after all pushes. -/
def argumentValues (env : Environment α ω) (n : ℕ) (reg : Symbols) :
    List Expr → Store α ω → Option (List (Reg α) × Store α ω)
  | [], st => some ([], st)
  | e :: es, st => do
    let (vs, st₁) ← argumentValues env n reg es st
    let (v, st₂) ← eval env n reg e st₁
    return (v :: vs, st₂.push v)

/-- The code before the `CALL` writes no variable of the caller, and when it has run the callee is in
register `g` and the arguments' values are on the stack, the first one on top, where `OP_FFRAME`
takes argument `i` for local `i + 3`. -/
def Passes (env : Environment α ω) (syms : List (String × ℕ)) (callee : Expr) (args : List Expr)
    (g : ℕ) (code : Code) : Prop :=
  OnlyTemporaries syms code ∧
    ∀ (f : Frame α ω) vs st₁ v st₂,
      argumentValues env syms.length (symbolsOf syms) args (f.store syms.length) = some (vs, st₁) →
      eval env syms.length (symbolsOf syms) callee st₁ = some (v, st₂) →
      ∃ f', execAll env syms.length code f = some f' ∧ f'.store syms.length = st₂ ∧ f'.regs g = v ∧
        vs <+: f'.stack ∧
        ∀ i, i < args.length → placeArguments args.length f'.stack (i + 3) = vs.getD i .null

end

end Zeroscript.CallArguments
