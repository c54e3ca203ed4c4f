import Zeroscript.Compiler

/-! # What statements do to the compiler's state -/
namespace Zeroscript.CompilerSteps

open Emission

/-- What holds from state to state whenever the compiler updates the tables of the current function or counts
a label. -/
class Advance (R : CompilerState → CompilerState → Prop) : Prop where
  refl : ∀ s, R s s
  trans : ∀ {s s₁ s'}, R s s₁ → R s₁ s' → R s s'
  tables : ∀ s fk, R s { s with function := fk }
  counted : ∀ s, R s { s with labelCount := s.labelCount + 1 }

class AdvanceLater (R : CompilerState → CompilerState → Prop) : Prop extends Advance R where
  later : ∀ s node, R s { s with functionsToCompile := s.functionsToCompile ++ [node] }

def Advances (R : CompilerState → CompilerState → Prop) {β : Type} (m : Compile β) : Prop :=
  ∀ s b s' c, m s = .ok (b, s', c) → R s s'

section

variable {R : CompilerState → CompilerState → Prop} [Advance R]

section

variable {β γ : Type}

theorem Advances.pure (b : β) : Advances R (Pure.pure b : Compile β) := by
  intro s b' s' c hrun
  obtain ⟨-, rfl, -⟩ := pure_ok.mp hrun
  exact Advance.refl s

theorem Advances.bind {m : Compile β} {f : β → Compile γ} (hm : Advances R m) (hf : ∀ b, Advances R (f b)) :
    Advances R (m >>= f) := by
  intro s d s' c hrun
  obtain ⟨b, s₁, c₁, c₂, h₁, h₂, -⟩ := bind_ok.mp hrun
  exact Advance.trans (hm _ _ _ _ h₁) (hf b _ _ _ _ h₂)

omit [Advance R] in
theorem Advances.ite {p : Prop} [Decidable p] {m m' : Compile β} (h : Advances R m) (h' : Advances R m') :
    Advances R (if p then m else m') := by
  split
  · exact h
  · exact h'

theorem onFunction_advances (m : Emit β) : Advances R (Compiler.onFunction m) := by
  intro s b s' c hrun
  unfold Compiler.onFunction at hrun
  split at hrun
  · cases hrun
  · cases hrun
    exact Advance.tables s _

theorem addInstruction_advances (opcode : Opcode) (r0 r1 r2 : Operand) :
    Advances R (Compiler.addInstruction opcode r0 r1 r2) := by
  intro s b s' c hrun
  cases hrun
  exact Advance.refl s

theorem freshLabel_advances (stem : String) : Advances R (Compiler.freshLabel stem) := by
  intro s b s' c hrun
  cases hrun
  exact Advance.counted s

theorem forEach_advances {f : γ → Compile Unit} :
    ∀ xs, (∀ x ∈ xs, Advances R (f x)) → Advances R (Compiler.forEach f xs)
  | [], _ => Advances.pure ()
  | x :: xs, hf => (hf x List.mem_cons_self).bind fun _ =>
      forEach_advances xs fun y hy => hf y (List.mem_cons_of_mem _ hy)

end

theorem hoist_advances (stmt : Stmt) : Advances R (Compiler.hoist stmt) := by
  cases stmt with
  | function => exact (onFunction_advances _).bind fun _ => addInstruction_advances _ _ _ _
  | expression | var | loop | block | conditional | tryCatch => exact Advances.pure ()

theorem compileDiscarded_advances (e : Option Expr) : Advances R (Compiler.compileDiscarded e) := by
  cases e with
  | none => exact Advances.pure ()
  | some e => exact (onFunction_advances _).bind fun _ => onFunction_advances _

theorem compileVar_advances (identifier : String) (value : Expr) (isSynchronized : Bool) :
    Advances R (Compiler.compileVar identifier value isSynchronized) := by
  refine (onFunction_advances _).bind fun reg => (onFunction_advances _).bind fun valueReg => ?_
  refine Advances.ite ?_ (Advances.ite ?_ (Advances.pure ()))
  · refine (onFunction_advances _).bind fun tempReg => (addInstruction_advances _ _ _ _).bind fun _ => ?_
    exact (addInstruction_advances _ _ _ _).bind fun _ => onFunction_advances _
  · exact (addInstruction_advances _ _ _ _).bind fun _ => onFunction_advances _

theorem compileBreak_advances (context : Context) : Advances R (Compiler.compileBreak context) := by
  intro s b s' c hrun
  unfold Compiler.compileBreak at hrun
  cases hends : context.loopEndLabels with
  | nil =>
    rw [hends] at hrun
    cases hrun
  | cons lend outer =>
    rw [hends] at hrun
    exact addInstruction_advances _ _ _ _ _ _ _ _ hrun

section

variable {compileStmt : Context → Stmt → Compile Unit} {context : Context}

theorem compileStatements_advances : ∀ (i : ℕ) (body : Body),
    (∀ j stmt, body[j]? = some stmt → Advances R (compileStmt { context with path := (i + j) :: context.path } stmt)) →
    Advances R (Compiler.compileStatements compileStmt context i body)
  | _, [], _ => Advances.pure ()
  | i, stmt :: rest, h => by
    refine (h 0 stmt rfl).bind fun _ => compileStatements_advances (i + 1) rest fun j other hother => ?_
    rw [Nat.add_assoc, Nat.add_comm 1 j]
    exact h (j + 1) other hother

theorem compileBody_advances {body : Body}
    (h : ∀ i stmt, body[i]? = some stmt → Advances R (compileStmt { context with path := i :: context.path } stmt)) :
    Advances R (Compiler.compileBody compileStmt context body) := by
  refine (forEach_advances body fun stmt _ => hoist_advances stmt).bind fun _ => ?_
  refine compileStatements_advances 0 body fun i stmt hstmt => ?_
  rw [Nat.zero_add]
  exact h i stmt hstmt

theorem compileLoop_advances (startExpr condition iterExpr : Option Expr) {body : Body}
    (hbody : ∀ lend, Advances R
      (Compiler.compileBody compileStmt { context with loopEndLabels := lend :: context.loopEndLabels } body)) :
    Advances R (Compiler.compileLoop compileStmt context startExpr condition iterExpr body) := by
  refine (freshLabel_advances _).bind fun lstart => (freshLabel_advances _).bind fun lend => ?_
  refine (freshLabel_advances _).bind fun lcond => (compileDiscarded_advances startExpr).bind fun _ => ?_
  refine (addInstruction_advances _ _ _ _).bind fun _ => (addInstruction_advances _ _ _ _).bind fun _ => ?_
  refine (hbody lend).bind fun _ => (compileDiscarded_advances iterExpr).bind fun _ => ?_
  refine (addInstruction_advances _ _ _ _).bind fun _ => ?_
  cases condition with
  | none => exact addInstruction_advances _ _ _ _
  | some condition =>
    refine (onFunction_advances _).bind fun _ => (addInstruction_advances _ _ _ _).bind fun _ => ?_
    exact (onFunction_advances _).bind fun _ => addInstruction_advances _ _ _ _

theorem compileConditional_advances (condition : Expr) {body : Body} {elseBody : Option Body}
    (hbody : Advances R (Compiler.compileBody compileStmt { context with path := 0 :: context.path } body))
    (helse : ∀ other ∈ elseBody,
      Advances R (Compiler.compileBody compileStmt { context with path := 1 :: context.path } other)) :
    Advances R (Compiler.compileConditional compileStmt context condition body elseBody) := by
  refine (freshLabel_advances _).bind fun ifFail => (freshLabel_advances _).bind fun conEnd => ?_
  refine (onFunction_advances _).bind fun condReg => (addInstruction_advances _ _ _ _).bind fun _ => ?_
  refine (onFunction_advances _).bind fun _ => hbody.bind fun _ => ?_
  cases elseBody with
  | none => exact (addInstruction_advances _ _ _ _).bind fun _ => addInstruction_advances _ _ _ _
  | some elseBody =>
    refine (addInstruction_advances _ _ _ _).bind fun _ => (addInstruction_advances _ _ _ _).bind fun _ => ?_
    exact (helse elseBody rfl).bind fun _ => addInstruction_advances _ _ _ _

theorem finally_advances (context : Context) (finallyBody : Option Body)
    (h : ∀ body ∈ finallyBody,
      Advances R (Compiler.compileBody compileStmt (Compiler.tryContext context 2 finallyBody) body)) :
    Advances R (match finallyBody with
      | none => Compiler.addInstruction .CLEAR_CATCH (.num 0) (.num 0) (.num 0)
      | some body => do
        Compiler.compileBody compileStmt (Compiler.tryContext context 2 finallyBody) body
        Compiler.addInstruction .CLEAR_CATCH (.num 0) (.num 0) (.num 0)) := by
  cases finallyBody with
  | none => exact addInstruction_advances _ _ _ _
  | some body => exact (h body rfl).bind fun _ => addInstruction_advances _ _ _ _

theorem compileTryCatch_advances (catchIdent : String) {tryBody catchBody : Body} {finallyBody : Option Body}
    (htry : Advances R (Compiler.compileBody compileStmt (Compiler.tryContext context 0 finallyBody) tryBody))
    (hcatch : Advances R (Compiler.compileBody compileStmt (Compiler.tryContext context 1 finallyBody) catchBody))
    (hfinally : ∀ body ∈ finallyBody,
      Advances R (Compiler.compileBody compileStmt (Compiler.tryContext context 2 finallyBody) body)) :
    Advances R (Compiler.compileTryCatch compileStmt context catchIdent tryBody catchBody finallyBody) := by
  refine (freshLabel_advances _).bind fun catchLabel => (freshLabel_advances _).bind fun finallyLabel => ?_
  refine (addInstruction_advances _ _ _ _).bind fun _ => htry.bind fun _ => ?_
  refine (addInstruction_advances _ _ _ _).bind fun _ => (addInstruction_advances _ _ _ _).bind fun _ => ?_
  refine (onFunction_advances _).bind fun _ => (addInstruction_advances _ _ _ _).bind fun _ => ?_
  exact hcatch.bind fun _ => (addInstruction_advances _ _ _ _).bind fun _ => finally_advances context finallyBody hfinally

theorem compileExpressionStmt_advances (e : Expr) (hasReturn hasBreak : Bool)
    (hblocks : ∀ block ∈ context.finallyBlocks, Advances R
      (Compiler.compileBody compileStmt { context with path := block.1, addressed := false } block.2)) :
    Advances R (Compiler.compileExpressionStmt compileStmt context e hasReturn hasBreak) := by
  have hrest : Advances R (do
      let reg ← Compiler.compileExpression e 0
      if hasReturn then Compiler.compileReturn compileStmt context reg else pure ()
      Compiler.freeRegister reg) := by
    refine (onFunction_advances _).bind fun reg => Advances.ite ?_ (onFunction_advances _)
    refine Advances.bind ?_ fun _ => onFunction_advances _
    exact (forEach_advances _ hblocks).bind fun _ => addInstruction_advances _ _ _ _
  exact Advances.ite ((compileBreak_advances context).bind fun _ => hrest) hrest

end

end

section

variable {R : CompilerState → CompilerState → Prop} [AdvanceLater R]

theorem compileStmt_advances (fuel : ℕ) (context : Context) (stmt : Stmt) :
    Advances R (Compiler.compileStmt fuel context stmt) := by
  induction fuel generalizing context stmt with
  | zero =>
    intro s b s' c hrun
    cases hrun
  | succ fuel ih =>
    have hbody (context : Context) (body : Body) :
        Advances R (Compiler.compileBody (Compiler.compileStmt fuel) context body) :=
      compileBody_advances fun _ _ _ => ih _ _
    cases stmt with
    | expression => exact compileExpressionStmt_advances _ _ _ fun _ _ => hbody _ _
    | function =>
      intro s b s' c hrun
      cases hrun
      exact AdvanceLater.later s _
    | var => exact compileVar_advances _ _ _
    | loop => exact compileLoop_advances _ _ _ fun _ => hbody _ _
    | block => exact hbody _ _
    | conditional => exact compileConditional_advances _ (hbody _ _) fun _ _ => hbody _ _
    | tryCatch => exact compileTryCatch_advances _ (hbody _ _) (hbody _ _) fun _ _ => hbody _ _

end

end Zeroscript.CompilerSteps
