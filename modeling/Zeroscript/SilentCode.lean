import Zeroscript.ExpressionInversion
import Zeroscript.Loops

/-! # Statements without code

Which expressions and statements are compiled to no instruction at all. -/
namespace Zeroscript.SilentCode

open Emission ProtectedRegisters ExpressionInversion InstructionShapes
open Loops (isFunction)

/-- A local variable, an assignment of such an expression to one, or an operator the compiler does not know. -/
def silent (reg : Symbols) : Expr → Bool
  | .empty => true
  | .terminal (.identifier x) => reg x != 0
  | .terminal _ => false
  | .binary .assign (.terminal (.identifier x)) right => reg x != 0 && silent reg right
  | .binary .assign (.terminal _) _ | .binary .assign (.binary _ _ _) _ => false
  | .binary .assign left right => silent reg left && silent reg right
  | .prefixed .plus e | .prefixed .tilde e | .prefixed .bang e => silent reg e
  | _ => false

/-- The value of a silent expression is delivered to the register `d`. -/
def delivers (reg : Symbols) (d : ℕ) : Expr → Bool
  | .empty => d == 0
  | .terminal (.identifier x) => reg x == d
  | _ => d != 0

section

variable {syms : List (String × ℕ)} {fk fk' : FunctionKind} {d r : ℕ} {k : Bool} {c : Code}

theorem compileExpression_keeps {e : Expr} (hfk : Ready syms fk)
    (h : compileExpression e d k fk = .ok (r, fk', c)) : Ready syms fk' :=
  (compileExpression_forms (fun _ _ _ h => h) ⟨id, id⟩ e d k id _ _ _ _ hfk h).1

theorem addInstruction_loud {opcode : Opcode} {r0 r1 r2 : Operand} : Loud (addInstruction opcode r0 r1 r2) := by
  intro fk u fk' c h
  cases h
  exact List.cons_ne_nil _ _

theorem compileLiteral_loud (opcode : Opcode) (data : String) (d : ℕ) : Loud (compileLiteral opcode data d) :=
  Loud.later fun _ => addInstruction_loud.first

theorem compilePostfix_loud (e : Expr) (sub : SubCompiler) (op : PostfixOp) (d : ℕ) :
    Loud (compilePostfix e sub op d) :=
  Loud.later fun _ => Loud.later fun _ => addInstruction_loud.first

theorem compileMethodCall_loud (arity : ℕ) (args : ℕ → Emit ℕ) (callee : SubCompiler) (d : ℕ) :
    Loud (compileMethodCall arity args callee d) := by
  refine Loud.later fun _ => Loud.later fun _ => Loud.later fun _ => Loud.later fun _ => ?_
  exact Loud.later fun _ => addInstruction_loud.first

theorem compileOperands_loud {op : BinaryOp} (hop : op ≠ .assign) (left right : SubCompiler) (d : ℕ) :
    Loud (compileOperands op left right d) := by
  refine Loud.later fun _ => Loud.later fun _ => Loud.later fun _ => Loud.first ?_
  unfold addOperation
  rw [if_neg hop]
  split
  · exact addInstruction_loud
  · exact Loud.fail

theorem compileSetField_loud (left right : Expr) (sub : SubCompiler) :
    Loud (do
      let rightReg ← sub 0 false
      compileDotForSetField (.binary .dot left right) rightReg
      return rightReg) := by
  refine Loud.later fun _ => Loud.first ?_
  rw [compileDotForSetField]
  exact Loud.later fun _ => Loud.later fun _ => addInstruction_loud

theorem compileOuterAssignment_loud (ident : String) (sub : SubCompiler) :
    Loud (compileOuterAssignment ident sub) := Loud.later fun _ => addInstruction_loud.first

theorem compileOperands_assign {left right : SubCompiler}
    (h : compileOperands .assign left right d fk = .ok (r, fk', c)) :
    ∃ a fk₁ c₁ b fk₂ c₂ fk₃ c₃, left 0 false fk = .ok (a, fk₁, c₁) ∧
      right a false fk₁ = .ok (b, fk₂, c₂) ∧ destinationOrTemporary d fk₂ = .ok (r, fk₃, c₃) ∧
      c = c₁ ++ (c₂ ++ c₃) := by
  unfold compileOperands addOperation at h
  simp only [if_true, bind_ok, pure_ok] at h
  obtain ⟨a, fk₁, c₁, _, h₁, ⟨b, fk₂, c₂, _, h₂, ⟨t, fk₃, c₃, _, h₃, ⟨_, fk₄, c₄, _, h₄,
    ⟨_, fk₅, c₅, _, h₅, ⟨_, fk₆, c₆, _, h₆, ⟨rfl, rfl, rfl⟩, rfl⟩, rfl⟩, rfl⟩, rfl⟩, rfl⟩, rfl⟩ := h
  obtain ⟨-, rfl, rfl⟩ := h₄
  obtain ⟨-, rfl⟩ := freeRegisterIf_ok h₅
  obtain ⟨-, rfl⟩ := freeRegister_ok h₆
  exact ⟨a, fk₁, c₁, b, fk₂, c₂, _, c₃, h₁, h₂, h₃, by simp⟩

theorem compilePrefix_unknown {e : Expr} {sub : SubCompiler} {op : PrefixOp}
    (hop : op = .plus ∨ op = .tilde ∨ op = .bang) (h : compilePrefix e sub op d fk = .ok (r, fk', c)) :
    ∃ a fk₁ c₁ fk₂ c₂ c₃, sub 0 false fk = .ok (a, fk₁, c₁) ∧
      destinationOrTemporary d fk₁ = .ok (r, fk₂, c₂) ∧ writeBack e a fk₂ = .ok ((), fk', c₃) ∧
      c = c₁ ++ (c₂ ++ c₃) := by
  unfold compilePrefix at h
  rcases hop with rfl | rfl | rfl <;>
  · simp only [bind_ok, pure_ok] at h
    obtain ⟨a, fk₁, c₁, _, h₁, ⟨t, fk₂, c₂, _, h₂, ⟨_, fk₃, c₃, _, h₃, ⟨rfl, rfl, rfl⟩, rfl⟩, rfl⟩, rfl⟩ := h
    exact ⟨a, fk₁, c₁, fk₂, c₂, c₃, h₁, h₂, h₃, by simp⟩

theorem writeBack_silent {e : Expr} {a : ℕ} {u : Unit} (hfk : Ready syms fk)
    (he : silent (symbolsOf syms) e = true) (h : writeBack e a fk = .ok (u, fk', c)) : c = [] := by
  unfold writeBack at h
  split at h
  · rename_i x
    obtain ⟨reg, fk₁, c₁, c₂, h₁, h₂, rfl⟩ := bind_ok.mp h
    cases h₁
    have hx : symbolsOf syms x ≠ 0 := by simpa [silent] using he
    rw [hfk.getRegister, if_neg hx] at h₂
    obtain ⟨-, -, rfl⟩ := pure_ok.mp h₂
    rfl
  · obtain ⟨-, -, rfl⟩ := pure_ok.mp h
    rfl

theorem compileBinary_loud {op : BinaryOp} (hop : op ≠ .assign) (left : Expr)
    (compileLeft compileRight : SubCompiler) (setField : ℕ → Emit Unit) (d : ℕ) :
    Loud (compileBinary op left compileLeft compileRight setField d) := by
  unfold compileBinary
  split
  · exact absurd rfl hop
  · exact absurd rfl hop
  · exact absurd rfl hop
  · exact absurd rfl hop
  · exact compileOperands_loud hop _ _ d

def Quietly (syms : List (String × ℕ)) (e : Expr) (d r : ℕ) (c : Code) : Prop :=
  (c = [] ↔ silent (symbolsOf syms) e = true) ∧
    (silent (symbolsOf syms) e = true → (r = d ↔ delivers (symbolsOf syms) d e = true))

theorem loud_quietly {m : Emit ℕ} {e : Expr} (hloud : Loud m) (he : silent (symbolsOf syms) e = false)
    (h : m fk = .ok (r, fk', c)) : Quietly syms e d r c := by
  refine ⟨iff_of_false (hloud fk r fk' c h) (by simp [he]), ?_⟩
  intro hsilent
  rw [he] at hsilent
  cases hsilent

theorem destination_delivers (hfk : Ready syms fk) (h : destinationOrTemporary d fk = .ok (r, fk', c)) :
    c = [] ∧ (r = d ↔ (d != 0) = true) := by
  have dest := destinationOrTemporary_destination hfk h
  refine ⟨dest.silent, ?_⟩
  by_cases hd : d = 0
  · have habove := (dest.temporary hd).1
    refine iff_of_false ?_ (by simp [hd])
    omega
  · exact iff_of_true (dest.requested hd) (by simp [hd])

theorem assign_quietly (quietLeft quietRight : Bool) {left right : SubCompiler} {e : Expr}
    (hsilent : silent (symbolsOf syms) e = (quietLeft && quietRight))
    (hdelivers : delivers (symbolsOf syms) d e = (d != 0))
    (hleft : ∀ a fk₁ c₁, left 0 false fk = .ok (a, fk₁, c₁) → Ready syms fk₁ ∧ (c₁ = [] ↔ quietLeft = true))
    (hright : ∀ a fk₁ b fk₂ c₂, Ready syms fk₁ → right a false fk₁ = .ok (b, fk₂, c₂) →
      Ready syms fk₂ ∧ (c₂ = [] ↔ quietRight = true))
    (h : compileOperands .assign left right d fk = .ok (r, fk', c)) : Quietly syms e d r c := by
  obtain ⟨a, fk₁, c₁, b, fk₂, c₂, fk₃, c₃, h₁, h₂, h₃, rfl⟩ := compileOperands_assign h
  obtain ⟨ready₁, hc₁⟩ := hleft a fk₁ c₁ h₁
  obtain ⟨ready₂, hc₂⟩ := hright a fk₁ b fk₂ c₂ ready₁ h₂
  obtain ⟨rfl, hr⟩ := destination_delivers ready₂ h₃
  constructor
  · rw [hsilent, Bool.and_eq_true, ← hc₁, ← hc₂]
    simp
  · intro _
    rw [hdelivers]
    exact hr

theorem compileAssignment_silent {left right : Expr}
    (hleft : ∀ {d r : ℕ} {fk fk' : FunctionKind} {c : Code}, Ready syms fk →
      compileExpression left d false fk = .ok (r, fk', c) → (c = [] ↔ silent (symbolsOf syms) left = true))
    (hright : ∀ {d r : ℕ} {fk fk' : FunctionKind} {c : Code}, Ready syms fk →
      compileExpression right d false fk = .ok (r, fk', c) → (c = [] ↔ silent (symbolsOf syms) right = true))
    (hfk : Ready syms fk) (h : compileBinary .assign left (fun d k => compileExpression left d k)
      (fun d k => compileExpression right d k) (fun r => compileDotForSetField left r) d fk = .ok (r, fk', c)) :
    Quietly syms (.binary .assign left right) d r c := by
  have hquietLeft : ∀ a fk₁ c₁, compileExpression left 0 false fk = .ok (a, fk₁, c₁) →
      Ready syms fk₁ ∧ (c₁ = [] ↔ silent (symbolsOf syms) left = true) :=
    fun a fk₁ c₁ h₁ => ⟨compileExpression_keeps hfk h₁, hleft hfk h₁⟩
  have hquietRight : ∀ a fk₁ b fk₂ c₂, Ready syms fk₁ → compileExpression right a false fk₁ = .ok (b, fk₂, c₂) →
      Ready syms fk₂ ∧ (c₂ = [] ↔ silent (symbolsOf syms) right = true) :=
    fun a fk₁ b fk₂ c₂ ready h₂ => ⟨compileExpression_keeps ready h₂, hright ready h₂⟩
  match left with
  | .binary op l l' =>
    cases op with
    | dot => exact loud_quietly (compileSetField_loud l l' _) rfl h
    | _ => cases h
  | .terminal (.identifier x) =>
    obtain ⟨reg, fk₁, c₁, c₂, h₁, h₂, rfl⟩ := bind_ok.mp h
    cases h₁
    rw [hfk.getRegister] at h₂
    by_cases hx : symbolsOf syms x = 0
    · rw [if_pos hx] at h₂
      exact loud_quietly (compileOuterAssignment_loud x _) (by simp [silent, hx]) h₂
    · rw [if_neg hx] at h₂
      have hsame : silent (symbolsOf syms) (.terminal (.identifier x)) = (symbolsOf syms x != 0) := rfl
      rw [hsame] at hquietLeft
      exact assign_quietly _ _ rfl rfl hquietLeft hquietRight h₂
  | .terminal (.number _) => cases h
  | .terminal (.string _) => cases h
  | .methodCall _ _ => exact assign_quietly _ _ rfl rfl hquietLeft hquietRight h
  | .postfixed _ _ => exact assign_quietly _ _ rfl rfl hquietLeft hquietRight h
  | .prefixed _ _ => exact assign_quietly _ _ rfl rfl hquietLeft hquietRight h
  | .empty => exact assign_quietly _ _ rfl rfl hquietLeft hquietRight h

/-- An expression emits nothing exactly when it is silent. -/
theorem compileExpression_silent : ∀ (e : Expr) {d r : ℕ} {fk fk' : FunctionKind} {c : Code}, Ready syms fk →
    compileExpression e d false fk = .ok (r, fk', c) → Quietly syms e d r c
  | .empty, d, r, fk, fk', c, _, h => by
    rw [compileExpression] at h
    obtain ⟨rfl, -, rfl⟩ := pure_ok.mp h
    refine ⟨iff_of_true rfl rfl, ?_⟩
    intro _
    rw [delivers, beq_iff_eq]
    exact eq_comm
  | .terminal (.identifier x), d, r, fk, fk', c, hfk, h => by
    rw [compileExpression] at h
    rcases compileIdentifierImmediate_ok hfk h with ⟨hx, rfl, -, rfl⟩ | ⟨hx, -, rfl⟩
    · refine ⟨iff_of_true rfl (by simpa [silent] using hx), ?_⟩
      intro _
      simp [delivers]
    · refine ⟨iff_of_false (List.cons_ne_nil _ _) (by simp [silent, hx]), ?_⟩
      intro hsilent
      simp [silent, hx] at hsilent
  | .terminal (.number text), d, r, fk, fk', c, _, h => by
    rw [compileExpression] at h
    exact loud_quietly (compileLiteral_loud .MOV_NUMBER text d) rfl h
  | .terminal (.string text), d, r, fk, fk', c, _, h => by
    rw [compileExpression] at h
    exact loud_quietly (compileLiteral_loud .MOV_STR text d) rfl h
  | .methodCall callee args, d, r, fk, fk', c, _, h => by
    rw [compileExpression] at h
    exact loud_quietly (compileMethodCall_loud _ _ _ d) rfl h
  | .postfixed e op, d, r, fk, fk', c, _, h => by
    rw [compileExpression] at h
    exact loud_quietly (compilePostfix_loud e _ op d) rfl h
  | .prefixed op e, d, r, fk, fk', c, hfk, h => by
    rw [compileExpression] at h
    by_cases hop : op = .plus ∨ op = .tilde ∨ op = .bang
    · obtain ⟨a, fk₁, c₁, fk₂, c₂, c₃, h₁, h₂, h₃, rfl⟩ := compilePrefix_unknown hop h
      have ready₁ := compileExpression_keeps hfk h₁
      obtain ⟨hquiet, -⟩ := compileExpression_silent e hfk h₁
      obtain ⟨rfl, hr⟩ := destination_delivers ready₁ h₂
      have hsame : silent (symbolsOf syms) (.prefixed op e) = silent (symbolsOf syms) e := by
        rcases hop with rfl | rfl | rfl <;> rfl
      refine ⟨?_, fun _ => hr⟩
      rw [hsame, ← hquiet]
      constructor
      · intro hnil
        exact (List.append_eq_nil_iff.mp hnil).1
      · intro hnil
        have ready₂ := (destinationOrTemporary_destination ready₁ h₂).ready
        rw [writeBack_silent ready₂ (hquiet.mp hnil) h₃, hnil]
        rfl
    · have hloud : Loud (compilePrefix e (fun d k => compileExpression e d k) op d) := by
        cases op with
        | plus | tilde | bang => simp at hop
        | increment | decrement => exact Loud.later fun _ => Loud.later fun _ => addInstruction_loud.first
        | minus =>
          refine Loud.later fun _ => Loud.later fun _ => Loud.later fun _ => ?_
          exact (compileLiteral_loud _ _ _).first
        | throwing =>
          exact Loud.later fun _ => Loud.later fun _ => Loud.later fun _ => addInstruction_loud.first
      refine loud_quietly hloud ?_ h
      cases op with
      | plus | tilde | bang => simp at hop
      | increment | decrement | minus | throwing => rfl
  | .binary op left right, d, r, fk, fk', c, hfk, h => by
    rw [compileExpression] at h
    by_cases hop : op = .assign
    · subst hop
      exact compileAssignment_silent (fun hfk h => (compileExpression_silent left hfk h).1)
        (fun hfk h => (compileExpression_silent right hfk h).1) hfk h
    · refine loud_quietly (compileBinary_loud hop left _ _ _ d) ?_ h
      cases op with
      | assign => exact absurd rfl hop
      | _ => rfl

end

mutual

def silentStmt (reg : Symbols) : Stmt → Bool
  | .expression e hasReturn hasBreak _ => silent reg e && !hasReturn && !hasBreak
  | .function _ _ _ _ _ _ => true
  | .var x value _ isSynchronized => !isSynchronized && silent reg value && delivers reg (reg x) value
  | .block body => silentBlock reg body
  | .loop _ _ _ _ | .conditional _ _ _ | .tryCatch _ _ _ _ => false

def silentBlock (reg : Symbols) : Body → Bool
  | [] => true
  | stmt :: rest => silentStmt reg stmt && !isFunction stmt && silentBlock reg rest

end

def silentAll (reg : Symbols) (body : Body) : Bool := body.all (silentStmt reg)

theorem silentBlock_eq (reg : Symbols) (body : Body) :
    silentBlock reg body = (body.all (fun stmt => !isFunction stmt) && silentAll reg body) := by
  induction body with
  | nil => rfl
  | cons stmt rest ih =>
    rw [silentBlock, ih, silentAll, silentAll, List.all_cons, List.all_cons]
    cases silentStmt reg stmt <;> cases isFunction stmt <;> simp

structure InFunction (syms : List (String × ℕ)) (s : CompilerState) : Prop where
  tidy : Tidy s
  symbols : s.function.symbolTable = syms

theorem inFunction_stable (syms : List (String × ℕ)) : Stable (InFunction syms) where
  wellFormed _ h := h.tidy.function
  tables s fk h hfk hwell := ⟨tidy_stable.tables s fk h.tidy hfk hwell, hfk.trans h.symbols⟩
  counted s n h := ⟨tidy_stable.counted s n h.tidy, h.symbols⟩
  later s functions h := ⟨tidy_stable.later s functions h.tidy, h.symbols⟩

section

variable {syms : List (String × ℕ)} {s s' : CompilerState} {c : Code}

theorem InFunction.ready (h : InFunction syms s) : Ready syms s.function :=
  ⟨h.symbols, h.tidy.function, fun _ hf => hf.elim⟩

theorem onFunction_quietly {e : Expr} {d r : ℕ} (hs : InFunction syms s)
    (h : Compiler.compileExpression e d s = .ok (r, s', c)) : Quietly syms e d r c := by
  unfold Compiler.compileExpression Compiler.onFunction at h
  split at h
  · cases h
  · rename_i hcompile
    cases h
    exact compileExpression_silent e hs.ready hcompile

theorem addInstruction_emits {opcode : Opcode} {r0 r1 r2 : Operand} :
    Loud (Compiler.addInstruction opcode r0 r1 r2) := by
  intro s u s' c h
  cases h
  exact List.cons_ne_nil _ _

theorem compileVar_silent {x : String} {value : Expr} {isSynchronized : Bool} {u : Unit}
    (hs : InFunction syms s) (h : Compiler.compileVar x value isSynchronized s = .ok (u, s', c)) :
    c = [] ↔ silentStmt (symbolsOf syms) (.var x value false isSynchronized) = true := by
  obtain ⟨reg, s₁, c₁, c₂, hreg, hrest, rfl⟩ := bind_ok.mp h
  obtain ⟨valueReg, s₂, c₃, c₄, hvalue, hrest', rfl⟩ := bind_ok.mp hrest
  cases hreg
  rw [hs.ready.getRegister] at hvalue hrest'
  obtain ⟨hquiet, hdelivers⟩ := onFunction_quietly hs hvalue
  rw [silentStmt, List.nil_append]
  by_cases hsync : isSynchronized = true
  · rw [if_pos hsync] at hrest'
    have hloud : c₄ ≠ [] := (Loud.later fun _ => addInstruction_emits.first) s₂ _ _ _ hrest'
    exact iff_of_false (by simp [hloud]) (by simp [hsync])
  · rw [if_neg hsync] at hrest'
    by_cases hreg : valueReg = symbolsOf syms x
    · rw [if_neg (not_not.mpr hreg)] at hrest'
      obtain ⟨-, -, rfl⟩ := pure_ok.mp hrest'
      rw [List.append_nil, hquiet]
      constructor
      · intro hsilent
        simp [hsync, hsilent, (hdelivers hsilent).mp hreg]
      · intro hall
        simp only [Bool.and_eq_true] at hall
        exact hall.1.2
    · rw [if_pos hreg] at hrest'
      have hloud : c₄ ≠ [] := addInstruction_emits.first s₂ _ _ _ hrest'
      refine iff_of_false (by simp [hloud]) ?_
      intro hall
      simp only [Bool.and_eq_true] at hall
      exact hreg ((hdelivers hall.1.2).mpr hall.2)

theorem compileExpressionStmt_silent {fuel : ℕ} {context : Context} {e : Expr} {hasReturn hasBreak : Bool}
    {u : Unit} (hs : InFunction syms s)
    (h : Compiler.compileExpressionStmt (Compiler.compileStmt fuel) context e hasReturn hasBreak s =
      .ok (u, s', c)) :
    c = [] ↔ (silent (symbolsOf syms) e && !hasReturn && !hasBreak) = true := by
  unfold Compiler.compileExpressionStmt at h
  cases hasBreak with
  | true =>
    have hbreak : Loud (Compiler.compileBreak context) := by
      unfold Compiler.compileBreak
      split
      · exact Loud.fail
      · exact addInstruction_emits
    exact iff_of_false (hbreak.first s _ _ _ h) (by simp)
  | false =>
    cases hasReturn with
    | true =>
      have hreturn : ∀ reg, Loud (Compiler.compileReturn (Compiler.compileStmt fuel) context reg) :=
        fun _ => Loud.later fun _ => addInstruction_emits
      have hloud := (Loud.later fun reg => (hreturn reg).first) s _ _ _ h
      exact iff_of_false hloud (by simp)
    | false =>
      obtain ⟨reg, s₂, c₂, c₃, hcompile, hrest, rfl⟩ := bind_ok.mp h
      cases hrest
      simpa using (onFunction_quietly hs hcompile).1

section

variable {fuel : ℕ} (hstmt : ∀ {context : Context} {stmt : Stmt} {s s' : CompilerState} {c : Code},
  InFunction syms s → Compiler.compileStmt fuel context stmt s = .ok ((), s', c) →
    (c = [] ↔ silentStmt (symbolsOf syms) stmt = true))

include hstmt

theorem compileStatements_silent {context : Context} : ∀ {body : Body} {i : ℕ} {s s' : CompilerState} {c : Code},
    InFunction syms s → Compiler.compileStatements (Compiler.compileStmt fuel) context i body s = .ok ((), s', c) →
    (c = [] ↔ silentAll (symbolsOf syms) body = true)
  | [], i, s, s', c, _, h => by
    obtain ⟨-, -, rfl⟩ := pure_ok.mp h
    exact iff_of_true rfl rfl
  | stmt :: rest, i, s, s', c, hs, h => by
    obtain ⟨⟨⟩, s₁, c₁, c₂, hfirst, hrest, rfl⟩ := bind_ok.mp h
    have hs₁ := (compileStmt_forms (inFunction_stable syms) (fun _ _ => trivial) fuel _ stmt s _ s₁ c₁ hs hfirst).1
    rw [List.append_eq_nil_iff, hstmt hs hfirst, compileStatements_silent hs₁ hrest, silentAll, silentAll,
      List.all_cons, Bool.and_eq_true]

end

theorem hoist_silent : ∀ {body : Body} {s s' : CompilerState} {c : Code},
    Compiler.forEach Compiler.hoist body s = .ok ((), s', c) →
    (c = [] ↔ body.all (fun stmt => !isFunction stmt) = true)
  | [], s, s', c, h => by
    obtain ⟨-, -, rfl⟩ := pure_ok.mp h
    exact iff_of_true rfl rfl
  | stmt :: rest, s, s', c, h => by
    obtain ⟨⟨⟩, s₁, c₁, c₂, hfirst, hrest, rfl⟩ := bind_ok.mp h
    have hone : c₁ = [] ↔ (!isFunction stmt) = true := by
      cases stmt with
      | function =>
        have hloud := (Loud.later fun _ => addInstruction_emits) s _ _ _ hfirst
        exact iff_of_false hloud (by simp [isFunction])
      | _ =>
        obtain ⟨-, -, rfl⟩ := pure_ok.mp hfirst
        exact iff_of_true rfl rfl
    rw [List.append_eq_nil_iff, hone, hoist_silent hrest, List.all_cons, Bool.and_eq_true]

/-- A statement emits nothing exactly when it is silent. -/
theorem compileStmt_silent (fuel : ℕ) {context : Context} {stmt : Stmt} (hs : InFunction syms s)
    (h : Compiler.compileStmt fuel context stmt s = .ok ((), s', c)) :
    c = [] ↔ silentStmt (symbolsOf syms) stmt = true := by
  induction fuel generalizing context stmt s s' c with
  | zero => cases h
  | succ fuel ih =>
    cases stmt with
    | expression e hasReturn hasBreak hasContinue => exact compileExpressionStmt_silent hs h
    | function =>
      cases h
      exact iff_of_true rfl rfl
    | var x value isPrivate isSynchronized => exact compileVar_silent hs h
    | loop startExpr condition iterExpr body =>
      have hloud : Loud (Compiler.compileLoop (Compiler.compileStmt fuel) context startExpr condition iterExpr
          body) := by
        refine Loud.later fun _ => Loud.later fun _ => Loud.later fun _ => Loud.later fun _ => ?_
        exact addInstruction_emits.first
      exact iff_of_false (hloud s _ _ _ h) (by simp [silentStmt])
    | block body =>
      obtain ⟨⟨⟩, s₁, c₁, c₂, hhoist, hrest, rfl⟩ := bind_ok.mp h
      have hs₁ := (forEach_forms (hoist_forms (fun _ _ => trivial)) body s _ s₁ c₁ hs hhoist).1
      rw [List.append_eq_nil_iff, hoist_silent hhoist, compileStatements_silent ih hs₁ hrest, silentStmt,
        silentBlock_eq, Bool.and_eq_true]
    | conditional condition body elseBody =>
      have hloud : Loud (Compiler.compileConditional (Compiler.compileStmt fuel) context condition body
          elseBody) := by
        refine Loud.later fun _ => Loud.later fun _ => Loud.later fun _ => ?_
        exact addInstruction_emits.first
      exact iff_of_false (hloud s _ _ _ h) (by simp [silentStmt])
    | tryCatch catchIdent tryBody catchBody finallyBody =>
      have hloud : Loud (Compiler.compileTryCatch (Compiler.compileStmt fuel) context catchIdent tryBody catchBody
          finallyBody) := by
        refine Loud.later fun _ => Loud.later fun _ => ?_
        exact addInstruction_emits.first
      exact iff_of_false (hloud s _ _ _ h) (by simp [silentStmt])

end

end Zeroscript.SilentCode
