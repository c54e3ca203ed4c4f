import Zeroscript.BytecodeOptimizer
import Zeroscript.Compiler
import Zeroscript.Program
import Zeroscript.ProtectedRegisters

/-! # Operands of emitted instructions

In every instruction of a compiled class the second operand is a register index just where the
opcode reads a register, and a compare has a result register. The optimizer keeps both. -/
namespace Zeroscript.InstructionShapes

open Emission ProtectedRegisters
open Relation (ReflTransGen)

/-- The second operand is a register in the opcodes of arithmetic, moves, field accesses with a
computed name, calls, and jumps that compare two registers. -/
def secondIsRegister : Opcode → Bool
  | .MOV | .ADD | .SUB | .DIV | .MUL | .MOD | .CMP_EQUAL | .CMP_LESS | .CMP_LESS_OR_EQUAL
  | .CMP_GREATER | .CMP_N_EQUAL | .CMP_GREATER_OR_EQUAL | .GET_FIELD | .SET_FIELD | .CALL | .INC
  | .DEC | .JMP_LESS | .JMP_GREATER | .JMP_LESS_OR_EQUAL | .JMP_GREATER_OR_EQUAL | .JMP_EQUAL
  | .JMP_N_EQUAL => true
  | _ => false

structure Typed (i : Instruction) : Prop where
  second : secondIsRegister i.opcode = false → ∀ r, i.r1 = .num r → r = 0
  result : i.opcode.isCompare = true → i.r2.reg ≠ 0

/-- The temporaries of the current function, and of those compiled before, have no gap. -/
structure Tidy (s : CompilerState) : Prop where
  function : s.function.WellFormed
  kept : ∀ key table, (key, table) ∈ s.registerTables →
    FunctionKind.WellFormed { symbolTable := key.2, registerTable := table }

abbrev Types {β : Type} (m : Compile β) : Prop := Emits Tidy Typed m fun _ => True

inductive StatementForm : Instruction → Prop where
  | expression {i : Instruction} (h : Form (fun _ => False) i) : StatementForm i
  | label {text : String} : StatementForm ⟨.LABEL, .str text, .num 0, .num 0⟩
  | jump {target : String} : StatementForm ⟨.JMP, .str target, .num 0, .num 0⟩
  | jumpTrue {r : ℕ} {target : String} : StatementForm ⟨.JMP_TRUE, .num r, .str target, .num 0⟩
  | jumpNotTrue {r : ℕ} {target : String} : StatementForm ⟨.JMP_NOT_TRUE, .num r, .str target, .num 0⟩
  | function {r flag : ℕ} {name : String} : StatementForm ⟨.MOV_FNC, .num r, .str name, .num flag⟩
  | name {r : ℕ} {text : String} : StatementForm ⟨.MOV_STR, .num r, .str text, .num 0⟩
  | setField {object key value : ℕ} : StatementForm ⟨.SET_FIELD, .num object, .num key, .num value⟩
  | mov {r value : ℕ} : StatementForm ⟨.MOV, .num r, .num value, .num 0⟩
  | setCatch {target label : String} : StatementForm ⟨.SET_CATCH, .str target, .str label, .num 0⟩
  | clearCatch : StatementForm ⟨.CLEAR_CATCH, .num 0, .num 0, .num 0⟩
  | pop {r : ℕ} : StatementForm ⟨.POP, .num r, .num 0, .num 0⟩
  | ret {r : ℕ} : StatementForm ⟨.RETURN, .num r, .num 0, .num 0⟩

inductive ClassForm (importsMap : List (String × String)) : Instruction → Prop where
  | statement {i : Instruction} (h : StatementForm i) : ClassForm importsMap i
  | frame (fk : FunctionKind) {label : String} :
      ClassForm importsMap ⟨.FFRAME, .num (fk.registerTable.length + fk.symbolTable.length),
        .symbols fk.symbolInfo, .str label⟩
  | createThis : ClassForm importsMap ⟨.CREATE_THIS, .num 0, .num 0, .num 0⟩
  | importing {path name : String} (h : (path, name) ∈ importsMap) :
      ClassForm importsMap ⟨.IMPORT_CLS, .str path, .str name, .num 0⟩
  | statics {r : ℕ} :
      ClassForm importsMap ⟨.GET_FIELD_IMMEDIATE, .num 1, .str "__static__", .num r⟩

theorem form_typed {P : ℕ → Prop} {i : Instruction} (h : Form P i) : Typed i := by
  cases h with
  | step hop ha hb => rcases hop with rfl | rfl <;> exact ⟨fun h => (nomatch h), fun h => (nomatch h)⟩
  | @operation op opcode a b r hop ha hb hr =>
    refine ⟨fun hsecond => ?_, fun _ => hr.2⟩
    cases op <;> cases hop <;> cases hsecond
  | number | string | lookup => exact ⟨fun _ _ hr => (nomatch hr), fun h => (nomatch h)⟩
  | push | throwing =>
    refine ⟨fun _ r hr => ?_, fun h => (nomatch h)⟩
    cases hr
    rfl
  | mov | negate | setField | call => exact ⟨fun h => (nomatch h), fun h => (nomatch h)⟩

theorem statementForm_typed (i : Instruction) (h : StatementForm i) : Typed i := by
  cases h with
  | expression h => exact form_typed h
  | label | jump | clearCatch | pop | ret =>
    refine ⟨fun _ r hr => ?_, fun h => (nomatch h)⟩
    cases hr
    rfl
  | jumpTrue | jumpNotTrue | function | name | setCatch =>
    exact ⟨fun _ r hr => (nomatch hr), fun h => (nomatch h)⟩
  | setField | mov => exact ⟨fun h => (nomatch h), fun h => (nomatch h)⟩

def inStatements : Opcode → Bool
  | .FFRAME | .IMPORT_CLS | .CREATE_THIS => false
  | _ => true

theorem statementForm_opcode {i : Instruction} (h : StatementForm i) : inStatements i.opcode = true := by
  cases h with
  | expression h =>
    cases h with
    | step hop => rcases hop with rfl | rfl <;> rfl
    | @operation op opcode a b r hop => cases op <;> cases hop <;> rfl
    | number | string | mov | negate | lookup | setField | call | push | throwing => rfl
  | label | jump | jumpTrue | jumpNotTrue | function | name | setField | mov | setCatch | clearCatch | pop
  | ret => rfl

theorem classForm_typed {importsMap : List (String × String)} (i : Instruction)
    (h : ClassForm importsMap i) : Typed i := by
  cases h with
  | statement h => exact statementForm_typed _ h
  | frame | importing | statics => exact ⟨fun _ r hr => (nomatch hr), fun h => (nomatch h)⟩
  | createThis =>
    refine ⟨fun _ r hr => ?_, fun h => (nomatch h)⟩
    cases hr
    rfl

/-- What no statement changes: it may look at the symbol table, and has to ask for tables in order. -/
structure Stable (I : CompilerState → Prop) : Prop where
  wellFormed : ∀ s, I s → s.function.WellFormed
  tables : ∀ s fk, I s → fk.symbolTable = s.function.symbolTable → fk.WellFormed →
    I { s with function := fk }
  counted : ∀ s n, I s → I { s with labelCount := n }
  later : ∀ s functions, I s → I { s with functionsToCompile := functions }

theorem tidy_stable : Stable Tidy where
  wellFormed _ h := h.function
  tables _ _ h _ hfk := ⟨hfk, h.kept⟩
  counted _ _ h := ⟨h.function, h.kept⟩
  later _ _ h := ⟨h.function, h.kept⟩

section

variable {I : CompilerState → Prop} {Q : Instruction → Prop} (hI : Stable I)
  (hQ : ∀ i, StatementForm i → Q i)

abbrev Forms (I : CompilerState → Prop) (Q : Instruction → Prop) {β : Type} (m : Compile β) : Prop :=
  Emits I Q m fun _ => True

include hQ in
theorem addInstruction_forms {opcode : Opcode} {r0 r1 r2 : Operand}
    (h : StatementForm ⟨opcode, r0, r1, r2⟩) : Forms I Q (Compiler.addInstruction opcode r0 r1 r2) := by
  intro s b s' c hs hrun
  cases hrun
  refine ⟨hs, fun i hi => ?_, trivial⟩
  obtain rfl := List.mem_singleton.mp hi
  exact hQ _ h

include hI hQ in
/-- An expression is compiled on the tables of the current function only. -/
theorem compileExpression_emits (e : Expr) (requested : ℕ) :
    Forms I Q (Compiler.compileExpression e requested) := by
  intro s b s' c hs hrun
  unfold Compiler.compileExpression Compiler.onFunction at hrun
  split at hrun
  · cases hrun
  · rename_i r fk code hcompile
    cases hrun
    have hready : Protecting s.function.symbolTable (fun _ => False) s.function :=
      ⟨rfl, hI.wellFormed s hs, fun _ h => h.elim⟩
    obtain ⟨hfk, hforms, -⟩ := compileExpression_forms (fun _ _ _ h => h) ⟨id, id⟩ e requested false
      id _ _ _ _ hready hcompile
    exact ⟨hI.tables s _ hs hfk.symbolTable hfk.wellFormed, fun i hi => hQ i (.expression (hforms i hi)),
      trivial⟩

theorem getRegister_forms (ident : String) : Forms I Q (Compiler.getRegister ident) := by
  intro s b s' c hs hrun
  cases hrun
  exact ⟨hs, by simp, trivial⟩

include hI in
theorem getTemporary_forms : Forms I Q Compiler.getTemporary := by
  intro s b s' c hs hrun
  obtain ⟨r, fk, hget, handed⟩ := FunctionKind.getTemporary_handed (hI.wellFormed s hs)
  unfold Compiler.getTemporary Compiler.onFunction Zeroscript.getTemporary at hrun
  rw [hget] at hrun
  cases hrun
  exact ⟨hI.tables s _ hs handed.symbolTable handed.wellFormed, by simp, trivial⟩

include hI in
theorem freeRegister_forms (index : ℕ) : Forms I Q (Compiler.freeRegister index) := by
  intro s b s' c hs hrun
  cases hrun
  have freed := FunctionKind.freeRegister_freed (hI.wellFormed s hs) index
  exact ⟨hI.tables s _ hs freed.symbolTable freed.wellFormed, by simp, trivial⟩

include hI in
theorem freshLabel_forms (stem : String) : Forms I Q (Compiler.freshLabel stem) := by
  intro s b s' c hs hrun
  cases hrun
  exact ⟨hI.counted s _ hs, by simp, trivial⟩

theorem forEach_mem_forms {γ : Type} {f : γ → Compile Unit} :
    ∀ xs, (∀ x ∈ xs, Forms I Q (f x)) → Forms I Q (Compiler.forEach f xs)
  | [], _ => Emits.pure trivial
  | x :: xs, hf => (hf x List.mem_cons_self).bind fun _ _ =>
      forEach_mem_forms xs fun y hy => hf y (List.mem_cons_of_mem _ hy)

theorem forEach_forms {γ : Type} {f : γ → Compile Unit} (hf : ∀ x, Forms I Q (f x)) (xs : List γ) :
    Forms I Q (Compiler.forEach f xs) :=
  forEach_mem_forms xs fun x _ => hf x

include hQ in
theorem hoist_forms (stmt : Stmt) : Forms I Q (Compiler.hoist stmt) := by
  cases stmt with
  | function => exact (getRegister_forms _).bind fun _ _ => addInstruction_forms hQ .function
  | expression | var | loop | block | conditional | tryCatch => exact Emits.pure trivial

include hQ in
theorem compileBreak_forms (context : Context) : Forms I Q (Compiler.compileBreak context) := by
  unfold Compiler.compileBreak
  split
  · exact Emits.fail
  · exact addInstruction_forms hQ .jump

include hI hQ

theorem compileDiscarded_forms (e : Option Expr) : Forms I Q (Compiler.compileDiscarded e) := by
  cases e with
  | none => exact Emits.pure trivial
  | some e => exact (compileExpression_emits hI hQ e 0).bind fun reg _ => freeRegister_forms hI reg

theorem compileVar_forms (identifier : String) (value : Expr) (isSynchronized : Bool) :
    Forms I Q (Compiler.compileVar identifier value isSynchronized) := by
  refine (getRegister_forms identifier).bind fun reg _ => ?_
  refine (compileExpression_emits hI hQ value reg).bind fun valueReg _ => ?_
  refine Emits.ite (fun _ => ?_) fun _ => Emits.ite (fun _ => ?_) fun _ => Emits.pure trivial
  · refine (getTemporary_forms hI).bind fun tempReg _ => ?_
    refine (addInstruction_forms hQ .name).bind fun _ _ => ?_
    refine (addInstruction_forms hQ .setField).bind fun _ _ => ?_
    exact freeRegister_forms hI tempReg
  · exact (addInstruction_forms hQ .mov).bind fun _ _ => freeRegister_forms hI valueReg

section

variable {compileStmt : Context → Stmt → Compile Unit}
  (hstmt : ∀ context stmt, Forms I Q (compileStmt context stmt))

include hstmt

omit hI hQ in
theorem compileStatements_forms (context : Context) :
    ∀ (i : ℕ) (body : Body), Forms I Q (Compiler.compileStatements compileStmt context i body)
  | _, [] => Emits.pure trivial
  | i, stmt :: rest => (hstmt _ stmt).bind fun _ _ => compileStatements_forms context (i + 1) rest

omit hI in
theorem compileBody_forms (context : Context) (body : Body) :
    Forms I Q (Compiler.compileBody compileStmt context body) :=
  (forEach_forms (hoist_forms hQ) body).bind fun _ _ => compileStatements_forms hstmt context 0 body

theorem compileLoop_forms (context : Context) (startExpr condition iterExpr : Option Expr)
    (body : Body) :
    Forms I Q (Compiler.compileLoop compileStmt context startExpr condition iterExpr body) := by
  refine (freshLabel_forms hI _).bind fun lstart _ => ?_
  refine (freshLabel_forms hI _).bind fun lend _ => ?_
  refine (freshLabel_forms hI _).bind fun lcond _ => ?_
  refine (compileDiscarded_forms hI hQ startExpr).bind fun _ _ => ?_
  refine (addInstruction_forms hQ .jump).bind fun _ _ => ?_
  refine (addInstruction_forms hQ .label).bind fun _ _ => ?_
  refine (compileBody_forms hQ hstmt _ body).bind fun _ _ => ?_
  refine (compileDiscarded_forms hI hQ iterExpr).bind fun _ _ => ?_
  refine (addInstruction_forms hQ .label).bind fun _ _ => ?_
  cases condition with
  | none => exact addInstruction_forms hQ .label
  | some condition =>
    refine (compileExpression_emits hI hQ condition 0).bind fun condReg _ => ?_
    refine (addInstruction_forms hQ .jumpTrue).bind fun _ _ => ?_
    exact (freeRegister_forms hI condReg).bind fun _ _ => addInstruction_forms hQ .label

theorem compileConditional_forms (context : Context) (condition : Expr) (body : Body)
    (elseBody : Option Body) :
    Forms I Q (Compiler.compileConditional compileStmt context condition body elseBody) := by
  refine (freshLabel_forms hI _).bind fun ifFail _ => ?_
  refine (freshLabel_forms hI _).bind fun conEnd _ => ?_
  refine (compileExpression_emits hI hQ condition 0).bind fun condReg _ => ?_
  refine (addInstruction_forms hQ .jumpNotTrue).bind fun _ _ => ?_
  refine (freeRegister_forms hI condReg).bind fun _ _ => ?_
  refine (compileBody_forms hQ hstmt _ body).bind fun _ _ => ?_
  cases elseBody with
  | none => exact (addInstruction_forms hQ .label).bind fun _ _ => addInstruction_forms hQ .label
  | some elseBody =>
    refine (addInstruction_forms hQ .jump).bind fun _ _ => ?_
    refine (addInstruction_forms hQ .label).bind fun _ _ => ?_
    exact (compileBody_forms hQ hstmt _ elseBody).bind fun _ _ => addInstruction_forms hQ .label

theorem compileTryCatch_forms (context : Context) (catchIdent : String) (tryBody catchBody : Body)
    (finallyBody : Option Body) :
    Forms I Q (Compiler.compileTryCatch compileStmt context catchIdent tryBody catchBody finallyBody) := by
  refine (freshLabel_forms hI _).bind fun catchLabel _ => ?_
  refine (freshLabel_forms hI _).bind fun finallyLabel _ => ?_
  refine (addInstruction_forms hQ .setCatch).bind fun _ _ => ?_
  refine (compileBody_forms hQ hstmt _ tryBody).bind fun _ _ => ?_
  refine (addInstruction_forms hQ .jump).bind fun _ _ => ?_
  refine (addInstruction_forms hQ .label).bind fun _ _ => ?_
  refine (getRegister_forms catchIdent).bind fun reg _ => ?_
  refine (addInstruction_forms hQ .pop).bind fun _ _ => ?_
  refine (compileBody_forms hQ hstmt _ catchBody).bind fun _ _ => ?_
  refine (addInstruction_forms hQ .label).bind fun _ _ => ?_
  cases finallyBody with
  | none => exact addInstruction_forms hQ .clearCatch
  | some body => exact (compileBody_forms hQ hstmt _ body).bind fun _ _ =>
      addInstruction_forms hQ .clearCatch

omit hI in
theorem compileReturn_forms (context : Context) (reg : ℕ) :
    Forms I Q (Compiler.compileReturn compileStmt context reg) := by
  refine (forEach_forms (fun block => ?_) context.finallyBlocks).bind fun _ _ => ?_
  · exact compileBody_forms hQ hstmt _ block.2
  · exact addInstruction_forms hQ .ret

theorem compileExpressionStmt_forms (context : Context) (e : Expr) (hasReturn hasBreak : Bool) :
    Forms I Q (Compiler.compileExpressionStmt compileStmt context e hasReturn hasBreak) := by
  have hrest : Forms I Q (do
      let reg ← Compiler.compileExpression e 0
      if hasReturn then Compiler.compileReturn compileStmt context reg else pure ()
      Compiler.freeRegister reg) := by
    refine (compileExpression_emits hI hQ e 0).bind fun reg _ => ?_
    refine Emits.ite (fun _ => ?_) fun _ => freeRegister_forms hI reg
    exact (compileReturn_forms hQ hstmt context reg).bind fun _ _ => freeRegister_forms hI reg
  exact Emits.ite (fun _ => (compileBreak_forms hQ context).bind fun _ _ => hrest) fun _ => hrest

end

theorem compileStmt_forms (fuel : ℕ) (context : Context) (stmt : Stmt) :
    Forms I Q (Compiler.compileStmt fuel context stmt) := by
  induction fuel generalizing context stmt with
  | zero => exact Emits.fail
  | succ fuel ih =>
    cases stmt with
    | expression => exact compileExpressionStmt_forms hI hQ ih context _ _ _
    | function =>
      intro s b s' c hs hrun
      cases hrun
      exact ⟨hI.later s _ hs, by simp, trivial⟩
    | var => exact compileVar_forms hI hQ _ _ _
    | loop => exact compileLoop_forms hI hQ ih context _ _ _ _
    | block => exact compileBody_forms hQ ih context _
    | conditional => exact compileConditional_forms hI hQ ih context _ _ _
    | tryCatch => exact compileTryCatch_forms hI hQ ih context _ _ _ _

end

section

variable {importsMap : List (String × String)} {Q : Instruction → Prop}
  (hQ : ∀ i, ClassForm importsMap i → i.opcode ≠ .CREATE_THIS → Q i)

theorem wellFormed_empty (syms : List (String × ℕ)) (privates : List String) :
    FunctionKind.WellFormed { symbolTable := syms, privatesTable := privates } := rfl

theorem kind_wellFormed {s : CompilerState} (hs : Tidy s) (node : FunctionNode) :
    (Compiler.FunctionNode.kind node s).WellFormed := by
  unfold Compiler.FunctionNode.kind
  dsimp only
  cases hl : s.registerTables.lookup (node.path, (if node.addressed then
    calculateFunction node.identifier node.arguments node.body else {}).symbolTable) with
  | none => exact wellFormed_empty _ _
  | some table =>
    obtain ⟨l₁, l₂, heq, -⟩ := List.lookup_eq_some_iff.mp hl
    exact hs.kept _ table (heq ▸ List.mem_append_right _ List.mem_cons_self)

theorem inFunction_forms {node : FunctionNode} {body : Compile Unit} (h : Forms Tidy Q body) :
    Forms Tidy Q (Compiler.inFunction node body) := by
  intro s b s' c hs hrun
  unfold Compiler.inFunction at hrun
  split at hrun
  · cases hrun
  · rename_i s₁ code hbody
    cases hrun
    have hresult := fun htidy => h _ () s₁ c htidy hbody
    obtain ⟨hs₁, hcode, -⟩ := hresult ⟨kind_wellFormed hs node, hs.kept⟩
    refine ⟨⟨hs.function, fun key table hmem => ?_⟩, hcode, trivial⟩
    rcases List.mem_cons.mp hmem with heq | hmem
    · cases heq
      exact hs₁.function
    · exact hs₁.kept key table hmem

theorem silent_forms {β : Type} {m : Compile β}
    (h : ∀ s b s' c, m s = .ok (b, s', c) →
      s'.function = s.function ∧ s'.registerTables = s.registerTables ∧ c = []) : Forms Tidy Q m := by
  intro s b s' c hs hrun
  obtain ⟨hfunction, htables, rfl⟩ := h s b s' c hrun
  exact ⟨⟨hfunction ▸ hs.function, htables ▸ hs.kept⟩, by simp, trivial⟩

include hQ

theorem statement_class (i : Instruction) (h : StatementForm i) : Q i := by
  refine hQ i (.statement h) fun hi => ?_
  have hin := statementForm_opcode h
  rw [hi] at hin
  cases hin

theorem addClass_forms {opcode : Opcode} {r0 r1 r2 : Operand}
    (h : ClassForm importsMap ⟨opcode, r0, r1, r2⟩) (hopcode : opcode ≠ .CREATE_THIS) :
    Forms Tidy Q (Compiler.addInstruction opcode r0 r1 r2) := by
  intro s b s' c hs hrun
  cases hrun
  refine ⟨hs, fun i hi => ?_, trivial⟩
  obtain rfl := List.mem_singleton.mp hi
  exact hQ _ h hopcode

theorem framed_forms {identifier : String} {body : Compile Unit} (h : Forms Tidy Q body) :
    Forms Tidy Q (Compiler.framed identifier body) := by
  intro s b s' c hs hrun
  unfold Compiler.framed at hrun
  split at hrun
  · cases hrun
  · rename_i s₁ code hbody
    cases hrun
    obtain ⟨hs₁, hcode, -⟩ := h s () s' code hs hbody
    refine ⟨hs₁, fun i hi => ?_, trivial⟩
    rcases List.mem_cons.mp hi with rfl | hi
    · exact statement_class hQ _ .label
    · rcases List.mem_cons.mp hi with rfl | hi
      · exact hQ _ (.frame _) Opcode.noConfusion
      · exact hcode i hi

theorem compileStaticPrologue_forms : Forms Tidy Q (Compiler.compileStaticPrologue importsMap) := by
  have himports : ∀ elem ∈ importsMap, Forms Tidy Q
      (Compiler.addInstruction .IMPORT_CLS (.str elem.1) (.str elem.2) (.num 0)) :=
    fun _ helem => addClass_forms hQ (.importing helem) Opcode.noConfusion
  refine (forEach_mem_forms importsMap himports).bind fun _ _ => ?_
  refine (getTemporary_forms tidy_stable).bind fun staticsRegister _ => ?_
  refine (addClass_forms hQ .statics Opcode.noConfusion).bind fun _ _ => ?_
  refine (getTemporary_forms tidy_stable).bind fun fncNameRegister _ => ?_
  refine (getTemporary_forms tidy_stable).bind fun fncRefRegister _ => ?_
  refine Emits.bind (R := fun _ => True) (silent_forms fun _ _ _ _ hrun => ?_) fun names _ => ?_
  · cases hrun
    exact ⟨rfl, rfl, rfl⟩
  refine forEach_forms (fun fncName => ?_) names
  refine (addClass_forms hQ (.statement .function) Opcode.noConfusion).bind fun _ _ => ?_
  refine (addClass_forms hQ (.statement .name) Opcode.noConfusion).bind fun _ _ => ?_
  exact addClass_forms hQ (.statement .setField) Opcode.noConfusion

theorem compileFunction_forms (fuel : ℕ) (node : FunctionNode) :
    Forms Tidy Q (Compiler.compileFunction importsMap fuel node) := by
  have hstatement := statement_class hQ
  induction fuel generalizing node with
  | zero => exact Emits.fail
  | succ fuel ih =>
    refine inFunction_forms (framed_forms hQ ?_)
    refine (getRegister_forms _).bind fun reg _ => ?_
    refine (addClass_forms hQ (.statement .function) Opcode.noConfusion).bind fun _ _ => ?_
    have hrest : Forms Tidy Q (do
        Compiler.compileBody (Compiler.compileStmt fuel)
          (Compiler.functionContext node.path node.addressed) node.body
        Compiler.addInstruction .RETURN (.num 0) (.num 0) (.num 0)
        Compiler.addLabel ("end" ++ node.identifier)
        let functions ← Compiler.remainingFunctions
        Compiler.forEach (Compiler.compileFunction importsMap fuel) functions) := by
      refine (compileBody_forms hstatement
        (compileStmt_forms tidy_stable hstatement fuel) _ _).bind fun _ _ => ?_
      refine (addClass_forms hQ (.statement .ret) Opcode.noConfusion).bind fun _ _ => ?_
      refine (addClass_forms hQ (.statement .label) Opcode.noConfusion).bind fun _ _ => ?_
      refine Emits.bind (R := fun _ => True) (silent_forms fun _ _ _ _ hrun => ?_)
        fun functions _ => forEach_forms ih functions
      cases hrun
      exact ⟨rfl, rfl, rfl⟩
    refine Emits.ite (fun _ => ?_) fun _ => Emits.ite (fun _ => ?_) fun _ => hrest
    · exact (compileStaticPrologue_forms hQ).bind fun _ _ => hrest
    · refine Emits.bind (R := fun _ => True) (silent_forms fun _ _ _ _ hrun => ?_) fun _ _ => hrest
      cases hrun
      exact ⟨rfl, rfl, rfl⟩

theorem classRest_forms (fuel : ℕ) (cls : ClassDeclaration) (himports : cls.importsMap = importsMap) :
    Forms Tidy Q (do
      Compiler.forEach (fun ident => do
        let identReg ← Compiler.getRegister ident
        Compiler.addInstruction .POP (.num identReg) (.num 0) (.num 0)) cls.arguments
      Compiler.compileBody (Compiler.compileStmt fuel) (Compiler.functionContext [] true) cls.body
      Compiler.addInstruction .RETURN (.num 0) (.num 0) (.num 0)
      Compiler.addLabel ("end" ++ cls.identifier)
      let functions ← Compiler.remainingFunctions
      Compiler.forEach (Compiler.compileFunction cls.importsMap fuel) functions) := by
  have hstatement := statement_class hQ
  subst himports
  refine (forEach_forms (fun ident => ?_) cls.arguments).bind fun _ _ => ?_
  · exact (getRegister_forms ident).bind fun _ _ => addClass_forms hQ (.statement .pop) Opcode.noConfusion
  refine (compileBody_forms hstatement
    (compileStmt_forms tidy_stable hstatement fuel) _ _).bind fun _ _ => ?_
  refine (addClass_forms hQ (.statement .ret) Opcode.noConfusion).bind fun _ _ => ?_
  refine (addClass_forms hQ (.statement .label) Opcode.noConfusion).bind fun _ _ => ?_
  refine Emits.bind (R := fun _ => True) (silent_forms fun _ _ _ _ hrun => ?_)
    fun functions _ => forEach_forms (compileFunction_forms hQ fuel) functions
  cases hrun
  exact ⟨rfl, rfl, rfl⟩

end

theorem tidy_class (cls : ClassDeclaration) : Tidy { function := calculateClass cls } := by
  refine ⟨?_, nofun⟩
  unfold FunctionKind.WellFormed
  rw [(calculateClass_numbered cls).2]
  rfl

theorem compileClass_starts {fuel : ℕ} {cls : ClassDeclaration} {code : Code}
    (h : compileClass fuel cls = .ok code) :
    ∃ label frame first rest, code = [label, frame, first] ++ rest ∧ label.opcode = .LABEL ∧
      frame.opcode = .FFRAME ∧ first.opcode = .CREATE_THIS ∧
      (∀ i ∈ [label, frame, first], ClassForm cls.importsMap i) ∧
      ∀ i ∈ rest, ClassForm cls.importsMap i ∧ i.opcode ≠ .CREATE_THIS := by
  unfold compileClass at h
  split at h
  · cases h
  · rename_i s code hframed
    cases h
    unfold Compiler.framed at hframed
    split at hframed
    · cases hframed
    · rename_i s' body hbody
      cases hframed
      unfold Compiler.compileClassBody at hbody
      obtain ⟨_, _, first, rest, hfirst, hrest, rfl⟩ := Emission.bind_ok.mp hbody
      cases hfirst
      have hforms : ∀ i ∈ rest, ClassForm cls.importsMap i ∧ i.opcode ≠ .CREATE_THIS :=
        (classRest_forms (fun _ hi hopcode => ⟨hi, hopcode⟩) fuel cls rfl _ _ _ _ (tidy_class cls) hrest).2.1
      refine ⟨_, _, _, rest, rfl, rfl, rfl, rfl, fun i hi => ?_, hforms⟩
      rcases List.mem_cons.mp hi with rfl | hi
      · exact .statement .label
      · rcases List.mem_cons.mp hi with rfl | hi
        · exact .frame _
        · obtain rfl := List.mem_singleton.mp hi
          exact .createThis

theorem compileClass_forms {fuel : ℕ} {cls : ClassDeclaration} {code : Code}
    (h : compileClass fuel cls = .ok code) : ∀ i ∈ code, ClassForm cls.importsMap i := by
  obtain ⟨label, frame, first, rest, rfl, -, -, -, hheads, hrest⟩ := compileClass_starts h
  intro i hi
  rcases List.mem_append.mp hi with hi | hi
  · exact hheads i hi
  · exact (hrest i hi).1

theorem compileClass_typed {fuel : ℕ} {cls : ClassDeclaration} {code : Code}
    (h : compileClass fuel cls = .ok code) : ∀ i ∈ code, Typed i :=
  fun i hi => classForm_typed i (compileClass_forms h i hi)

/-- The opcodes that the optimizer makes of two others. -/
def isFused (opcode : Opcode) : Bool :=
  opcode.isCompare || opcode.isCompareJump || opcode.isImmediateJump

theorem rewriteStep_new {code code' : Code} (hstep : RewriteStep code code') {i : Instruction}
    (hi : i ∈ code') (hold : isFused i.opcode = false) : i ∈ code := by
  have hfused : ∀ {before after : Code} {current next fused : Instruction},
      isFused fused.opcode = true → i ∈ before ++ fused :: after →
      i ∈ before ++ current :: next :: after := by
    intro before after current next fused hnew hi
    rcases List.mem_append.mp hi with hi | hi
    · exact List.mem_append_left _ hi
    · rcases List.mem_cons.mp hi with rfl | hi
      · rw [hnew] at hold
        cases hold
      · exact List.mem_append_right _ (List.mem_cons_of_mem _ (List.mem_cons_of_mem _ hi))
  cases hstep with
  | returns hc hn =>
    simp only [List.mem_append, List.mem_cons] at hi ⊢
    tauto
  | mov hc hr =>
    simp only [List.mem_append, List.mem_cons] at hi ⊢
    tauto
  | @immediate before after current next fused hc hf =>
    refine hfused ?_ hi
    unfold fuseImmediate at hf
    split at hf
    · obtain ⟨opcode, hopcode, rfl⟩ := Option.map_eq_some_iff.mp hf
      generalize next.opcode = op at hopcode
      cases op <;> cases hopcode <;> rfl
    · cases hf
  | @collapsed before after current next fused hc hf =>
    refine hfused ?_ hi
    unfold collapse at hf
    split at hf
    · cases hf
      unfold isFused
      rw [hc]
      rfl
    · cases hf
  | @jump before after current next fused hc hf =>
    refine hfused ?_ hi
    unfold fuseJump at hf
    split at hf
    · obtain ⟨opcode, hopcode, rfl⟩ := Option.map_eq_some_iff.mp hf
      generalize current.opcode = op, (next.opcode == .JMP_NOT_TRUE) = neg at hopcode
      cases op <;> cases hopcode <;> cases neg <;> rfl
    · cases hf

/-- Optimizing a compiled class leaves the forms of all other instructions. -/
theorem image_form {fuel : ℕ} {cls : ClassDeclaration} {code : Code} {i : Instruction}
    (h : image fuel cls = some code) (hi : i ∈ code) (hold : isFused i.opcode = false) :
    ClassForm cls.importsMap i := by
  unfold image at h
  split at h
  · rename_i compiled hcompile
    have hmem : ∀ {code' : Code}, ReflTransGen RewriteStep compiled code' → i ∈ code' → i ∈ compiled := by
      intro code' hchain
      induction hchain with
      | refl => exact id
      | tail _ hstep ih => exact fun hi => ih (rewriteStep_new hstep hi hold)
    exact compileClass_forms hcompile i (hmem (optimize_rewrites h) hi)
  · cases h

theorem fuseImmediate_typed {current next fused : Instruction} (hc : current.opcode = .MOV_NUMBER)
    (h : Typed current) (hf : fuseImmediate current next = some fused) : Typed fused := by
  unfold fuseImmediate at hf
  split at hf
  · obtain ⟨opcode, hopcode, rfl⟩ := Option.map_eq_some_iff.mp hf
    refine ⟨fun _ => h.second (by rw [hc]; rfl), fun hcmp => ?_⟩
    generalize next.opcode = op at hopcode
    cases op <;> cases hopcode <;> cases hcmp
  · cases hf

theorem fuseJump_typed {current next fused : Instruction} (hf : fuseJump current next = some fused) :
    Typed fused := by
  unfold fuseJump at hf
  split at hf
  · obtain ⟨opcode, hopcode, rfl⟩ := Option.map_eq_some_iff.mp hf
    have hjump : secondIsRegister opcode = true ∧ opcode.isCompare = false := by
      generalize current.opcode = op, (next.opcode == .JMP_NOT_TRUE) = neg at hopcode
      cases op <;> cases hopcode <;> cases neg <;> exact ⟨rfl, rfl⟩
    exact ⟨fun h => absurd (hjump.1.symm.trans h) (by decide),
      fun h => absurd (hjump.2.symm.trans h) (by decide)⟩
  · cases hf

theorem rewriteStep_typed {code code' : Code} (hstep : RewriteStep code code')
    (h : ∀ i ∈ code, Typed i) : ∀ i ∈ code', Typed i := by
  intro i hi
  cases hstep with
  | returns hc hn =>
    apply h
    simp only [List.mem_append, List.mem_cons] at hi ⊢
    tauto
  | mov hc hr =>
    apply h
    simp only [List.mem_append, List.mem_cons] at hi ⊢
    tauto
  | @immediate before after current next fused hc hf =>
    have hfused := fuseImmediate_typed hc (h current (by simp)) hf
    rcases List.mem_append.mp hi with hi | hi
    · exact h i (List.mem_append_left _ hi)
    · rcases List.mem_cons.mp hi with rfl | hi
      · exact hfused
      · exact h i (by simp [hi])
  | @collapsed before after current next fused hc hf =>
    have hfused : Typed fused := by
      unfold collapse at hf
      split at hf
      · rename_i hr
        cases hf
        have := h current (by simp)
        rwa [hr]
      · cases hf
    rcases List.mem_append.mp hi with hi | hi
    · exact h i (List.mem_append_left _ hi)
    · rcases List.mem_cons.mp hi with rfl | hi
      · exact hfused
      · exact h i (by simp [hi])
  | @jump before after current next fused hc hf =>
    rcases List.mem_append.mp hi with hi | hi
    · exact h i (List.mem_append_left _ hi)
    · rcases List.mem_cons.mp hi with rfl | hi
      · exact fuseJump_typed hf
      · exact h i (by simp [hi])

theorem rewrites_typed {code code' : Code} (hchain : ReflTransGen RewriteStep code code')
    (h : ∀ i ∈ code, Typed i) : ∀ i ∈ code', Typed i := by
  induction hchain with
  | refl => exact h
  | tail _ hstep ih => exact rewriteStep_typed hstep ih

end Zeroscript.InstructionShapes
