import Zeroscript.AstGenerator
import Zeroscript.SilentCode

/-! # What a visit appends

The visit of an expression or of a statement without braces appends statements to the body that it is given:
the object of a literal, a function, the variables of a loop. Here is which trees append nothing but statements
that are compiled to no instruction. -/
namespace Zeroscript.AppendedStatements

open AstGenerator Emission SilentCode

mutual

def literalFree : ExpressionContext → Bool
  | .newObject e => literalFreeCall e
  | .parentheses e | .postfixed e _ | .prefixed _ e => literalFree e
  | .bop left (.binary _) right | .arrayIndexer left right => literalFree left && literalFree right
  | .methodCall callee arguments => literalFree callee && literalFreeAll arguments
  | .jsonObject _ | .jsonArray _ => false
  | .identifier _ | .string _ | .number _ | .bop _ .and _ | .bop _ .or _ | .shift _ _ _ | .function _ _ | .lambda _ _
  | .lambdaOf _ _ => true

def literalFreeCall : ExpressionContext → Bool
  | .methodCall callee arguments => literalFree callee && literalFreeAll arguments
  | .bop left _ _ | .arrayIndexer left _ | .postfixed left _ | .prefixed _ left | .shift left _ _ => literalFree left
  | .newObject _ | .parentheses _ | .identifier _ | .string _ | .number _ | .jsonObject _ | .jsonArray _
  | .function _ _ | .lambda _ _ | .lambdaOf _ _ => true

def literalFreeAll : List ExpressionContext → Bool
  | [] => true
  | e :: es => literalFree e && literalFreeAll es

end

def literalFreePart : VariableDeclarationPartContext → Bool
  | .part _ none => true
  | .part _ (some e) => literalFree e

def variablesOf : ExpressionContext → Option Expr
  | .parentheses e => variablesOf e
  | .identifier x => some (.ident x.text)
  | .bop left (.binary .assign) right =>
    match variablesOf left, variablesOf right with
    | some left, some right => some (.binary .assign left right)
    | _, _ => none
  | .prefixed op e => (variablesOf e).map (.prefixed op.1)
  | _ => none

def silentPart (reg : Symbols) : VariableDeclarationPartContext → Bool
  | .part x none => silentStmt reg (.var x.text .empty false false)
  | .part x (some e) => (variablesOf e).any fun value => silentStmt reg (.var x.text value false false)

def silentInit (reg : Symbols) : ForInitContext → Bool
  | .none => true
  | .expression e => literalFree e
  | .var (.var _ .STATIC first more) => literalFreePart first && more.all literalFreePart
  | .var (.var _ .TSHARED _ _) => false
  | .var (.var _ .none first more) => silentPart reg first && more.all (silentPart reg)

mutual

/-- What the visit of the statement appends is compiled to nothing. -/
def quietStatement (reg : Symbols) : StatementContext → Bool
  | .semicolon | .body _ | .function _ _ _ _ _ _ | .tryCatch _ _ _ _ | .breaking | .continuing => true
  | .var (.var _ _ first more) => literalFreePart first && more.all literalFreePart
  | .expression e | .throwing e | .returning e => literalFree e
  | .forLoop init condition step body =>
    silentInit reg init && condition.all literalFree && step.all literalFree && quietBody reg body
  | .whileLoop (some condition) body => literalFree condition && quietBody reg body
  -- the visitor fails
  | .whileLoop none _ | .forInLoop none _ _ => true
  | .forInLoop (some _) _ _ => false
  | .conditional condition body none => literalFree condition && quietBody reg body
  | .conditional condition body (some elseBody) =>
    literalFree condition && quietBody reg body && quietBody reg elseBody

def quietBody (reg : Symbols) : BodyOrStatementContext → Bool
  | .body _ => true
  | .statement s => quietStatement reg s

end

def Adds {β : Type} (P : Stmt → Prop) (visit : Visit β) : Prop :=
  Emits (fun _ => True) P visit fun _ => True

section

variable {P : Stmt → Prop} {β γ : Type}

theorem Adds.pure (b : β) : Adds P (Pure.pure b : Visit β) := Emits.pure trivial

theorem Adds.fail (failure : VisitFailure) : Adds P (fail failure : Visit β) := Emits.fail

theorem Adds.bind {visit : Visit β} {next : β → Visit γ} (h : Adds P visit) (hnext : ∀ b, Adds P (next b)) :
    Adds P (visit >>= next) := Emits.bind h fun b _ => hnext b

theorem Adds.ite {p : Prop} [Decidable p] {visit visit' : Visit β} (h : Adds P visit) (h' : Adds P visit') :
    Adds P (if p then visit else visit') := Emits.ite (fun _ => h) fun _ => h'

theorem Adds.output {visit : Visit β} (h : Adds P visit) {g g' : AstGenerator} {b : β} {statements : Body}
    (hvisit : visit g = .ok (b, g', statements)) : ∀ stmt ∈ statements, P stmt :=
  (h g b g' statements trivial hvisit).2.1

theorem adds_of_silent {visit : Visit β} (h : ∀ g b g' statements, visit g = .ok (b, g', statements) → statements = []) :
    Adds P visit := by
  intro g b g' statements _ hvisit
  obtain rfl := h g b g' statements hvisit
  exact ⟨trivial, by simp, trivial⟩

theorem inNewBody_adds (visit : Visit Unit) : Adds P (inNewBody visit) := by
  refine adds_of_silent fun g b g' statements hvisit => ?_
  unfold inNewBody at hvisit
  split at hvisit
  · cases hvisit
  · cases hvisit
    rfl

theorem addStaticVar_adds (identifier : String) (value : Expr) : Adds P (addStaticVar identifier value) := by
  refine adds_of_silent fun g b g' statements hvisit => ?_
  cases hvisit
  rfl

theorem nextAnonymous_adds : Adds P nextAnonymous := by
  refine adds_of_silent fun g b g' statements hvisit => ?_
  cases hvisit
  rfl

theorem nextIndexer_adds : Adds P nextIndexer := by
  refine adds_of_silent fun g b g' statements hvisit => ?_
  cases hvisit
  rfl

theorem nextTempJson_adds : Adds P nextTempJson := by
  refine adds_of_silent fun g b g' statements hvisit => ?_
  cases hvisit
  rfl

theorem push_adds {stmt : Stmt} (h : P stmt) : Adds P (push stmt) := by
  intro g b g' statements _ hvisit
  cases hvisit
  exact ⟨trivial, by simpa using h, trivial⟩

theorem pushAll_adds {statements : Body} (h : ∀ stmt ∈ statements, P stmt) : Adds P (pushAll statements) := by
  intro g b g' statements' _ hvisit
  cases hvisit
  exact ⟨trivial, h, trivial⟩

theorem visitAt_adds {expressions : List (Visit Expr)} (h : ∀ visit ∈ expressions, Adds P visit) (i : ℕ) :
    Adds P (visitAt expressions i) := by
  unfold visitAt
  split
  · exact .pure none
  · rename_i visit hvisit
    exact (h visit (List.mem_of_getElem? hvisit)).bind fun e => .pure (some e)

end

/-- A visit may append silent statements, and, where objects of literals and variables of loops are in the tree,
their declarations too. -/
structure Allows (P : Stmt → Prop) (reg : Symbols) (all : Prop) : Prop where
  silent : ∀ stmt, silentStmt reg stmt = true → P stmt
  var : all → ∀ x value isPrivate isSynchronized, P (.var x value isPrivate isSynchronized)
  pair : all → ∀ e, P (.eval e)

section

variable {parse : List Token → Option ExpressionContext} {again : ExpressionContext → Visit Expr}
  {P : Stmt → Prop} {reg : Symbols} {all : Prop} (hP : Allows P reg all)

theorem visitLambdaBody_adds (body : BodyOrExpressionContext) : Adds P (visitLambdaBody parse again body) := by
  cases body with
  | body statements | expression e =>
    unfold visitLambdaBody
    exact inNewBody_adds _

include hP

theorem declareFunction_adds (name : String) (arguments : List Identifier) (body : Body) :
    Adds P (declareFunction name arguments body) := by
  unfold declareFunction
  exact (push_adds (hP.silent _ rfl)).bind fun _ => .pure _

theorem declareJson_adds (hall : all) : Adds P declareJson := by
  unfold declareJson
  exact nextTempJson_adds.bind fun _ => (push_adds (hP.var hall _ _ _ _)).bind fun _ => .pure _

theorem lambdaCall_adds (body : BodyOrExpressionContext) :
    Adds P (visitExpression parse again (.methodCall (.parentheses (.lambda [] body)) [])) := by
  unfold visitExpression
  refine Adds.bind ?_ fun callee => ?_
  · unfold visitExpression
    unfold visitExpression
    exact nextAnonymous_adds.bind fun _ => (visitLambdaBody_adds body).bind fun _ => declareFunction_adds hP _ _ _
  · unfold visitExpressionList
    exact (Adds.pure []).bind fun _ => .pure _

variable (hoperators : ∀ left right, Adds P (andToIf parse again left right) ∧ Adds P (orToIf parse again left right))

include hoperators

set_option linter.unusedSectionVars false

mutual

theorem visitExpression_adds : ∀ e : ExpressionContext, (¬all → literalFree e = true) →
    Adds P (visitExpression parse again e)
  | .newObject e, h => by
    unfold visitExpression
    exact visitMethodCall_adds e h
  | .parentheses e, h => by
    unfold visitExpression
    exact visitExpression_adds e h
  | .identifier _, _ | .string _, _ | .number _, _ => by
    unfold visitExpression
    exact .pure _
  | .jsonObject pairs, h => by
    have hall : all := by
      by_contra hnot
      exact absurd (h hnot) Bool.false_ne_true
    unfold visitExpression
    exact (declareJson_adds hP hall).bind fun name => (visitJsonObject_adds hall name pairs).bind fun _ => .pure _
  | .jsonArray elements, h => by
    have hall : all := by
      by_contra hnot
      exact absurd (h hnot) Bool.false_ne_true
    unfold visitExpression
    exact (declareJson_adds hP hall).bind fun name => (visitJsonArray_adds hall name 0 elements).bind fun _ => .pure _
  | .bop left .and right, _ => by
    unfold visitExpression
    exact (hoperators left right).1
  | .bop left .or right, _ => by
    unfold visitExpression
    exact (hoperators left right).2
  | .bop left (.binary op) right, h => by
    have hparts (hnot : ¬all) := Bool.and_eq_true_iff.mp (h hnot)
    unfold visitExpression
    exact (visitExpression_adds left fun hnot => (hparts hnot).1).bind fun _ =>
      (visitExpression_adds right fun hnot => (hparts hnot).2).bind fun _ => .pure _
  | .arrayIndexer left right, h => by
    have hparts (hnot : ¬all) := Bool.and_eq_true_iff.mp (h hnot)
    unfold visitExpression
    exact (visitExpression_adds left fun hnot => (hparts hnot).1).bind fun _ =>
      (visitExpression_adds right fun hnot => (hparts hnot).2).bind fun _ => .pure _
  | .methodCall callee arguments, h => by
    have hparts (hnot : ¬all) := Bool.and_eq_true_iff.mp (h hnot)
    unfold visitExpression
    exact (visitExpression_adds callee fun hnot => (hparts hnot).1).bind fun _ =>
      (visitExpressionList_adds arguments fun hnot => (hparts hnot).2).bind fun _ => .pure _
  | .postfixed left _, h => by
    unfold visitExpression
    exact (visitExpression_adds left h).bind fun _ => .pure _
  | .prefixed _ right, h => by
    unfold visitExpression
    exact (visitExpression_adds right h).bind fun _ => .pure _
  | .shift _ _ _, _ => by
    unfold visitExpression
    exact .fail _
  | .function _ body, _ => by
    unfold visitExpression
    exact nextAnonymous_adds.bind fun _ => (inNewBody_adds _).bind fun _ => declareFunction_adds hP _ _ _
  | .lambda _ body, _ | .lambdaOf _ body, _ => by
    unfold visitExpression
    exact nextAnonymous_adds.bind fun _ => (visitLambdaBody_adds body).bind fun _ => declareFunction_adds hP _ _ _

theorem visitMethodCall_adds : ∀ e : ExpressionContext, (¬all → literalFreeCall e = true) →
    Adds P (visitMethodCall parse again e)
  | .methodCall callee arguments, h => by
    have hparts (hnot : ¬all) := Bool.and_eq_true_iff.mp (h hnot)
    unfold visitMethodCall
    exact (visitExpression_adds callee fun hnot => (hparts hnot).1).bind fun _ =>
      (visitExpressionList_adds arguments fun hnot => (hparts hnot).2).bind fun _ => .pure _
  | .bop left _ _, h | .arrayIndexer left _, h | .postfixed left _, h | .prefixed _ left, h | .shift left _ _, h => by
    unfold visitMethodCall
    exact (visitExpression_adds left h).bind fun _ => .pure _
  | .newObject _, _ | .parentheses _, _ | .identifier _, _ | .string _, _ | .number _, _ | .jsonObject _, _
  | .jsonArray _, _ | .function _ _, _ | .lambda _ _, _ | .lambdaOf _ _, _ => by
    unfold visitMethodCall
    exact .fail _

theorem visitExpressionList_adds : ∀ es : List ExpressionContext, (¬all → literalFreeAll es = true) →
    Adds P (visitExpressionList parse again es)
  | [], _ => by
    unfold visitExpressionList
    exact .pure []
  | e :: es, h => by
    have hparts (hnot : ¬all) := Bool.and_eq_true_iff.mp (h hnot)
    unfold visitExpressionList
    exact (visitExpression_adds e fun hnot => (hparts hnot).1).bind fun _ =>
      (visitExpressionList_adds es fun hnot => (hparts hnot).2).bind fun _ => .pure _

theorem visitJsonObject_adds (hall : all) (name : String) : ∀ pairs : List JsonPairContext,
    Adds P (visitJsonObject parse again name pairs)
  | [] => by
    unfold visitJsonObject
    exact .pure ()
  | .pair key value :: pairs => by
    unfold visitJsonObject
    exact (visitExpression_adds key fun hnot => absurd hall hnot).bind fun _ =>
      (visitExpression_adds value fun hnot => absurd hall hnot).bind fun _ =>
        (push_adds (hP.pair hall _)).bind fun _ => visitJsonObject_adds hall name pairs

theorem visitJsonArray_adds (hall : all) (name : String) (i : ℕ) : ∀ es : List ExpressionContext,
    Adds P (visitJsonArray parse again name i es)
  | [] => by
    unfold visitJsonArray
    exact .pure ()
  | e :: es => by
    unfold visitJsonArray
    exact (visitExpression_adds e fun hnot => absurd hall hnot).bind fun _ =>
      (push_adds (hP.pair hall _)).bind fun _ => visitJsonArray_adds hall name (i + 1) es

end

theorem visitVarDeclaration_adds (part : VariableDeclarationPartContext) (h : ¬all → literalFreePart part = true) :
    Adds P (visitVarDeclaration parse again part) := by
  obtain ⟨name, _ | e⟩ := part
  · unfold visitVarDeclaration
    exact .pure _
  · unfold visitVarDeclaration
    exact (visitExpression_adds hP hoperators e h).bind fun _ => .pure _

theorem visitVars_adds : ∀ parts : List VariableDeclarationPartContext,
    (¬all → parts.all literalFreePart = true) → Adds P (visitVars parse again parts)
  | [], _ => by
    unfold visitVars
    exact .pure []
  | part :: parts, h => by
    have hparts (hnot : ¬all) := Bool.and_eq_true_iff.mp (h hnot)
    unfold visitVars
    exact (visitVarDeclaration_adds hP hoperators part fun hnot => (hparts hnot).1).bind fun _ =>
      (visitVars_adds parts fun hnot => (hparts hnot).2).bind fun _ => .pure _

theorem visitStaticVars_adds : ∀ parts : List VariableDeclarationPartContext,
    (¬all → parts.all literalFreePart = true) → Adds P (visitStaticVars parse again parts)
  | [], _ => by
    unfold visitStaticVars
    exact .pure ()
  | part :: parts, h => by
    have hparts (hnot : ¬all) := Bool.and_eq_true_iff.mp (h hnot)
    unfold visitStaticVars
    exact (visitVarDeclaration_adds hP hoperators part fun hnot => (hparts hnot).1).bind fun _ =>
      (addStaticVar_adds _ _).bind fun _ => visitStaticVars_adds parts fun hnot => (hparts hnot).2

theorem visitVar_static {isPrivate : Bool} {first : VariableDeclarationPartContext}
    {more : List VariableDeclarationPartContext}
    (h : ¬all → (literalFreePart first && more.all literalFreePart) = true) :
    Emits (fun _ => True) P (visitVar parse again (.var isPrivate .STATIC first more)) (· = []) := by
  have hparts (hnot : ¬all) := Bool.and_eq_true_iff.mp (h hnot)
  unfold visitVar
  refine Emits.bind (visitVarDeclaration_adds hP hoperators first fun hnot => (hparts hnot).1) fun var _ => ?_
  refine Emits.bind (addStaticVar_adds _ _) fun _ _ => ?_
  exact Emits.bind (visitStaticVars_adds hP hoperators more fun hnot => (hparts hnot).2) fun _ _ => Emits.pure rfl

theorem visitVar_adds (isPrivate : Bool) (keyword : VarKeyword) (first : VariableDeclarationPartContext)
    (more : List VariableDeclarationPartContext)
    (h : ¬all → (literalFreePart first && more.all literalFreePart) = true) :
    Adds P (visitVar parse again (.var isPrivate keyword first more)) := by
  have hparts (hnot : ¬all) := Bool.and_eq_true_iff.mp (h hnot)
  cases keyword with
  | STATIC => exact (visitVar_static hP hoperators h).mono fun _ _ => trivial
  | none | TSHARED =>
    unfold visitVar
    exact (visitVarDeclaration_adds hP hoperators first fun hnot => (hparts hnot).1).bind fun _ =>
      (visitVars_adds hP hoperators more fun hnot => (hparts hnot).2).bind fun _ => .pure _

omit hP hoperators in
theorem visitExpression_variables (e : ExpressionContext) (value : Expr) (h : variablesOf e = some value) :
    Emits (fun _ => True) P (visitExpression parse again e) (· = value) := by
  fun_induction variablesOf e generalizing value with
  | case1 e ih =>
    unfold visitExpression
    exact ih value h
  | case2 x =>
    cases h
    unfold visitExpression
    exact Emits.pure rfl
  | case3 left right leftValue rightValue hright hleft ihleft ihright =>
    cases h
    unfold visitExpression
    refine Emits.bind (ihleft leftValue hleft) fun l hl => ?_
    refine Emits.bind (ihright rightValue hright) fun r hr => ?_
    subst hl hr
    exact Emits.pure rfl
  | case4 => cases h
  | case5 op e ih =>
    obtain ⟨operand, he, rfl⟩ := Option.map_eq_some_iff.mp h
    unfold visitExpression
    refine Emits.bind (ih operand he) fun v hv => ?_
    subst hv
    exact Emits.pure rfl
  | case6 => cases h

theorem visitVarDeclaration_declared (part : VariableDeclarationPartContext) (h : ¬all → silentPart reg part = true) :
    Emits (fun _ => True) P (visitVarDeclaration parse again part)
      fun var => ∀ isPrivate, P (.var var.1 var.2 isPrivate false) := by
  by_cases hall : all
  · refine (visitVarDeclaration_adds hP hoperators part fun hnot => absurd hall hnot).mono ?_
    exact fun var _ isPrivate => hP.var hall _ _ _ _
  · have hpart := h hall
    obtain ⟨name, _ | e⟩ := part
    · unfold visitVarDeclaration
      exact Emits.pure fun isPrivate => hP.silent _ hpart
    · obtain ⟨value, hvalue, hsilent⟩ := (Option.any_eq_true _ _).mp hpart
      unfold visitVarDeclaration
      refine Emits.bind (visitExpression_variables e value hvalue) fun v hv => ?_
      subst hv
      exact Emits.pure fun isPrivate => hP.silent _ hsilent

theorem visitVars_declared : ∀ parts : List VariableDeclarationPartContext,
    (¬all → parts.all (silentPart reg) = true) → Emits (fun _ => True) P (visitVars parse again parts)
      fun vars => ∀ var ∈ vars, ∀ isPrivate, P (.var var.1 var.2 isPrivate false)
  | [], _ => by
    unfold visitVars
    exact Emits.pure (by simp)
  | part :: parts, h => by
    have hparts (hnot : ¬all) := Bool.and_eq_true_iff.mp (h hnot)
    unfold visitVars
    refine Emits.bind (visitVarDeclaration_declared hP hoperators part fun hnot => (hparts hnot).1) fun var hvar => ?_
    refine Emits.bind (visitVars_declared parts fun hnot => (hparts hnot).2) fun vars hvars => ?_
    exact Emits.pure (List.forall_mem_cons.mpr ⟨hvar, hvars⟩)

theorem visitInit_adds (init : ForInitContext) (h : ¬all → silentInit reg init = true) :
    Adds P (visitInit parse again init) := by
  cases init with
  | none | expression _ =>
    unfold visitInit
    exact .pure ()
  | var var =>
    obtain ⟨isPrivate, keyword, first, more⟩ := var
    unfold visitInit
    cases keyword with
    | STATIC =>
      refine Emits.bind (visitVar_static hP hoperators h) fun vars hvars => ?_
      subst hvars
      exact pushAll_adds (by simp)
    | none =>
      have hparts (hnot : ¬all) := Bool.and_eq_true_iff.mp (h hnot)
      have hvars : Emits (fun _ => True) P (visitVar parse again (.var isPrivate .none first more))
          fun statements => ∀ stmt ∈ statements, P stmt := by
        unfold visitVar
        refine Emits.bind (visitVarDeclaration_declared hP hoperators first fun hnot => (hparts hnot).1)
          fun var hvar => ?_
        refine Emits.bind (visitVars_declared hP hoperators more fun hnot => (hparts hnot).2) fun vars hmore => ?_
        refine Emits.pure (List.forall_mem_map.mpr fun var' hmem => ?_)
        rcases List.mem_cons.mp hmem with rfl | hmem
        · exact hvar isPrivate
        · exact hmore var' hmem isPrivate
      exact Emits.bind hvars fun statements hstatements => pushAll_adds hstatements
    | TSHARED =>
      have hall : all := by
        by_contra hnot
        exact absurd (h hnot) Bool.false_ne_true
      have hvars : Emits (fun _ => True) P (visitVar parse again (.var isPrivate .TSHARED first more))
          fun statements => ∀ stmt ∈ statements, P stmt := by
        unfold visitVar
        refine Emits.bind (visitVarDeclaration_adds hP hoperators first fun hnot => absurd hall hnot) fun var _ => ?_
        refine Emits.bind (visitVars_adds hP hoperators more fun hnot => absurd hall hnot) fun vars _ => ?_
        exact Emits.pure (List.forall_mem_map.mpr fun var' _ => hP.var hall _ _ _ _)
      exact Emits.bind hvars fun statements hstatements => pushAll_adds hstatements

theorem option_adds {e : Option ExpressionContext} (h : ¬all → e.all literalFree = true) :
    ∀ visit ∈ optionExpression parse again e, Adds P visit := by
  cases e with
  | none => simp [optionExpression]
  | some e =>
    simp only [optionExpression, List.mem_singleton, forall_eq]
    exact visitExpression_adds hP hoperators e h

theorem initExpression_adds {init : ForInitContext} (h : ¬all → silentInit reg init = true) :
    ∀ visit ∈ initExpression parse again init, Adds P visit := by
  cases init with
  | none | var _ => simp [initExpression]
  | expression e =>
    simp only [initExpression, List.mem_singleton, forall_eq]
    exact visitExpression_adds hP hoperators e h

mutual

theorem visitStatement_adds : ∀ s : StatementContext, (¬all → quietStatement reg s = true) →
    Adds P (visitStatement parse again s)
  | .semicolon, _ | .breaking, _ | .continuing, _ => by
    unfold visitStatement
    exact .pure _
  | .body _, _ | .function _ _ _ _ _ _, _ => by
    unfold visitStatement
    exact (inNewBody_adds _).bind fun _ => .pure _
  | .var (.var isPrivate keyword first more), h => by
    unfold visitStatement
    exact visitVar_adds hP hoperators isPrivate keyword first more h
  | .expression e, h | .throwing e, h | .returning e, h => by
    unfold visitStatement
    exact (visitExpression_adds hP hoperators e h).bind fun _ => .pure _
  | .forLoop init condition step body, h => by
    simp only [quietStatement, Bool.and_eq_true] at h
    have hexpressions : ∀ visit ∈ initExpression parse again init ++ optionExpression parse again condition ++
        optionExpression parse again step, Adds P visit := by
      simp only [List.forall_mem_append]
      exact ⟨⟨initExpression_adds hP hoperators fun hnot => (h hnot).1.1.1,
        option_adds hP hoperators fun hnot => (h hnot).1.1.2⟩, option_adds hP hoperators fun hnot => (h hnot).1.2⟩
    have hrest (startExpr : Option Expr) (i : ℕ) := (visitBodyOrStatement_adds body fun hnot => (h hnot).2).bind
      fun body => (visitAt_adds hexpressions i).bind fun condition => (visitAt_adds hexpressions (i + 1)).bind
        fun iterExpr => Adds.pure (P := P) [Stmt.loop startExpr condition iterExpr body]
    unfold visitStatement
    exact (visitInit_adds hP hoperators init fun hnot => (h hnot).1.1.1).bind fun _ =>
      .ite ((visitAt_adds hexpressions 0).bind fun _ => hrest _ _) ((Adds.pure none).bind fun _ => hrest _ _)
  | .whileLoop none _, _ | .forInLoop none _ _, _ => by
    unfold visitStatement
    exact .fail _
  | .whileLoop (some condition) body, h => by
    have hparts (hnot : ¬all) := Bool.and_eq_true_iff.mp (h hnot)
    unfold visitStatement
    exact (visitExpression_adds hP hoperators condition fun hnot => (hparts hnot).1).bind fun _ =>
      (visitBodyOrStatement_adds body fun hnot => (hparts hnot).2).bind fun _ => .pure _
  | .forInLoop (some x) e body, h => by
    have hall : all := by
      by_contra hnot
      exact absurd (h hnot) Bool.false_ne_true
    unfold visitStatement
    exact (push_adds (hP.var hall _ _ _ _)).bind fun _ => nextIndexer_adds.bind fun _ =>
      (push_adds (hP.var hall _ _ _ _)).bind fun _ =>
        (visitExpression_adds hP hoperators e fun hnot => absurd hall hnot).bind fun _ =>
          (visitBodyOrStatement_adds body fun hnot => absurd hall hnot).bind fun _ => .pure _
  | .conditional condition body none, h => by
    have hparts (hnot : ¬all) := Bool.and_eq_true_iff.mp (h hnot)
    unfold visitStatement
    exact (visitExpression_adds hP hoperators condition fun hnot => (hparts hnot).1).bind fun _ =>
      (visitBodyOrStatement_adds body fun hnot => (hparts hnot).2).bind fun _ => .pure _
  | .conditional condition body (some elseBody), h => by
    simp only [quietStatement, Bool.and_eq_true] at h
    unfold visitStatement
    exact (visitExpression_adds hP hoperators condition fun hnot => (h hnot).1.1).bind fun _ =>
      (visitBodyOrStatement_adds body fun hnot => (h hnot).1.2).bind fun _ =>
        (visitBodyOrStatement_adds elseBody fun hnot => (h hnot).2).bind fun _ => .pure _
  | .tryCatch tryBody _ catchBody none, _ => by
    unfold visitStatement
    exact (inNewBody_adds _).bind fun _ => (inNewBody_adds _).bind fun _ => .pure _
  | .tryCatch tryBody _ catchBody (some finallyBody), _ => by
    unfold visitStatement
    exact (inNewBody_adds _).bind fun _ => (inNewBody_adds _).bind fun _ => (inNewBody_adds _).bind fun _ => .pure _

theorem visitBodyOrStatement_adds : ∀ body : BodyOrStatementContext, (¬all → quietBody reg body = true) →
    Adds P (visitBodyOrStatement parse again body)
  | .body _, _ => by
    unfold visitBodyOrStatement
    exact inNewBody_adds _
  | .statement s, h => by
    unfold visitBodyOrStatement
    exact visitStatement_adds s h

end

end

/-- The parser reads the texts of `and` and `or`, if at all, as calls of lambdas. -/
def ReadsCalls (parse : List Token → Option ExpressionContext) : Prop :=
  ∀ left right e, (lex (andText left right)).bind parse = some e ∨ (lex (orText left right)).bind parse = some e →
    ∃ body, e = .methodCall (.parentheses (.lambda [] body)) []

theorem visitText_adds {parse : List Token → Option ExpressionContext} {P : Stmt → Prop} {reg : Symbols} {all : Prop}
    (hP : Allows P reg all) (depth : ℕ) {text : List Char}
    (h : ∀ e, (lex text).bind parse = some e → ∃ body, e = .methodCall (.parentheses (.lambda [] body)) []) :
    Adds P (visitText parse (visitDeep parse depth) text) := by
  unfold visitText
  split
  · exact .fail _
  · rename_i e he
    obtain ⟨body, rfl⟩ := h e he
    cases depth with
    | zero => exact .fail _
    | succ depth => exact lambdaCall_adds hP body

theorem operators_adds {parse : List Token → Option ExpressionContext} {P : Stmt → Prop} {reg : Symbols} {all : Prop}
    (hP : Allows P reg all) (hparse : ReadsCalls parse) (depth : ℕ) (left right : ExpressionContext) :
    Adds P (andToIf parse (visitDeep parse depth) left right) ∧
      Adds P (orToIf parse (visitDeep parse depth) left right) :=
  ⟨visitText_adds hP depth fun e he => hparse left right e (.inl he),
    visitText_adds hP depth fun e he => hparse left right e (.inr he)⟩

end Zeroscript.AppendedStatements
