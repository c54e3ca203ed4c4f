import Zeroscript.AstGenerator
import Zeroscript.Number
import Zeroscript.Program

/-! # Bodies without braces

A body in braces has a body of its own for the statements that its visit appends; a statement
without braces leaves them to the body around it, before the loop or the conditional. The two are
the same if there are no such statements. -/
namespace Zeroscript

open Emission

mutual

/-- No statement is appended for the expression: it has no literal of an object and no function of
its own, and functions are what `and` and `or` become. -/
def helperFree : ExpressionContext → Bool
  | .newObject e | .parentheses e | .postfixed e _ | .prefixed _ e => helperFree e
  | .identifier _ | .string _ | .number _ => true
  | .bop left (.binary _) right | .arrayIndexer left right | .shift left _ right => helperFree left && helperFree right
  | .methodCall callee arguments => helperFree callee && helperFreeAll arguments
  | .bop _ .and _ | .bop _ .or _ | .jsonObject _ | .jsonArray _ | .function _ _ | .lambda _ _ | .lambdaOf _ _ => false

def helperFreeAll : List ExpressionContext → Bool
  | [] => true
  | e :: es => helperFree e && helperFreeAll es

end

def helperFreePart : VariableDeclarationPartContext → Bool
  | .part _ none => true
  | .part _ (some e) => helperFree e

def helperFreeVar : VarContext → Bool
  | .var _ _ first more => helperFreePart first && more.all helperFreePart

def helperFreeInit : ForInitContext → Bool
  | .none => true
  | .expression e => helperFree e
  | .var (.var isPrivate .STATIC first more) => helperFreeVar (.var isPrivate .STATIC first more)
  | .var _ => false

mutual

/-- No statement is appended for the statement. -/
def helperFreeStatement : StatementContext → Bool
  | .semicolon | .body _ | .function _ _ _ _ _ _ | .tryCatch _ _ _ _ | .breaking | .continuing => true
  | .var var => helperFreeVar var
  | .expression e | .throwing e | .returning e => helperFree e
  | .forLoop init condition step body =>
    helperFreeInit init && condition.all helperFree && step.all helperFree && helperFreeBody body
  | .whileLoop (some condition) body => helperFree condition && helperFreeBody body
  -- the visitor fails
  | .whileLoop none _ | .forInLoop none _ _ => true
  | .forInLoop (some _) _ _ => false
  | .conditional condition body none => helperFree condition && helperFreeBody body
  | .conditional condition body (some elseBody) =>
    helperFree condition && helperFreeBody body && helperFreeBody elseBody

def helperFreeBody : BodyOrStatementContext → Bool
  | .body _ => true
  | .statement s => helperFreeStatement s

end

namespace AstGenerator

def Silent {β : Type} (visit : Visit β) : Prop := Emits (fun _ => True) (fun _ => False) visit (fun _ => True)

theorem Silent.pure {β : Type} (b : β) : Silent (Pure.pure b : Visit β) := Emits.pure trivial

theorem Silent.fail {β : Type} (failure : VisitFailure) : Silent (fail failure : Visit β) := Emits.fail

theorem Silent.bind {β γ : Type} {visit : Visit β} {next : β → Visit γ} (h : Silent visit)
    (hnext : ∀ b, Silent (next b)) : Silent (visit >>= next) :=
  Emits.bind h fun b _ => hnext b

theorem Silent.ite {β : Type} {p : Prop} [Decidable p] {visit visit' : Visit β} (h : Silent visit)
    (h' : Silent visit') : Silent (if p then visit else visit') :=
  Emits.ite (fun _ => h) (fun _ => h')

theorem Silent.output {β : Type} {visit : Visit β} (h : Silent visit) {g g' : AstGenerator} {b : β}
    {statements : List Stmt} (hvisit : visit g = .ok (b, g', statements)) : statements = [] := by
  obtain ⟨-, hnone, -⟩ := h g b g' statements trivial hvisit
  exact List.eq_nil_iff_forall_not_mem.mpr hnone

theorem inNewBody_silent (visit : Visit Unit) : Silent (inNewBody visit) := by
  intro g b g' statements _ hvisit
  unfold inNewBody at hvisit
  split at hvisit
  · cases hvisit
  · cases hvisit
    exact ⟨trivial, by simp, trivial⟩

theorem addStaticVar_silent (identifier : String) (value : Expr) : Silent (addStaticVar identifier value) := by
  intro g b g' statements _ hvisit
  cases hvisit
  exact ⟨trivial, by simp, trivial⟩

theorem visitAt_silent {expressions : List (Visit Expr)} (h : ∀ visit ∈ expressions, Silent visit) (i : ℕ) :
    Silent (visitAt expressions i) := by
  unfold visitAt
  split
  · exact .pure none
  · rename_i visit hvisit
    exact (h visit (List.mem_of_getElem? hvisit)).bind fun e => .pure (some e)

section

variable {parse : List Token → Option ExpressionContext} {again : ExpressionContext → Visit Expr}

mutual

theorem visitExpression_silent : ∀ e : ExpressionContext, helperFree e = true →
    Silent (visitExpression parse again e)
  | .newObject e, h => by
    unfold visitExpression
    exact visitMethodCall_silent e h
  | .parentheses e, h => by
    unfold visitExpression
    exact visitExpression_silent e h
  | .identifier _, _ | .string _, _ | .number _, _ => by
    unfold visitExpression
    exact .pure _
  | .bop left (.binary op) right, h => by
    obtain ⟨hleft, hright⟩ := Bool.and_eq_true_iff.mp h
    unfold visitExpression
    exact (visitExpression_silent left hleft).bind fun _ => (visitExpression_silent right hright).bind fun _ => .pure _
  | .arrayIndexer left right, h => by
    obtain ⟨hleft, hright⟩ := Bool.and_eq_true_iff.mp h
    unfold visitExpression
    exact (visitExpression_silent left hleft).bind fun _ => (visitExpression_silent right hright).bind fun _ => .pure _
  | .methodCall callee arguments, h => by
    obtain ⟨hcallee, harguments⟩ := Bool.and_eq_true_iff.mp h
    unfold visitExpression
    exact (visitExpression_silent callee hcallee).bind fun _ =>
      (visitExpressionList_silent arguments harguments).bind fun _ => .pure _
  | .postfixed left _, h => by
    unfold visitExpression
    exact (visitExpression_silent left h).bind fun _ => .pure _
  | .prefixed _ right, h => by
    unfold visitExpression
    exact (visitExpression_silent right h).bind fun _ => .pure _
  | .shift _ _ _, _ => by
    unfold visitExpression
    exact .fail _

theorem visitMethodCall_silent : ∀ e : ExpressionContext, helperFree e = true →
    Silent (visitMethodCall parse again e)
  | .methodCall callee arguments, h => by
    obtain ⟨hcallee, harguments⟩ := Bool.and_eq_true_iff.mp h
    unfold visitMethodCall
    exact (visitExpression_silent callee hcallee).bind fun _ =>
      (visitExpressionList_silent arguments harguments).bind fun _ => .pure _
  | .bop left (.binary _) right, h | .arrayIndexer left right, h | .shift left _ right, h => by
    obtain ⟨hleft, -⟩ := Bool.and_eq_true_iff.mp h
    unfold visitMethodCall
    exact (visitExpression_silent left hleft).bind fun _ => .pure _
  | .postfixed left _, h | .prefixed _ left, h => by
    unfold visitMethodCall
    exact (visitExpression_silent left h).bind fun _ => .pure _
  | .newObject _, _ | .parentheses _, _ | .identifier _, _ | .string _, _ | .number _, _ => by
    unfold visitMethodCall
    exact .fail _

theorem visitExpressionList_silent : ∀ es : List ExpressionContext, helperFreeAll es = true →
    Silent (visitExpressionList parse again es)
  | [], _ => by
    unfold visitExpressionList
    exact .pure []
  | e :: es, h => by
    obtain ⟨he, hes⟩ := Bool.and_eq_true_iff.mp h
    unfold visitExpressionList
    exact (visitExpression_silent e he).bind fun _ => (visitExpressionList_silent es hes).bind fun _ => .pure _

end

theorem visitVarDeclaration_silent (part : VariableDeclarationPartContext) (h : helperFreePart part = true) :
    Silent (visitVarDeclaration parse again part) := by
  obtain ⟨name, _ | e⟩ := part
  · unfold visitVarDeclaration
    exact .pure _
  · unfold visitVarDeclaration
    exact (visitExpression_silent e h).bind fun _ => .pure _

theorem visitVars_silent : ∀ parts : List VariableDeclarationPartContext, parts.all helperFreePart = true →
    Silent (visitVars parse again parts)
  | [], _ => by
    unfold visitVars
    exact .pure []
  | part :: parts, h => by
    obtain ⟨hpart, hparts⟩ := Bool.and_eq_true_iff.mp h
    unfold visitVars
    exact (visitVarDeclaration_silent part hpart).bind fun _ => (visitVars_silent parts hparts).bind fun _ => .pure _

theorem visitStaticVars_silent : ∀ parts : List VariableDeclarationPartContext, parts.all helperFreePart = true →
    Silent (visitStaticVars parse again parts)
  | [], _ => by
    unfold visitStaticVars
    exact .pure ()
  | part :: parts, h => by
    obtain ⟨hpart, hparts⟩ := Bool.and_eq_true_iff.mp h
    unfold visitStaticVars
    exact (visitVarDeclaration_silent part hpart).bind fun _ =>
      (addStaticVar_silent _ _).bind fun _ => visitStaticVars_silent parts hparts

theorem visitVar_static {isPrivate : Bool} {first : VariableDeclarationPartContext}
    {more : List VariableDeclarationPartContext} (h : helperFreeVar (.var isPrivate .STATIC first more) = true) :
    Emits (fun _ => True) (fun _ => False) (visitVar parse again (.var isPrivate .STATIC first more)) (· = []) := by
  obtain ⟨hfirst, hmore⟩ := Bool.and_eq_true_iff.mp h
  unfold visitVar
  refine Emits.bind (visitVarDeclaration_silent first hfirst) fun var _ => ?_
  refine Emits.bind (addStaticVar_silent _ _) fun _ _ => ?_
  exact Emits.bind (visitStaticVars_silent more hmore) fun _ _ => Emits.pure rfl

theorem visitVar_silent (var : VarContext) (h : helperFreeVar var = true) : Silent (visitVar parse again var) := by
  obtain ⟨isPrivate, keyword, first, more⟩ := var
  cases keyword with
  | STATIC => exact (visitVar_static h).mono fun _ _ => trivial
  | none | TSHARED =>
    obtain ⟨hfirst, hmore⟩ := Bool.and_eq_true_iff.mp h
    unfold visitVar
    exact (visitVarDeclaration_silent first hfirst).bind fun _ => (visitVars_silent more hmore).bind fun _ => .pure _

theorem visitInit_silent (init : ForInitContext) (h : helperFreeInit init = true) :
    Silent (visitInit parse again init) := by
  cases init with
  | none | expression _ =>
    unfold visitInit
    exact .pure ()
  | var var =>
    obtain ⟨isPrivate, keyword, first, more⟩ := var
    cases keyword with
    | STATIC =>
      unfold visitInit
      refine Emits.bind (visitVar_static h) fun vars hvars => ?_
      subst hvars
      exact Silent.pure ()
    | none | TSHARED => exact absurd h Bool.false_ne_true

theorem initExpression_silent {init : ForInitContext} (h : helperFreeInit init = true) :
    ∀ visit ∈ initExpression parse again init, Silent visit := by
  cases init with
  | none | var _ => simp [initExpression]
  | expression e =>
    simp only [initExpression, List.mem_singleton, forall_eq]
    exact visitExpression_silent e h

theorem optionExpression_silent {e : Option ExpressionContext} (h : e.all helperFree = true) :
    ∀ visit ∈ optionExpression parse again e, Silent visit := by
  cases e with
  | none => simp [optionExpression]
  | some e =>
    simp only [optionExpression, List.mem_singleton, forall_eq]
    exact visitExpression_silent e h

mutual

theorem visitStatement_silent : ∀ s : StatementContext, helperFreeStatement s = true →
    Silent (visitStatement parse again s)
  | .semicolon, _ | .breaking, _ | .continuing, _ => by
    unfold visitStatement
    exact .pure _
  | .body _, _ | .function _ _ _ _ _ _, _ => by
    unfold visitStatement
    exact (inNewBody_silent _).bind fun _ => .pure _
  | .var var, h => by
    unfold visitStatement
    exact visitVar_silent var h
  | .expression e, h | .throwing e, h | .returning e, h => by
    unfold visitStatement
    exact (visitExpression_silent e h).bind fun _ => .pure _
  | .forLoop init condition step body, h => by
    simp only [helperFreeStatement, Bool.and_eq_true] at h
    obtain ⟨⟨⟨hinit, hcondition⟩, hstep⟩, hbody⟩ := h
    have hexpressions : ∀ visit ∈ initExpression parse again init ++ optionExpression parse again condition ++
        optionExpression parse again step, Silent visit := by
      intro visit hvisit
      rcases List.mem_append.mp hvisit with hvisit | hvisit
      · rcases List.mem_append.mp hvisit with hvisit | hvisit
        · exact initExpression_silent hinit visit hvisit
        · exact optionExpression_silent hcondition visit hvisit
      · exact optionExpression_silent hstep visit hvisit
    have hrest (startExpr : Option Expr) (i : ℕ) := (visitBodyOrStatement_silent body hbody).bind fun body =>
      (visitAt_silent hexpressions i).bind fun condition => (visitAt_silent hexpressions (i + 1)).bind fun iterExpr =>
        Silent.pure [Stmt.loop startExpr condition iterExpr body]
    unfold visitStatement
    exact (visitInit_silent init hinit).bind fun _ =>
      Silent.ite ((visitAt_silent hexpressions 0).bind fun _ => hrest _ _) ((Silent.pure none).bind fun _ => hrest _ _)
  | .whileLoop none _, _ | .forInLoop none _ _, _ => by
    unfold visitStatement
    exact .fail _
  | .whileLoop (some condition) body, h => by
    obtain ⟨hcondition, hbody⟩ := Bool.and_eq_true_iff.mp h
    unfold visitStatement
    exact (visitExpression_silent condition hcondition).bind fun _ =>
      (visitBodyOrStatement_silent body hbody).bind fun _ => .pure _
  | .conditional condition body none, h => by
    obtain ⟨hcondition, hbody⟩ := Bool.and_eq_true_iff.mp h
    unfold visitStatement
    exact (visitExpression_silent condition hcondition).bind fun _ =>
      (visitBodyOrStatement_silent body hbody).bind fun _ => .pure _
  | .conditional condition body (some elseBody), h => by
    simp only [helperFreeStatement, Bool.and_eq_true] at h
    obtain ⟨⟨hcondition, hbody⟩, helse⟩ := h
    unfold visitStatement
    exact (visitExpression_silent condition hcondition).bind fun _ =>
      (visitBodyOrStatement_silent body hbody).bind fun _ =>
        (visitBodyOrStatement_silent elseBody helse).bind fun _ => .pure _
  | .tryCatch tryBody _ catchBody none, _ => by
    unfold visitStatement
    exact (inNewBody_silent _).bind fun _ => (inNewBody_silent _).bind fun _ => .pure _
  | .tryCatch tryBody _ catchBody (some finallyBody), _ => by
    unfold visitStatement
    exact (inNewBody_silent _).bind fun _ => (inNewBody_silent _).bind fun _ => (inNewBody_silent _).bind fun _ =>
      .pure _

theorem visitBodyOrStatement_silent : ∀ body : BodyOrStatementContext, helperFreeBody body = true →
    Silent (visitBodyOrStatement parse again body)
  | .body _, _ => by
    unfold visitBodyOrStatement
    exact inNewBody_silent _
  | .statement s, h => by
    unfold visitBodyOrStatement
    exact visitStatement_silent s h

end

/-- A statement for which nothing is appended is visited as the body that is its braces'. -/
theorem visitBodyOrStatement_braces {s : StatementContext} (h : helperFreeStatement s = true) :
    visitBodyOrStatement parse again (.statement s) = visitBodyOrStatement parse again (.body [s]) := by
  funext g
  have hsilent : Silent (visitStatement parse again s) := visitStatement_silent s h
  have hbody : visitBodyOrStatement parse again (.body [s]) g =
      inNewBody (visitStatement parse again s >>= fun statements => pushAll statements >>= fun _ => pure ()) g := by
    simp only [visitBodyOrStatement, visitStatements]
  have hstatement : visitBodyOrStatement parse again (.statement s) g = visitStatement parse again s g := by
    unfold visitBodyOrStatement
    rfl
  rw [hbody, hstatement]
  cases hvisit : visitStatement parse again s g with
  | error failure =>
    change _ = inNewBody (Emitter.bind _ _) g
    unfold inNewBody Emitter.bind
    rw [hvisit]
  | ok result =>
    obtain ⟨statements, g', appended⟩ := result
    obtain rfl := hsilent.output hvisit
    change _ = inNewBody (Emitter.bind _ _) g
    unfold inNewBody Emitter.bind
    rw [hvisit]
    change _ = Except.ok ([] ++ (statements ++ []), g', [])
    rw [List.nil_append, List.append_nil]

end

end AstGenerator

inductive TreeKind where
  | expression
  | expressions
  | pairs
  | lambdaBody
  | option
  | init
  | part
  | parts
  | var
  | statement
  | statements
  | body

abbrev Tree : TreeKind → Type
  | .expression => ExpressionContext
  | .expressions => List ExpressionContext
  | .pairs => List JsonPairContext
  | .lambdaBody => BodyOrExpressionContext
  | .option => Option ExpressionContext
  | .init => ForInitContext
  | .part => VariableDeclarationPartContext
  | .parts => List VariableDeclarationPartContext
  | .var => VarContext
  | .statement => StatementContext
  | .statements => BodyContext
  | .body => BodyOrStatementContext

section

variable (parse : List Token → Option ExpressionContext) (allowed : StatementContext → Bool)

/-- The second tree is the first one with braces around some of the statements that are allowed, after any
header and at any depth. An operator is as the text it becomes is parsed. -/
inductive Braces : (kind : TreeKind) → Tree kind → Tree kind → Prop where
  | braces {s s' : StatementContext} (hs : allowed s = true) (h : Braces .statement s s') :
      Braces .body (.statement s) (.body [s'])
  | refl (kind : TreeKind) (tree : Tree kind) : Braces kind tree tree
  | newObject {e e' : ExpressionContext} (h : Braces .expression e e') :
      Braces .expression (.newObject e) (.newObject e')
  | parentheses {e e' : ExpressionContext} (h : Braces .expression e e') :
      Braces .expression (.parentheses e) (.parentheses e')
  | jsonObject {pairs pairs' : List JsonPairContext} (h : Braces .pairs pairs pairs') :
      Braces .expression (.jsonObject pairs) (.jsonObject pairs')
  | jsonArray {es es' : List ExpressionContext} (h : Braces .expressions es es') :
      Braces .expression (.jsonArray es) (.jsonArray es')
  | and {left left' right right' e e' : ExpressionContext} (hleft : Braces .expression left left')
      (hparsed : (lex (andText left right)).bind parse = some e)
      (hparsed' : (lex (andText left' right')).bind parse = some e') (h : Braces .expression e e') :
      Braces .expression (.bop left .and right) (.bop left' .and right')
  | or {left left' right right' e e' : ExpressionContext} (hleft : Braces .expression left left')
      (hparsed : (lex (orText left right)).bind parse = some e)
      (hparsed' : (lex (orText left' right')).bind parse = some e') (h : Braces .expression e e') :
      Braces .expression (.bop left .or right) (.bop left' .or right')
  | binary (op : BinaryOp) {left left' right right' : ExpressionContext} (hleft : Braces .expression left left')
      (hright : Braces .expression right right') :
      Braces .expression (.bop left (.binary op) right) (.bop left' (.binary op) right')
  | arrayIndexer {left left' right right' : ExpressionContext} (hleft : Braces .expression left left')
      (hright : Braces .expression right right') :
      Braces .expression (.arrayIndexer left right) (.arrayIndexer left' right')
  | methodCall {callee callee' : ExpressionContext} {arguments arguments' : List ExpressionContext}
      (hcallee : Braces .expression callee callee') (harguments : Braces .expressions arguments arguments') :
      Braces .expression (.methodCall callee arguments) (.methodCall callee' arguments')
  | postfixed (op : PostfixOp) {e e' : ExpressionContext} (h : Braces .expression e e') :
      Braces .expression (.postfixed e op) (.postfixed e' op)
  | prefixed (op : PrefixToken) {e e' : ExpressionContext} (h : Braces .expression e e') :
      Braces .expression (.prefixed op e) (.prefixed op e')
  | shift (op : ShiftOp) {left left' right right' : ExpressionContext} (hleft : Braces .expression left left')
      (hright : Braces .expression right right') :
      Braces .expression (.shift left op right) (.shift left' op right')
  | functionExpression (arguments : List Identifier) {body body' : BodyContext} (h : Braces .statements body body') :
      Braces .expression (.function arguments body) (.function arguments body')
  | lambda (arguments : List Identifier) {body body' : BodyOrExpressionContext} (h : Braces .lambdaBody body body') :
      Braces .expression (.lambda arguments body) (.lambda arguments body')
  | lambdaOf (argument : Identifier) {body body' : BodyOrExpressionContext} (h : Braces .lambdaBody body body') :
      Braces .expression (.lambdaOf argument body) (.lambdaOf argument body')
  | expressions {e e' : ExpressionContext} {es es' : List ExpressionContext} (h : Braces .expression e e')
      (hs : Braces .expressions es es') : Braces .expressions (e :: es) (e' :: es')
  | pairs {key key' value value' : ExpressionContext} {pairs pairs' : List JsonPairContext}
      (hkey : Braces .expression key key') (hvalue : Braces .expression value value')
      (h : Braces .pairs pairs pairs') : Braces .pairs (.pair key value :: pairs) (.pair key' value' :: pairs')
  | lambdaStatements {body body' : BodyContext} (h : Braces .statements body body') :
      Braces .lambdaBody (.body body) (.body body')
  | lambdaExpression {e e' : ExpressionContext} (h : Braces .expression e e') :
      Braces .lambdaBody (.expression e) (.expression e')
  | option {e e' : ExpressionContext} (h : Braces .expression e e') : Braces .option (some e) (some e')
  | initExpression {e e' : ExpressionContext} (h : Braces .expression e e') :
      Braces .init (.expression e) (.expression e')
  | initVar {var var' : VarContext} (h : Braces .var var var') : Braces .init (.var var) (.var var')
  | part (name : Identifier) {e e' : ExpressionContext} (h : Braces .expression e e') :
      Braces .part (.part name (some e)) (.part name (some e'))
  | parts {part part' : VariableDeclarationPartContext} {parts parts' : List VariableDeclarationPartContext}
      (h : Braces .part part part') (hs : Braces .parts parts parts') :
      Braces .parts (part :: parts) (part' :: parts')
  | var (isPrivate : Bool) (keyword : VarKeyword) {first first' : VariableDeclarationPartContext}
      {more more' : List VariableDeclarationPartContext} (hfirst : Braces .part first first')
      (hmore : Braces .parts more more') :
      Braces .var (.var isPrivate keyword first more) (.var isPrivate keyword first' more')
  | block {body body' : BodyContext} (h : Braces .statements body body') :
      Braces .statement (.body body) (.body body')
  | varStatement {var var' : VarContext} (h : Braces .var var var') : Braces .statement (.var var) (.var var')
  | function (isPrivate : Bool) (keyword : FunctionKeyword) (hasFunc : Bool) (name : Identifier)
      (arguments : List Identifier) {body body' : BodyContext} (h : Braces .statements body body') :
      Braces .statement (.function isPrivate keyword hasFunc name arguments body)
        (.function isPrivate keyword hasFunc name arguments body')
  | expressionStatement {e e' : ExpressionContext} (h : Braces .expression e e') :
      Braces .statement (.expression e) (.expression e')
  | forLoop {init init' : ForInitContext} {condition condition' step step' : Option ExpressionContext}
      {body body' : BodyOrStatementContext} (hinit : Braces .init init init')
      (hcondition : Braces .option condition condition') (hstep : Braces .option step step')
      (hbody : Braces .body body body') :
      Braces .statement (.forLoop init condition step body) (.forLoop init' condition' step' body')
  | whileLoop {condition condition' : Option ExpressionContext} {body body' : BodyOrStatementContext}
      (hcondition : Braces .option condition condition') (hbody : Braces .body body body') :
      Braces .statement (.whileLoop condition body) (.whileLoop condition' body')
  | forInLoop (iterElement : Option Identifier) {e e' : ExpressionContext} {body body' : BodyOrStatementContext}
      (he : Braces .expression e e') (hbody : Braces .body body body') :
      Braces .statement (.forInLoop iterElement e body) (.forInLoop iterElement e' body')
  | conditional {condition condition' : ExpressionContext} {body body' : BodyOrStatementContext}
      (hcondition : Braces .expression condition condition') (hbody : Braces .body body body') :
      Braces .statement (.conditional condition body none) (.conditional condition' body' none)
  | conditionalElse {condition condition' : ExpressionContext} {body body' elseBody elseBody' : BodyOrStatementContext}
      (hcondition : Braces .expression condition condition') (hbody : Braces .body body body')
      (helse : Braces .body elseBody elseBody') :
      Braces .statement (.conditional condition body (some elseBody)) (.conditional condition' body' (some elseBody'))
  | tryCatch (identifier : Identifier) {tryBody tryBody' catchBody catchBody' : BodyContext}
      (htry : Braces .statements tryBody tryBody') (hcatch : Braces .statements catchBody catchBody') :
      Braces .statement (.tryCatch tryBody identifier catchBody none) (.tryCatch tryBody' identifier catchBody' none)
  | tryCatchFinally (identifier : Identifier)
      {tryBody tryBody' catchBody catchBody' finallyBody finallyBody' : BodyContext}
      (htry : Braces .statements tryBody tryBody') (hcatch : Braces .statements catchBody catchBody')
      (hfinally : Braces .statements finallyBody finallyBody') :
      Braces .statement (.tryCatch tryBody identifier catchBody (some finallyBody))
        (.tryCatch tryBody' identifier catchBody' (some finallyBody'))
  | throwing {e e' : ExpressionContext} (h : Braces .expression e e') :
      Braces .statement (.throwing e) (.throwing e')
  | returning {e e' : ExpressionContext} (h : Braces .expression e e') :
      Braces .statement (.returning e) (.returning e')
  | statements {s s' : StatementContext} {rest rest' : BodyContext} (h : Braces .statement s s')
      (hrest : Braces .statements rest rest') : Braces .statements (s :: rest) (s' :: rest')
  | bodyStatements {body body' : BodyContext} (h : Braces .statements body body') :
      Braces .body (.body body) (.body body')
  | bodyStatement {s s' : StatementContext} (h : Braces .statement s s') :
      Braces .body (.statement s) (.statement s')

end

namespace AstGenerator

variable {parse : List Token → Option ExpressionContext} {again : ExpressionContext → Visit Expr}

variable (parse again) in
/-- The visits of two trees do the same. -/
def SameVisit : (kind : TreeKind) → Tree kind → Tree kind → Prop
  | .expression, e, e' =>
    visitExpression parse again e = visitExpression parse again e' ∧
      visitMethodCall parse again e = visitMethodCall parse again e'
  | .expressions, es, es' =>
    visitExpressionList parse again es = visitExpressionList parse again es' ∧
      ∀ name i, visitJsonArray parse again name i es = visitJsonArray parse again name i es'
  | .pairs, pairs, pairs' => ∀ name, visitJsonObject parse again name pairs = visitJsonObject parse again name pairs'
  | .lambdaBody, body, body' => visitLambdaBody parse again body = visitLambdaBody parse again body'
  | .option, e, e' => Option.Rel (fun e e' => visitExpression parse again e = visitExpression parse again e') e e'
  | .init, init, init' =>
    visitInit parse again init = visitInit parse again init' ∧
      initExpression parse again init = initExpression parse again init' ∧ startsWithVar init = startsWithVar init'
  | .part, part, part' => visitVarDeclaration parse again part = visitVarDeclaration parse again part'
  | .parts, parts, parts' =>
    visitVars parse again parts = visitVars parse again parts' ∧
      visitStaticVars parse again parts = visitStaticVars parse again parts'
  | .var, var, var' => visitVar parse again var = visitVar parse again var'
  | .statement, s, s' => visitStatement parse again s = visitStatement parse again s'
  | .statements, body, body' => visitStatements parse again body = visitStatements parse again body'
  | .body, body, body' => visitBodyOrStatement parse again body = visitBodyOrStatement parse again body'

theorem SameVisit.refl (kind : TreeKind) (tree : Tree kind) : SameVisit parse again kind tree tree := by
  cases kind with
  | expression | expressions | parts => exact ⟨rfl, by simp⟩
  | init => exact ⟨rfl, rfl, rfl⟩
  | option =>
    cases tree with
    | none => exact .none
    | some e => exact .some rfl
  | pairs => exact fun _ => rfl
  | lambdaBody | part | var | statement | statements | body => rfl

theorem SameVisit.optionExpression {e e' : Option ExpressionContext} (h : SameVisit parse again .option e e') :
    optionExpression parse again e = optionExpression parse again e' := by
  cases h with
  | none => rfl
  | some h =>
    simp only [AstGenerator.optionExpression, h]

section

variable {e e' e₂ e₂' : ExpressionContext} {es es' : List ExpressionContext} {statements statements' : BodyContext}
  {body body' : BodyOrStatementContext}

theorem SameVisit.braces {s s' : StatementContext} (hs : helperFreeStatement s = true)
    (h : SameVisit parse again .statement s s') : SameVisit parse again .body (.statement s) (.body [s']) := by
  have h : visitStatement parse again s = visitStatement parse again s' := h
  change visitBodyOrStatement parse again _ = visitBodyOrStatement parse again _
  rw [visitBodyOrStatement_braces hs]
  simp only [visitBodyOrStatement, visitStatements, h]

theorem SameVisit.and {text text' : ExpressionContext} (hleft : SameVisit parse again .expression e e')
    (hparsed : (lex (andText e e₂)).bind parse = some text) (hparsed' : (lex (andText e' e₂')).bind parse = some text')
    (htext : again text = again text') :
    SameVisit parse again .expression (.bop e .and e₂) (.bop e' .and e₂') := by
  obtain ⟨hleft, -⟩ := hleft
  constructor <;> simp only [visitExpression, visitMethodCall, andToIf, visitText, hparsed, hparsed', htext, hleft]

theorem SameVisit.or {text text' : ExpressionContext} (hleft : SameVisit parse again .expression e e')
    (hparsed : (lex (orText e e₂)).bind parse = some text) (hparsed' : (lex (orText e' e₂')).bind parse = some text')
    (htext : again text = again text') :
    SameVisit parse again .expression (.bop e .or e₂) (.bop e' .or e₂') := by
  obtain ⟨hleft, -⟩ := hleft
  constructor <;> simp only [visitExpression, visitMethodCall, orToIf, visitText, hparsed, hparsed', htext, hleft]

theorem SameVisit.expressions (h : SameVisit parse again .expression e e')
    (hs : SameVisit parse again .expressions es es') :
    SameVisit parse again .expressions (e :: es) (e' :: es') := by
  obtain ⟨h, -⟩ := h
  obtain ⟨hs, harray⟩ := hs
  constructor
  · simp only [visitExpressionList, h, hs]
  · intro name i
    simp only [visitJsonArray, h, harray]

theorem SameVisit.pairs {pairs pairs' : List JsonPairContext} (hkey : SameVisit parse again .expression e e')
    (hvalue : SameVisit parse again .expression e₂ e₂') (h : SameVisit parse again .pairs pairs pairs') :
    SameVisit parse again .pairs (.pair e e₂ :: pairs) (.pair e' e₂' :: pairs') := by
  obtain ⟨hkey, -⟩ := hkey
  obtain ⟨hvalue, -⟩ := hvalue
  have h : ∀ name, visitJsonObject parse again name pairs = visitJsonObject parse again name pairs' := h
  intro name
  simp only [visitJsonObject, hkey, hvalue, h]

theorem SameVisit.initVar {var var' : VarContext} (h : SameVisit parse again .var var var') :
    SameVisit parse again .init (.var var) (.var var') := by
  have h : visitVar parse again var = visitVar parse again var' := h
  refine ⟨?_, ?_, rfl⟩
  · simp only [visitInit, h]
  · simp only [AstGenerator.initExpression]

theorem SameVisit.initExpression (h : SameVisit parse again .expression e e') :
    SameVisit parse again .init (.expression e) (.expression e') := by
  obtain ⟨h, -⟩ := h
  refine ⟨?_, ?_, rfl⟩
  · simp only [visitInit]
  · simp only [AstGenerator.initExpression, h]

theorem SameVisit.parts {part part' : VariableDeclarationPartContext}
    {parts parts' : List VariableDeclarationPartContext} (h : SameVisit parse again .part part part')
    (hs : SameVisit parse again .parts parts parts') :
    SameVisit parse again .parts (part :: parts) (part' :: parts') := by
  have h : visitVarDeclaration parse again part = visitVarDeclaration parse again part' := h
  obtain ⟨hvars, hstatic⟩ := hs
  constructor
  · simp only [visitVars, h, hvars]
  · simp only [visitStaticVars, h, hstatic]

theorem SameVisit.var (isPrivate : Bool) (keyword : VarKeyword) {first first' : VariableDeclarationPartContext}
    {more more' : List VariableDeclarationPartContext} (hfirst : SameVisit parse again .part first first')
    (hmore : SameVisit parse again .parts more more') :
    SameVisit parse again .var (.var isPrivate keyword first more) (.var isPrivate keyword first' more') := by
  have hfirst : visitVarDeclaration parse again first = visitVarDeclaration parse again first' := hfirst
  obtain ⟨hvars, hstatic⟩ := hmore
  change visitVar parse again _ = visitVar parse again _
  cases keyword <;> simp only [visitVar, hfirst, hvars, hstatic]

theorem SameVisit.forLoop {init init' : ForInitContext} {condition condition' step step' : Option ExpressionContext}
    (hinit : SameVisit parse again .init init init') (hcondition : SameVisit parse again .option condition condition')
    (hstep : SameVisit parse again .option step step') (hbody : SameVisit parse again .body body body') :
    SameVisit parse again .statement (.forLoop init condition step body) (.forLoop init' condition' step' body') := by
  obtain ⟨hinit, hexpression, hvar⟩ := hinit
  have hcondition := hcondition.optionExpression
  have hstep := hstep.optionExpression
  have hbody : visitBodyOrStatement parse again body = visitBodyOrStatement parse again body' := hbody
  change visitStatement parse again _ = visitStatement parse again _
  simp only [visitStatement, hinit, hexpression, hvar, hcondition, hstep, hbody]

theorem SameVisit.whileLoop {condition condition' : Option ExpressionContext}
    (hcondition : SameVisit parse again .option condition condition') (hbody : SameVisit parse again .body body body') :
    SameVisit parse again .statement (.whileLoop condition body) (.whileLoop condition' body') := by
  have hbody : visitBodyOrStatement parse again body = visitBodyOrStatement parse again body' := hbody
  change visitStatement parse again _ = visitStatement parse again _
  cases hcondition with
  | none => simp only [visitStatement]
  | some h => simp only [visitStatement, h, hbody]

theorem SameVisit.forInLoop (iterElement : Option Identifier) (he : SameVisit parse again .expression e e')
    (hbody : SameVisit parse again .body body body') :
    SameVisit parse again .statement (.forInLoop iterElement e body) (.forInLoop iterElement e' body') := by
  obtain ⟨he, -⟩ := he
  have hbody : visitBodyOrStatement parse again body = visitBodyOrStatement parse again body' := hbody
  change visitStatement parse again _ = visitStatement parse again _
  cases iterElement <;> simp only [visitStatement, he, hbody]

theorem SameVisit.conditionalElse {elseBody elseBody' : BodyOrStatementContext}
    (hcondition : SameVisit parse again .expression e e') (hbody : SameVisit parse again .body body body')
    (helse : SameVisit parse again .body elseBody elseBody') :
    SameVisit parse again .statement (.conditional e body (some elseBody))
      (.conditional e' body' (some elseBody')) := by
  obtain ⟨hcondition, -⟩ := hcondition
  have hbody : visitBodyOrStatement parse again body = visitBodyOrStatement parse again body' := hbody
  have helse : visitBodyOrStatement parse again elseBody = visitBodyOrStatement parse again elseBody' := helse
  change visitStatement parse again _ = visitStatement parse again _
  simp only [visitStatement, hcondition, hbody, helse]

theorem SameVisit.tryCatchFinally (identifier : Identifier) {catchBody catchBody' finallyBody finallyBody' : BodyContext}
    (htry : SameVisit parse again .statements statements statements')
    (hcatch : SameVisit parse again .statements catchBody catchBody')
    (hfinally : SameVisit parse again .statements finallyBody finallyBody') :
    SameVisit parse again .statement (.tryCatch statements identifier catchBody (some finallyBody))
      (.tryCatch statements' identifier catchBody' (some finallyBody')) := by
  have htry : visitStatements parse again statements = visitStatements parse again statements' := htry
  have hcatch : visitStatements parse again catchBody = visitStatements parse again catchBody' := hcatch
  have hfinally : visitStatements parse again finallyBody = visitStatements parse again finallyBody' := hfinally
  change visitStatement parse again _ = visitStatement parse again _
  simp only [visitStatement, htry, hcatch, hfinally]

end

/-- The visit of a tree, with braces put in, does the same if that holds where texts are parsed again. -/
theorem braces_sameVisit (hagain : ∀ e e', Braces parse helperFreeStatement .expression e e' → again e = again e')
    {kind : TreeKind} {tree tree' : Tree kind} (h : Braces parse helperFreeStatement kind tree tree') :
    SameVisit parse again kind tree tree' := by
  induction h with
  | braces hs _ ih => exact SameVisit.braces hs ih
  | refl kind tree => exact SameVisit.refl kind tree
  | newObject _ ih | parentheses _ ih | postfixed _ _ ih | prefixed _ _ ih =>
    obtain ⟨h, hcall⟩ := ih
    constructor <;> simp only [visitExpression, visitMethodCall, h, hcall]
  | jsonObject _ ih =>
    have ih : ∀ name, visitJsonObject parse again name _ = visitJsonObject parse again name _ := ih
    constructor <;> simp only [visitExpression, visitMethodCall, ih]
  | jsonArray _ ih =>
    obtain ⟨-, h⟩ := ih
    constructor <;> simp only [visitExpression, visitMethodCall, h]
  | and _ hparsed hparsed' h ihleft _ => exact ihleft.and hparsed hparsed' (hagain _ _ h)
  | or _ hparsed hparsed' h ihleft _ => exact ihleft.or hparsed hparsed' (hagain _ _ h)
  | binary _ _ _ ihleft ihright | arrayIndexer _ _ ihleft ihright | shift _ _ _ ihleft ihright
  | methodCall _ _ ihleft ihright =>
    obtain ⟨hleft, -⟩ := ihleft
    obtain ⟨hright, -⟩ := ihright
    constructor <;> simp only [visitExpression, visitMethodCall, hleft, hright]
  | functionExpression _ _ ih =>
    have ih : visitStatements parse again _ = visitStatements parse again _ := ih
    constructor <;> simp only [visitExpression, visitMethodCall, ih]
  | lambda _ _ ih | lambdaOf _ _ ih =>
    have ih : visitLambdaBody parse again _ = visitLambdaBody parse again _ := ih
    constructor <;> simp only [visitExpression, visitMethodCall, ih]
  | expressions _ _ ih ihs => exact SameVisit.expressions ih ihs
  | pairs _ _ _ ihkey ihvalue ih => exact SameVisit.pairs ihkey ihvalue ih
  | lambdaStatements _ ih =>
    have ih : visitStatements parse again _ = visitStatements parse again _ := ih
    change visitLambdaBody parse again _ = visitLambdaBody parse again _
    simp only [visitLambdaBody, ih]
  | lambdaExpression _ ih =>
    obtain ⟨h, -⟩ := ih
    change visitLambdaBody parse again _ = visitLambdaBody parse again _
    simp only [visitLambdaBody, h]
  | option _ ih => exact .some ih.1
  | initExpression _ ih => exact SameVisit.initExpression ih
  | initVar _ ih => exact SameVisit.initVar ih
  | part _ _ ih =>
    obtain ⟨h, -⟩ := ih
    change visitVarDeclaration parse again _ = visitVarDeclaration parse again _
    simp only [visitVarDeclaration, h]
  | parts _ _ ih ihs => exact SameVisit.parts ih ihs
  | var isPrivate keyword _ _ ihfirst ihmore => exact SameVisit.var isPrivate keyword ihfirst ihmore
  | block _ ih | function _ _ _ _ _ _ ih =>
    have ih : visitStatements parse again _ = visitStatements parse again _ := ih
    change visitStatement parse again _ = visitStatement parse again _
    simp only [visitStatement, ih]
  | varStatement _ ih =>
    have ih : visitVar parse again _ = visitVar parse again _ := ih
    change visitStatement parse again _ = visitStatement parse again _
    simp only [visitStatement, ih]
  | expressionStatement _ ih | throwing _ ih | returning _ ih =>
    obtain ⟨h, -⟩ := ih
    change visitStatement parse again _ = visitStatement parse again _
    simp only [visitStatement, h]
  | forLoop _ _ _ _ ihinit ihcondition ihstep ihbody =>
    exact SameVisit.forLoop ihinit ihcondition ihstep ihbody
  | whileLoop _ _ ihcondition ihbody => exact SameVisit.whileLoop ihcondition ihbody
  | forInLoop iterElement _ _ ihe ihbody => exact SameVisit.forInLoop iterElement ihe ihbody
  | conditional _ _ ihcondition ihbody =>
    obtain ⟨hcondition, -⟩ := ihcondition
    have hbody : visitBodyOrStatement parse again _ = visitBodyOrStatement parse again _ := ihbody
    change visitStatement parse again _ = visitStatement parse again _
    simp only [visitStatement, hcondition, hbody]
  | conditionalElse _ _ _ ihcondition ihbody ihelse =>
    exact SameVisit.conditionalElse ihcondition ihbody ihelse
  | tryCatch _ _ _ ihtry ihcatch =>
    have htry : visitStatements parse again _ = visitStatements parse again _ := ihtry
    have hcatch : visitStatements parse again _ = visitStatements parse again _ := ihcatch
    change visitStatement parse again _ = visitStatement parse again _
    simp only [visitStatement, htry, hcatch]
  | tryCatchFinally identifier _ _ _ ihtry ihcatch ihfinally =>
    exact SameVisit.tryCatchFinally identifier ihtry ihcatch ihfinally
  | statements _ _ ih ihrest =>
    have h : visitStatement parse again _ = visitStatement parse again _ := ih
    have hrest : visitStatements parse again _ = visitStatements parse again _ := ihrest
    change visitStatements parse again _ = visitStatements parse again _
    simp only [visitStatements, h, hrest]
  | bodyStatements _ ih =>
    have ih : visitStatements parse again _ = visitStatements parse again _ := ih
    change visitBodyOrStatement parse again _ = visitBodyOrStatement parse again _
    simp only [visitBodyOrStatement, ih]
  | bodyStatement _ ih =>
    have ih : visitStatement parse again _ = visitStatement parse again _ := ih
    change visitBodyOrStatement parse again _ = visitBodyOrStatement parse again _
    simp only [visitBodyOrStatement, ih]

theorem visitDeep_braces {e e' : ExpressionContext} (depth : ℕ)
    (h : Braces parse helperFreeStatement .expression e e') : visitDeep parse depth e = visitDeep parse depth e' := by
  induction depth generalizing e e' with
  | zero => rfl
  | succ depth ih =>
    obtain ⟨hvisit, -⟩ := braces_sameVisit (fun _ _ => ih) h
    exact hvisit

theorem generate_braces {context : ClassDeclarationContext} {body : BodyContext} (depth : ℕ)
    (h : Braces parse helperFreeStatement .statements context.body body) :
    generate parse depth context = generate parse depth { context with body := body } := by
  have hbody : visitStatements parse (visitDeep parse depth) context.body =
      visitStatements parse (visitDeep parse depth) body :=
    braces_sameVisit (fun _ _ => visitDeep_braces depth) h
  unfold generate
  rw [hbody]

end AstGenerator

def runContexts {α : Type} [NumOps α] (parse : List Token → Option ExpressionContext) (depth fuel : ℕ)
    (contexts : List ClassDeclarationContext) (input : List String) (schedule : List ℕ) : Option (Machine α) :=
  match contexts.mapM (AstGenerator.generate parse depth) with
  | .error _ => none
  | .ok program => runProgram fuel program input schedule

def BracesClass (parse : List Token → Option ExpressionContext) (allowed : StatementContext → Bool)
    (context context' : ClassDeclarationContext) : Prop :=
  ∃ body, Braces parse allowed .statements context.body body ∧ context' = { context with body := body }

/-- Braces around statements for which nothing is appended change no run. -/
theorem braces_same_runs {α : Type} [NumOps α] {parse : List Token → Option ExpressionContext}
    {contexts contexts' : List ClassDeclarationContext}
    (h : List.Forall₂ (BracesClass parse helperFreeStatement) contexts contexts') (depth fuel : ℕ)
    (input : List String) (schedule : List ℕ) :
    (runContexts parse depth fuel contexts input schedule : Option (Machine α)) =
      runContexts parse depth fuel contexts' input schedule := by
  have hclasses : contexts.mapM (AstGenerator.generate parse depth) =
      contexts'.mapM (AstGenerator.generate parse depth) := by
    induction h with
    | nil => rfl
    | cons hclass _ ih =>
      obtain ⟨body, hbody, rfl⟩ := hclass
      rw [List.mapM_cons, List.mapM_cons, AstGenerator.generate_braces depth hbody, ih]
  unfold runContexts
  rw [hclasses]

namespace UnbracedBodies

def mainName : Identifier := ⟨"Main", by decide +kernel⟩

def n : Identifier := ⟨"n", by decide +kernel⟩

def i : Identifier := ⟨"i", by decide +kernel⟩

def print : Identifier := ⟨"print", by decide +kernel⟩

def two : Lexed .INT := ⟨"2", by decide +kernel⟩

def less (left right : ExpressionContext) : ExpressionContext := .bop left (.binary .less) right

def declared (x : Identifier) (value : ExpressionContext) : VarContext := .var false .none (.part x (some value)) []

def printing : StatementContext := .expression (.methodCall (.identifier print) [.identifier n])

/-- `for (var i = 0; i < 1; i++) print(n);` -/
def innerLoop : StatementContext :=
  .forLoop (.var (declared i (.number (.INT zero)))) (some (less (.identifier i) (.number (.INT one))))
    (some (.postfixed (.identifier i) .increment)) (.statement printing)

def sampleContext (body : BodyOrStatementContext) : ClassDeclarationContext where
  imports := []
  className := mainName
  arguments := some []
  body := [.var (declared n (.number (.INT zero))),
    .whileLoop (some (less (.postfixed (.identifier n) .increment) (.number (.INT two)))) body]

theorem sampleContext_braces {parse : List Token → Option ExpressionContext} {allowed : StatementContext → Bool}
    {s : StatementContext} (hs : allowed s = true) :
    BracesClass parse allowed (sampleContext (.statement s)) (sampleContext (.body [s])) :=
  ⟨_, .statements (.refl .statement _) (.statements (.whileLoop (.refl .option _) (.braces hs (.refl .statement s)))
    (.refl .statements [])), rfl⟩

def noParser : List Token → Option ExpressionContext := fun _ => none

theorem braces_same_runs_sample :
    (runContexts noParser 1 5 [sampleContext (.statement printing)] [] (List.replicate 40 0) : Option (Machine ℚ)) =
      runContexts noParser 1 5 [sampleContext (.body [printing])] [] (List.replicate 40 0) :=
  braces_same_runs (.cons (sampleContext_braces rfl) .nil) 1 5 [] (List.replicate 40 0)

theorem runContexts_generated {α : Type} [NumOps α] {parse : List Token → Option ExpressionContext} {depth : ℕ}
    {context : ClassDeclarationContext} {cls : ClassDeclaration}
    (h : AstGenerator.generate parse depth context = .ok cls) (fuel : ℕ) (input : List String) (schedule : List ℕ) :
    (runContexts parse depth fuel [context] input schedule : Option (Machine α)) =
      runProgram fuel [cls] input schedule := by
  unfold runContexts
  rw [List.mapM_cons, h]
  rfl

def number? : Line ℚ → Option ℚ
  | .number x => some x
  | .text _ => none

def printed (run : Option (Machine ℚ)) : Option (List (Option ℚ)) := do
  let m ← run
  if m.threads.all List.isEmpty then some (m.data.output.map number?) else none

def outerLoop (body : Body) : Stmt :=
  .loop none (some (.binary .less (.postfixed (.ident "n") .increment) (.num "2"))) none body

def index : Stmt := .var "i" (.num "0") false false

def loopOfIndex : Stmt :=
  .loop none (some (.binary .less (.ident "i") (.num "1"))) (some (.postfixed (.ident "i") .increment))
    [.eval (.methodCall (.ident "print") [.ident "n"])]

def sampleClass (statements : Body) : ClassDeclaration :=
  ⟨"Main", [], .var "n" (.num "0") false false :: statements ++
    [.function false false false "__static__constructor__" [] []], []⟩

theorem generate_unbraced (parse : List Token → Option ExpressionContext) :
    AstGenerator.generate parse 1 (sampleContext (.statement innerLoop)) =
      .ok (sampleClass [index, outerLoop [loopOfIndex]]) := by
  rfl

theorem generate_braced (parse : List Token → Option ExpressionContext) :
    AstGenerator.generate parse 1 (sampleContext (.body [innerLoop])) =
      .ok (sampleClass [outerLoop [index, loopOfIndex]]) := by
  rfl

/-- The index of the inner loop is set to 0 before the outer loop: without the braces the second turn
prints nothing. -/
theorem nested_loop_started_once :
    BracesClass noParser (fun _ => true) (sampleContext (.statement innerLoop)) (sampleContext (.body [innerLoop])) ∧
      printed (runContexts noParser 1 5 [sampleContext (.statement innerLoop)] [] (List.replicate 40 0)) =
        some [some 1] ∧
      printed (runContexts noParser 1 5 [sampleContext (.body [innerLoop])] [] (List.replicate 49 0)) =
        some [some 1, some 2] := by
  rw [runContexts_generated (generate_unbraced noParser), runContexts_generated (generate_braced noParser)]
  refine ⟨sampleContext_braces rfl, ?_, ?_⟩
  · decide +kernel
  · decide +kernel

end UnbracedBodies

end Zeroscript
