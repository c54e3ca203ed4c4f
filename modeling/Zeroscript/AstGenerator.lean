import Zeroscript.Lib.Emitter
import Zeroscript.Relexing

/-! # `AstGenerator`

The visitor that makes the syntax tree of a class from its parse tree. What it appends to the body
it is given is its output. The parser is generated from the grammar, and is a parameter. -/
namespace Zeroscript

open Emission

structure AstGenerator where
  counter : ℕ := 0
  forIndexerCount : ℕ := 0
  jsonObjectCount : ℕ := 0
  staticConstructor : Body := []
  deriving Repr

/-- A null pointer that the visitor, or later the compiler, dereferences; operators nested deeper
than asked for. -/
inductive VisitFailure where
  | nullPointer
  | tooDeep
  deriving DecidableEq, Repr

abbrev Visit (β : Type) := Emitter AstGenerator VisitFailure Stmt β

namespace AstGenerator

def push (stmt : Stmt) : Visit Unit := fun g => .ok ((), g, [stmt])

def pushAll (statements : List Stmt) : Visit Unit := fun g => .ok ((), g, statements)

/-- A visit with a new body, which it fills. -/
def inNewBody (visit : Visit Unit) : Visit Body := fun g =>
  match visit g with
  | .error failure => .error failure
  | .ok (_, g, statements) => .ok (statements, g, [])

def nextAnonymous : Visit String := fun g =>
  .ok ("$anonymous_" ++ toString (g.counter + 1), { g with counter := g.counter + 1 }, [])

def nextIndexer : Visit String := fun g =>
  .ok ("$indexer" ++ toString g.forIndexerCount, { g with forIndexerCount := g.forIndexerCount + 1 }, [])

def nextTempJson : Visit String := fun g =>
  .ok ("$tempJson" ++ toString (g.jsonObjectCount + 1), { g with jsonObjectCount := g.jsonObjectCount + 1 }, [])

def addStaticVar (identifier : String) (value : Expr) : Visit Unit := fun g =>
  .ok ((), { g with
    staticConstructor := g.staticConstructor ++
      [.eval (.binary .assign (.binary .dot (.ident "__static__") (.str identifier)) value)] }, [])

/-- `TerminalExpression::string` leaves the quotes out. -/
def trimmed (text : String) : String := String.ofList (text.toList.drop 1).dropLast

def numberData : NumberContext → String
  | .INT t => t.text
  | .DECIMAL t => t.text
  | .FALSE_ | .NULL_ => "0"
  | .TRUE_ => "1"

def fieldName : Expr → Expr
  | .terminal (.identifier x) => .str x
  | e => e

/-- `var $tempJson = Object();` -/
def declareJson : Visit String := do
  let name ← nextTempJson
  push (.var name (.methodCall (.ident "Object") []) false false)
  return name

/-- `{nameOfTheTempObj}[key] = value`. -/
def doHandleJsonPair (nameOfTheTempObj : String) (key value : Expr) : Visit Unit :=
  push (.eval (.binary .assign (.binary .dot (.ident nameOfTheTempObj) key) value))

def names (identifiers : List Identifier) : List String := identifiers.map Lexed.text

def declareFunction (name : String) (arguments : List Identifier) (body : Body) : Visit Expr := do
  push (.function false false false name (names arguments) body)
  return .ident name

/-- `pContext->expression(i)`, where there is one. -/
def visitAt (expressions : List (Visit Expr)) (i : ℕ) : Visit (Option Expr) :=
  match expressions[i]? with
  | none => pure none
  | some visit => do
    let e ← visit
    return some e

/-- The loop that a `for` over the keys of an object becomes. -/
def forInLoop (x indexer : String) (objectToIterate : Expr) (body : Body) : Stmt :=
  let size := .methodCall (.binary .dot objectToIterate (.str "size")) []
  let keys := .methodCall (.binary .dot objectToIterate (.str "keys")) []
  .loop none (some (.binary .greater size (.ident indexer))) (some (.postfixed (.ident indexer) .increment))
    (.eval (.binary .assign (.ident x) (.binary .dot keys (.ident indexer))) :: body)

def startsWithVar : ForInitContext → Bool
  | .none | .expression _ => false
  | .var _ => true

section

-- `parser.expression()`; `none` where the tokens are no expression
variable (parse : List Token → Option ExpressionContext)

-- `visitExpression` for the trees of texts that are parsed again
variable (again : ExpressionContext → Visit Expr)

def visitText (text : List Char) : Visit Expr :=
  match (lex text).bind parse with
  | none => fail .nullPointer
  | some e => again e

def andToIf (left right : ExpressionContext) : Visit Expr := visitText parse again (andText left right)

def orToIf (left right : ExpressionContext) : Visit Expr := visitText parse again (orText left right)

mutual

def visitExpression : ExpressionContext → Visit Expr
  | .newObject e => visitMethodCall e
  | .parentheses e => visitExpression e
  | .identifier x => pure (.ident x.text)
  | .string s => pure (.str (trimmed s.text))
  | .number n => pure (.num (numberData n))
  | .jsonObject pairs => do
    let name ← declareJson
    visitJsonObject name pairs
    return .ident name
  | .jsonArray elements => do
    let name ← declareJson
    visitJsonArray name 0 elements
    return .ident name
  | .bop left .and right => andToIf parse again left right
  | .bop left .or right => orToIf parse again left right
  | .bop left (.binary op) right => do
    let left ← visitExpression left
    let right ← visitExpression right
    return .binary op left (if op = .dot then fieldName right else right)
  | .arrayIndexer left right => do
    let left ← visitExpression left
    let right ← visitExpression right
    return .binary .dot left right
  | .methodCall callee arguments => do
    let callee ← visitExpression callee
    let arguments ← visitExpressionList arguments
    return .methodCall callee arguments
  | .postfixed left op => do
    let left ← visitExpression left
    return .postfixed left op
  | .prefixed op right => do
    let right ← visitExpression right
    return .prefixed op.1 right
  -- no alternative of the visitor: it returns a null pointer
  | .shift _ _ _ => fail .nullPointer
  | .function arguments body => do
    let name ← nextAnonymous
    let body ← inNewBody (visitStatements body)
    declareFunction name arguments body
  | .lambda arguments body => do
    let name ← nextAnonymous
    let body ← visitLambdaBody body
    declareFunction name arguments body
  | .lambdaOf argument body => do
    let name ← nextAnonymous
    let body ← visitLambdaBody body
    declareFunction name [argument] body

/-- `expression(0)` is the callee, whatever the expression is. -/
def visitMethodCall : ExpressionContext → Visit Expr
  | .methodCall callee arguments => do
    let callee ← visitExpression callee
    let arguments ← visitExpressionList arguments
    return .methodCall callee arguments
  | .bop left _ _ | .arrayIndexer left _ | .postfixed left _ | .prefixed _ left | .shift left _ _ => do
    let callee ← visitExpression left
    return .methodCall callee []
  | .newObject _ | .parentheses _ | .identifier _ | .string _ | .number _ | .jsonObject _ | .jsonArray _
  | .function _ _ | .lambda _ _ | .lambdaOf _ _ => fail .nullPointer

def visitExpressionList : List ExpressionContext → Visit (List Expr)
  | [] => pure []
  | e :: es => do
    let e ← visitExpression e
    let es ← visitExpressionList es
    return e :: es

def visitJsonObject (name : String) : List JsonPairContext → Visit Unit
  | [] => pure ()
  | .pair key value :: pairs => do
    let key ← visitExpression key
    let value ← visitExpression value
    doHandleJsonPair name key value
    visitJsonObject name pairs

def visitJsonArray (name : String) (i : ℕ) : List ExpressionContext → Visit Unit
  | [] => pure ()
  | e :: es => do
    let value ← visitExpression e
    doHandleJsonPair name (.str (toString i)) value
    visitJsonArray name (i + 1) es

/-- The body of a lambda; an expression is returned, as `visitBodyOrExpression` has it. -/
def visitLambdaBody : BodyOrExpressionContext → Visit Body
  | .body body => inNewBody (visitStatements body)
  | .expression e => inNewBody do
    let e ← visitExpression e
    push (.ret e)

def visitStatement : StatementContext → Visit (List Stmt)
  | .semicolon => pure [.eval .empty]
  | .body body => do
    let body ← inNewBody (visitStatements body)
    return [.block body]
  | .var var => visitVar var
  | .function isPrivate keyword _ name arguments body => do
    let body ← inNewBody (visitStatements body)
    return [.function (keyword == .STATIC) (keyword == .ASYNC) isPrivate name.text (names arguments) body]
  | .expression e => do
    let e ← visitExpression e
    return [.eval e]
  | .forLoop init condition step body => do
    let expressions := initExpression init ++ optionExpression condition ++ optionExpression step
    visitInit init
    let hasStartExpr := if startsWithVar init then 0 else if 2 < expressions.length then 1 else 0
    let startExpr ← if hasStartExpr = 1 then visitAt expressions 0 else pure none
    let body ← visitBodyOrStatement body
    let condition ← visitAt expressions hasStartExpr
    let iterExpr ← visitAt expressions (hasStartExpr + 1)
    return [.loop startExpr condition iterExpr body]
  | .whileLoop none _ => fail .nullPointer
  | .whileLoop (some condition) body => do
    let condition ← visitExpression condition
    let body ← visitBodyOrStatement body
    return [.loop none (some condition) none body]
  | .forInLoop none _ _ => fail .nullPointer
  | .forInLoop (some x) e body => do
    push (.var x.text (.num "0") false false)
    let indexer ← nextIndexer
    push (.var indexer (.num "0") false false)
    let objectToIterate ← visitExpression e
    let body ← visitBodyOrStatement body
    return [AstGenerator.forInLoop x.text indexer objectToIterate body]
  | .conditional condition body none => do
    let condition ← visitExpression condition
    let body ← visitBodyOrStatement body
    return [.conditional condition body none]
  | .conditional condition body (some elseBody) => do
    let condition ← visitExpression condition
    let body ← visitBodyOrStatement body
    let elseBody ← visitBodyOrStatement elseBody
    return [.conditional condition body (some elseBody)]
  | .tryCatch tryBody identifier catchBody none => do
    let tryBody ← inNewBody (visitStatements tryBody)
    let catchBody ← inNewBody (visitStatements catchBody)
    return [.tryCatch identifier.text tryBody catchBody none]
  | .tryCatch tryBody identifier catchBody (some finallyBody) => do
    let tryBody ← inNewBody (visitStatements tryBody)
    let catchBody ← inNewBody (visitStatements catchBody)
    let finallyBody ← inNewBody (visitStatements finallyBody)
    return [.tryCatch identifier.text tryBody catchBody (some finallyBody)]
  | .throwing e => do
    let e ← visitExpression e
    return [.eval (.prefixed .throwing e)]
  | .breaking => pure [.brk]
  | .continuing => pure [.expression .empty false false true]
  | .returning e => do
    let e ← visitExpression e
    return [.ret e]

/-- The loop of `visitBody`, on the new body: what a statement's visit appends to it comes first. -/
def visitStatements : List StatementContext → Visit Unit
  | [] => pure ()
  | s :: rest => do
    let statements ← visitStatement s
    pushAll statements
    visitStatements rest

/-- A body of its own gets the statements that its visit appends; a statement without braces leaves
them to the body around it. -/
def visitBodyOrStatement : BodyOrStatementContext → Visit Body
  | .body body => inNewBody (visitStatements body)
  | .statement s => visitStatement s

def visitVar : VarContext → Visit (List Stmt)
  | .var _ .STATIC first more => do
    let var ← visitVarDeclaration first
    addStaticVar var.1 var.2
    visitStaticVars more
    return []
  | .var isPrivate keyword first more => do
    let var ← visitVarDeclaration first
    let vars ← visitVars more
    return (var :: vars).map fun var => .var var.1 var.2 isPrivate (keyword == .TSHARED)

def visitVarDeclaration : VariableDeclarationPartContext → Visit (String × Expr)
  | .part name none => pure (name.text, .empty)
  | .part name (some e) => do
    let value ← visitExpression e
    return (name.text, value)

def visitVars : List VariableDeclarationPartContext → Visit (List (String × Expr))
  | [] => pure []
  | part :: parts => do
    let var ← visitVarDeclaration part
    let vars ← visitVars parts
    return var :: vars

def visitStaticVars : List VariableDeclarationPartContext → Visit Unit
  | [] => pure ()
  | part :: parts => do
    let var ← visitVarDeclaration part
    addStaticVar var.1 var.2
    visitStaticVars parts

/-- The variables of a `for` loop are appended to the body around it. -/
def visitInit : ForInitContext → Visit Unit
  | .none | .expression _ => pure ()
  | .var var => do
    let vars ← visitVar var
    pushAll vars

def initExpression : ForInitContext → List (Visit Expr)
  | .none | .var _ => []
  | .expression e => [visitExpression e]

def optionExpression : Option ExpressionContext → List (Visit Expr)
  | none => []
  | some e => [visitExpression e]

end

end

/-- `visitExpression`, with operators in operands of operators down to a depth. -/
def visitDeep (parse : List Token → Option ExpressionContext) : ℕ → ExpressionContext → Visit Expr
  | 0 => fun _ => fail .tooDeep
  | depth + 1 => visitExpression parse (visitDeep parse depth)

def insertImport (path name : String) : List (String × String) → List (String × String)
  | [] => [(path, name)]
  | (path', name') :: rest =>
    if path < path' then (path, name) :: (path', name') :: rest
    else if path = path' then (path', name') :: rest
    else (path', name') :: insertImport path name rest

def importsMap (imports : List ImportContext) : List (String × String) :=
  imports.foldl (fun map i => insertImport (trimmed i.path.text) i.name.text map) []

def generate (parse : List Token → Option ExpressionContext) (depth : ℕ) (context : ClassDeclarationContext) :
    Except VisitFailure ClassDeclaration :=
  match inNewBody (visitStatements parse (visitDeep parse depth) context.body) {}, context.arguments with
  | .error failure, _ => .error failure
  | .ok _, none => .error .nullPointer
  | .ok (body, g, _), some arguments =>
    .ok {
      identifier := context.className.text
      arguments := names arguments
      body := body ++ [.function false false false "__static__constructor__" [] g.staticConstructor]
      importsMap := importsMap context.imports }

end AstGenerator

end Zeroscript
