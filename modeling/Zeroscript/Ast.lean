import Mathlib.Data.List.Basic

/-! # The abstract syntax tree

Expressions and statements as `src/compiler/ast` declares them. A statement's `hasReturn`,
`hasBreak` and `hasContinue` flags are kept on expression statements only: `visitStatement` and
`visitBodyOrExpression` set them nowhere else. A `static` variable leaves no `Var` node, since
`addStaticVar` turns it into an assignment of the static constructor. -/
namespace Zeroscript

/-- The `bop` texts that survive into a `BinaryExpression`; `and` and `or` become calls earlier. -/
inductive BinaryOp where
  | dot
  | add
  | sub
  | mul
  | div
  | mod
  | less
  | lessOrEqual
  | greater
  | greaterOrEqual
  | equal
  | notEqual
  | assign
  | addAssign
  | subAssign
  | mulAssign
  | divAssign
  | modAssign
  deriving DecidableEq, Repr

inductive PrefixOp where
  | plus
  | minus
  | increment
  | decrement
  | tilde
  | bang
  | throwing
  deriving DecidableEq, Repr

inductive PostfixOp where
  | increment
  | decrement
  deriving DecidableEq, Repr

/-- `TerminalExpression`: its `type` field picks the constructor, `data` is the text. -/
inductive Terminal where
  | identifier (data : String)
  | number (data : String)
  | string (data : String)
  deriving DecidableEq, Repr

inductive Expr where
  | terminal (t : Terminal)
  | prefixed (op : PrefixOp) (e : Expr)
  | postfixed (e : Expr) (op : PostfixOp)
  | methodCall (callee : Expr) (arguments : List Expr)
  | binary (op : BinaryOp) (left right : Expr)
  | empty
  deriving Repr

abbrev Expr.ident (x : String) : Expr := .terminal (.identifier x)

abbrev Expr.num (lit : String) : Expr := .terminal (.number lit)

abbrev Expr.str (lit : String) : Expr := .terminal (.string lit)

inductive Stmt where
  | expression (e : Expr) (hasReturn hasBreak hasContinue : Bool)
  | function (isStatic isAsync isPrivate : Bool) (identifier : String) (arguments : List String)
      (body : List Stmt)
  | var (identifier : String) (value : Expr) (isPrivate isSynchronized : Bool)
  | loop (startExpr condition iterExpr : Option Expr) (body : List Stmt)
  | block (body : List Stmt)
  | conditional (condition : Expr) (body : List Stmt) (elseBody : Option (List Stmt))
  | tryCatch (catchIdent : String) (tryBody catchBody : List Stmt)
      (finallyBody : Option (List Stmt))
  deriving Repr

abbrev Body := List Stmt

abbrev Stmt.eval (e : Expr) : Stmt := .expression e false false false

abbrev Stmt.ret (e : Expr) : Stmt := .expression e true false false

/-- `break;` carries an `EmptyExpression`. -/
abbrev Stmt.brk : Stmt := .expression .empty false true false

/-- `importsMap` is ordered by path, as `std::map` keeps it. The static constructor is the last
statement of `body`, where `AstGenerator` puts it. -/
structure ClassDeclaration where
  identifier : String
  arguments : List String
  body : Body
  importsMap : List (String × String)
  deriving Repr

end Zeroscript
