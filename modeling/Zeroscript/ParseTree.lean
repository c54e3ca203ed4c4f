import Zeroscript.Ast
import Zeroscript.Tokens

/-! # Parse trees

The contexts of the parser that ANTLR generates from `zeroscript.g4`, one constructor for each
alternative, and the tokens they are made of. -/
namespace Zeroscript

/-- The text of a token of a type. -/
structure Lexed (type : TokenType) where
  text : String
  lexeme : Token.Lexeme ⟨type, text.toList⟩

def Lexed.token {type : TokenType} (t : Lexed type) : Token := ⟨type, t.text.toList⟩

abbrev Identifier := Lexed .IDENT

inductive NumberContext where
  | INT (t : Lexed .INT)
  | DECIMAL (t : Lexed .DECIMAL)
  | FALSE_
  | TRUE_
  | NULL_

/-- The operators with the label `bop`. -/
inductive Bop where
  | and
  | or
  | binary (op : BinaryOp)
  deriving DecidableEq, Repr

abbrev PrefixToken := { op : PrefixOp // op ≠ .throwing }

inductive ShiftOp where
  | left
  | unsignedRight
  | right
  deriving DecidableEq, Repr

inductive FunctionKeyword where
  | none
  | STATIC
  | ASYNC
  deriving DecidableEq, Repr

inductive VarKeyword where
  | none
  | STATIC
  | TSHARED
  deriving DecidableEq, Repr

mutual

inductive ExpressionContext where
  | newObject (expression : ExpressionContext)
  | parentheses (expression : ExpressionContext)
  | identifier (x : Identifier)
  | string (s : Lexed .STRING)
  | number (n : NumberContext)
  | jsonObject (pairs : List JsonPairContext)
  | jsonArray (elements : List ExpressionContext)
  | bop (left : ExpressionContext) (op : Bop) (right : ExpressionContext)
  | arrayIndexer (left right : ExpressionContext)
  | methodCall (callee : ExpressionContext) (arguments : List ExpressionContext)
  | postfixed (left : ExpressionContext) (op : PostfixOp)
  | prefixed (op : PrefixToken) (right : ExpressionContext)
  | shift (left : ExpressionContext) (op : ShiftOp) (right : ExpressionContext)
  | function (arguments : List Identifier) (body : List StatementContext)
  | lambda (arguments : List Identifier) (body : BodyOrExpressionContext)
  | lambdaOf (argument : Identifier) (body : BodyOrExpressionContext)

inductive JsonPairContext where
  | pair (key value : ExpressionContext)

inductive BodyOrExpressionContext where
  | body (body : List StatementContext)
  | expression (expression : ExpressionContext)

inductive StatementContext where
  | semicolon
  | body (body : List StatementContext)
  | var (var : VarContext)
  | function (isPrivate : Bool) (keyword : FunctionKeyword) (hasFunc : Bool) (name : Identifier)
      (arguments : List Identifier) (body : List StatementContext)
  | expression (expression : ExpressionContext)
  | forLoop (init : ForInitContext) (condition step : Option ExpressionContext) (body : BodyOrStatementContext)
  | whileLoop (condition : Option ExpressionContext) (body : BodyOrStatementContext)
  | forInLoop (iterElement : Option Identifier) (expression : ExpressionContext) (body : BodyOrStatementContext)
  | conditional (condition : ExpressionContext) (body : BodyOrStatementContext)
      (elseBody : Option BodyOrStatementContext)
  | tryCatch (tryBody : List StatementContext) (identifier : Identifier) (catchBody : List StatementContext)
      (finallyBody : Option (List StatementContext))
  | throwing (expression : ExpressionContext)
  | breaking
  | continuing
  | returning (expression : ExpressionContext)

inductive ForInitContext where
  | none
  | expression (expression : ExpressionContext)
  | var (var : VarContext)

inductive VarContext where
  | var (isPrivate : Bool) (keyword : VarKeyword) (first : VariableDeclarationPartContext)
      (more : List VariableDeclarationPartContext)

inductive VariableDeclarationPartContext where
  | part (name : Identifier) (value : Option ExpressionContext)

inductive BodyOrStatementContext where
  | body (body : List StatementContext)
  | statement (statement : StatementContext)

end

abbrev BodyContext := List StatementContext

structure ImportContext where
  path : Lexed .STRING
  name : Identifier

/-- `extends` and its class are never looked at. -/
structure ClassDeclarationContext where
  imports : List ImportContext
  className : Identifier
  arguments : Option (List Identifier)
  body : BodyContext

def fixed (text : String) : Token := ⟨.fixed, text.toList⟩

def BinaryOp.text : BinaryOp → String
  | .dot => "."
  | .add => "+"
  | .sub => "-"
  | .mul => "*"
  | .div => "/"
  | .mod => "%"
  | .less => "<"
  | .lessOrEqual => "<="
  | .greater => ">"
  | .greaterOrEqual => ">="
  | .equal => "=="
  | .notEqual => "!="
  | .assign => "="
  | .addAssign => "+="
  | .subAssign => "-="
  | .mulAssign => "*="
  | .divAssign => "/="
  | .modAssign => "%="

def Bop.text : Bop → String
  | .and => "and"
  | .or => "or"
  | .binary op => op.text

def PrefixOp.text : PrefixOp → String
  | .plus => "+"
  | .minus => "-"
  | .increment => "++"
  | .decrement => "--"
  | .tilde => "~"
  | .bang => "!"
  | .throwing => "throw"

def PostfixOp.text : PostfixOp → String
  | .increment => "++"
  | .decrement => "--"

def ShiftOp.tokens : ShiftOp → List Token
  | .left => [fixed "<", fixed "<"]
  | .unsignedRight => [fixed ">", fixed ">", fixed ">"]
  | .right => [fixed ">", fixed ">"]

def NumberContext.token : NumberContext → Token
  | .INT t => t.token
  | .DECIMAL t => t.token
  | .FALSE_ => fixed "false"
  | .TRUE_ => fixed "true"
  | .NULL_ => fixed "null"

def FunctionKeyword.tokens : FunctionKeyword → List Token
  | .none => []
  | .STATIC => [fixed "static"]
  | .ASYNC => [fixed "async"]

def VarKeyword.tokens : VarKeyword → List Token
  | .none => []
  | .STATIC => [fixed "static"]
  | .TSHARED => [fixed "tshared"]

def keywordIf (b : Bool) (text : String) : List Token := if b then [fixed text] else []

def separated : List (List Token) → List Token
  | [] => []
  | [tokens] => tokens
  | tokens :: tokens' :: more => tokens ++ fixed "," :: separated (tokens' :: more)

def identifierTokens (names : List Identifier) : List Token := separated (names.map fun x => [x.token])

mutual

def ExpressionContext.tokens : ExpressionContext → List Token
  | .newObject e => fixed "new" :: e.tokens
  | .parentheses e => fixed "(" :: e.tokens ++ [fixed ")"]
  | .identifier x => [x.token]
  | .string s => [s.token]
  | .number n => [n.token]
  | .jsonObject pairs => fixed "\x7b" :: separated (pairTokens pairs) ++ [fixed "\x7d"]
  | .jsonArray elements => fixed "[" :: separated (expressionTokens elements) ++ [fixed "]"]
  | .bop left op right => left.tokens ++ fixed op.text :: right.tokens
  | .arrayIndexer left right => left.tokens ++ fixed "[" :: right.tokens ++ [fixed "]"]
  | .methodCall callee arguments =>
    callee.tokens ++ fixed "(" :: separated (expressionTokens arguments) ++ [fixed ")"]
  | .postfixed left op => left.tokens ++ [fixed op.text]
  | .prefixed op right => fixed op.1.text :: right.tokens
  | .shift left op right => left.tokens ++ op.tokens ++ right.tokens
  | .function arguments body =>
    fixed "function" :: fixed "(" :: identifierTokens arguments ++ fixed ")" :: fixed "\x7b" :: bodyTokens body ++
      [fixed "\x7d"]
  | .lambda arguments body =>
    fixed "(" :: identifierTokens arguments ++ fixed ")" :: fixed "=>" :: body.tokens
  | .lambdaOf argument body => argument.token :: fixed "=>" :: body.tokens

def expressionTokens : List ExpressionContext → List (List Token)
  | [] => []
  | e :: es => e.tokens :: expressionTokens es

def pairTokens : List JsonPairContext → List (List Token)
  | [] => []
  | .pair key value :: pairs => (key.tokens ++ fixed ":" :: value.tokens) :: pairTokens pairs

def BodyOrExpressionContext.tokens : BodyOrExpressionContext → List Token
  | .body body => fixed "\x7b" :: bodyTokens body ++ [fixed "\x7d"]
  | .expression e => e.tokens

def StatementContext.tokens : StatementContext → List Token
  | .semicolon => [fixed ";"]
  | .body body => fixed "\x7b" :: bodyTokens body ++ [fixed "\x7d"]
  | .var var => var.tokens
  | .function isPrivate keyword hasFunc name arguments body =>
    keywordIf isPrivate "private" ++ keyword.tokens ++ keywordIf hasFunc "function" ++ name.token :: fixed "(" ::
      identifierTokens arguments ++ fixed ")" :: fixed "\x7b" :: bodyTokens body ++ [fixed "\x7d"]
  | .expression e => e.tokens ++ [fixed ";"]
  | .forLoop init condition step body =>
    fixed "for" :: fixed "(" :: init.tokens ++ fixed ";" :: optionTokens condition ++ fixed ";" ::
      optionTokens step ++ fixed ")" :: body.tokens
  | .whileLoop condition body => fixed "while" :: fixed "(" :: optionTokens condition ++ fixed ")" :: body.tokens
  | .forInLoop iterElement e body =>
    fixed "for" :: fixed "(" :: fixed "var" :: (iterElement.toList.map Lexed.token) ++ fixed "in" :: e.tokens ++
      fixed ")" :: body.tokens
  | .conditional condition body none => fixed "if" :: fixed "(" :: condition.tokens ++ fixed ")" :: body.tokens
  | .conditional condition body (some elseBody) =>
    fixed "if" :: fixed "(" :: condition.tokens ++ fixed ")" :: body.tokens ++ fixed "else" :: elseBody.tokens
  | .tryCatch tryBody identifier catchBody none =>
    fixed "try" :: fixed "\x7b" :: bodyTokens tryBody ++ fixed "\x7d" :: fixed "catch" :: fixed "(" :: identifier.token ::
      fixed ")" :: fixed "\x7b" :: bodyTokens catchBody ++ [fixed "\x7d"]
  | .tryCatch tryBody identifier catchBody (some finallyBody) =>
    fixed "try" :: fixed "\x7b" :: bodyTokens tryBody ++ fixed "\x7d" :: fixed "catch" :: fixed "(" :: identifier.token ::
      fixed ")" :: fixed "\x7b" :: bodyTokens catchBody ++ fixed "\x7d" :: fixed "finally" :: fixed "\x7b" ::
      bodyTokens finallyBody ++ [fixed "\x7d"]
  | .throwing e => fixed "throw" :: e.tokens ++ [fixed ";"]
  | .breaking => [fixed "break", fixed ";"]
  | .continuing => [fixed "continue", fixed ";"]
  | .returning e => fixed "return" :: e.tokens ++ [fixed ";"]

def bodyTokens : List StatementContext → List Token
  | [] => []
  | s :: rest => s.tokens ++ bodyTokens rest

def optionTokens : Option ExpressionContext → List Token
  | none => []
  | some e => e.tokens

def ForInitContext.tokens : ForInitContext → List Token
  | .none => []
  | .expression e => e.tokens
  | .var var => var.tokens

def VarContext.tokens : VarContext → List Token
  | .var isPrivate keyword first more =>
    keywordIf isPrivate "private" ++ keyword.tokens ++ fixed "var" :: separated (first.tokens :: partTokens more)

def partTokens : List VariableDeclarationPartContext → List (List Token)
  | [] => []
  | part :: parts => part.tokens :: partTokens parts

def VariableDeclarationPartContext.tokens : VariableDeclarationPartContext → List Token
  | .part name none => [name.token]
  | .part name (some e) => name.token :: fixed "=" :: e.tokens

def BodyOrStatementContext.tokens : BodyOrStatementContext → List Token
  | .body body => fixed "\x7b" :: bodyTokens body ++ [fixed "\x7d"]
  | .statement statement => statement.tokens

end

end Zeroscript
