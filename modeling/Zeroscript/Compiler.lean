import Zeroscript.AddressCalculator
import Zeroscript.ExpressionCompiler

/-! # `Compiler`

Statements, functions and classes. The recursion is bounded: a `return` inside a `finally` body
prepends that very body again, so that the compiler never comes back. A node is named by its
position, since a `finally` body is compiled once for every `return` it is prepended to, and the
temporaries of a function declared in it are kept from one time to the next. -/
namespace Zeroscript

open Emission (Emitter)

/-- A `Function` that waits in `functionsToCompile`. `addressed` says whether `AddressCalculator`
has visited it. -/
structure FunctionNode where
  path : List ℕ
  addressed : Bool
  isStatic : Bool
  isAsync : Bool
  identifier : String
  arguments : List String
  body : Body

/-- `function` is the top of `functionsStack`. `registerTables` keeps the temporaries of the functions
already compiled, by position and symbol table. -/
structure CompilerState where
  function : FunctionKind
  functionsToCompile : List FunctionNode := []
  labelCount : ℕ := 0
  compiledStaticFunctions : List String := []
  registerTables : List ((List ℕ × List (String × ℕ)) × List (ℕ × Bool)) := []

/-- What surrounds a statement: `loopEndLabelsStack`, top first, and the bodies of
`finallyBlocksToPrependReturn`, outermost first. -/
structure Context where
  path : List ℕ
  addressed : Bool
  loopEndLabels : List String
  finallyBlocks : List (List ℕ × Body)

abbrev Compile (β : Type) := Emitter CompilerState Failure Instruction β

namespace Compiler

/-- A computation on the register table of the current function. -/
def onFunction {β : Type} (m : Emit β) : Compile β := fun s =>
  match m s.function with
  | .error e => .error e
  | .ok (b, function, code) => .ok (b, { s with function := function }, code)

def compileExpression (e : Expr) (requested : ℕ) : Compile ℕ :=
  onFunction (Zeroscript.compileExpression e requested false)

def getRegister (ident : String) : Compile ℕ := onFunction (Zeroscript.getRegister ident)

def getTemporary : Compile ℕ := onFunction Zeroscript.getTemporary

def freeRegister (index : ℕ) : Compile Unit := onFunction (Zeroscript.freeRegister index)

def addInstruction (opcode : Opcode) (r0 r1 r2 : Operand) : Compile Unit :=
  fun s => .ok ((), s, [⟨opcode, r0, r1, r2⟩])

def truncate (length : ℕ) (text : String) : String := String.ofList (text.toList.take length)

/-- `vsnprintf` into 99 bytes. -/
def addLabel (label : String) : Compile Unit :=
  addInstruction .LABEL (.str (truncate 98 label)) (.num 0) (.num 0)

/-- `sprintf(label, "….%d", ++labelCount)`. -/
def freshLabel (stem : String) : Compile String := fun s =>
  .ok (stem ++ toString (s.labelCount + 1), { s with labelCount := s.labelCount + 1 }, [])

def flag (b : Bool) : Operand := .num (if b then 1 else 0)

def addFunctionToCompileLater (node : FunctionNode) : Compile Unit := fun s =>
  .ok ((), { s with functionsToCompile := s.functionsToCompile ++ [node] }, [])

def registerStatic (identifier : String) : Compile Unit := fun s =>
  .ok ((), { s with compiledStaticFunctions := s.compiledStaticFunctions ++ [identifier] }, [])

def staticFunctions : Compile (List String) := fun s => .ok (s.compiledStaticFunctions, s, [])

def remainingFunctions : Compile (List FunctionNode) := fun s => .ok (s.functionsToCompile, s, [])

def forEach {γ : Type} (f : γ → Compile Unit) : List γ → Compile Unit
  | [] => pure ()
  | x :: xs => do
    f x
    forEach f xs

/-- The hoisting loop of `compileBody`. -/
def hoist : Stmt → Compile Unit
  | .function _ isAsync _ identifier _ _ => do
    let reg ← getRegister identifier
    addInstruction .MOV_FNC (.num reg) (.str identifier) (flag isAsync)
  | _ => pure ()

def compileStatements (compileStmt : Context → Stmt → Compile Unit) (context : Context) :
    ℕ → Body → Compile Unit
  | _, [] => pure ()
  | i, stmt :: rest => do
    compileStmt { context with path := i :: context.path } stmt
    compileStatements compileStmt context (i + 1) rest

def compileBody (compileStmt : Context → Stmt → Compile Unit) (context : Context) (body : Body) :
    Compile Unit := do
  forEach hoist body
  compileStatements compileStmt context 0 body

/-- An expression whose value nobody takes. -/
def compileDiscarded : Option Expr → Compile Unit
  | none => pure ()
  | some e => do
    let reg ← compileExpression e 0
    freeRegister reg

def compileLoop (compileStmt : Context → Stmt → Compile Unit) (context : Context)
    (startExpr condition iterExpr : Option Expr) (body : Body) : Compile Unit := do
  let lstart ← freshLabel ".lstart_"
  let lend ← freshLabel ".lend_"
  let lcond ← freshLabel ".lcond_"
  compileDiscarded startExpr
  addInstruction .JMP (.str lcond) (.num 0) (.num 0)
  addLabel lstart
  compileBody compileStmt { context with loopEndLabels := lend :: context.loopEndLabels } body
  compileDiscarded iterExpr
  addLabel lcond
  match condition with
  | none => addLabel lend
  | some condition =>
    let condReg ← compileExpression condition 0
    addInstruction .JMP_TRUE (.num condReg) (.str lstart) (.num 0)
    freeRegister condReg
    addLabel lend

def compileConditional (compileStmt : Context → Stmt → Compile Unit) (context : Context)
    (condition : Expr) (body : Body) (elseBody : Option Body) : Compile Unit := do
  let ifFail ← freshLabel ".else_"
  let conEnd ← freshLabel ".end_cond_"
  let condReg ← compileExpression condition 0
  addInstruction .JMP_NOT_TRUE (.num condReg) (.str ifFail) (.num 0)
  freeRegister condReg
  compileBody compileStmt { context with path := 0 :: context.path } body
  match elseBody with
  | none =>
    addLabel ifFail
    addLabel conEnd
  | some elseBody =>
    addInstruction .JMP (.str conEnd) (.num 0) (.num 0)
    addLabel ifFail
    compileBody compileStmt { context with path := 1 :: context.path } elseBody
    addLabel conEnd

def compileVar (identifier : String) (value : Expr) (isSynchronized : Bool) : Compile Unit := do
  let reg ← getRegister identifier
  let valueReg ← compileExpression value reg
  if isSynchronized then
    let tempReg ← getTemporary
    addInstruction .MOV_STR (.num tempReg) (.str identifier) (.num 0)
    addInstruction .SET_FIELD (.num 1) (.num tempReg) (.num valueReg)
    freeRegister tempReg
  else if valueReg ≠ reg then
    addInstruction .MOV (.num reg) (.num valueReg) (.num 0)
    freeRegister valueReg
  else pure ()

/-- The context of a body of a `try` statement: inside it `AddressCalculator` has seen nothing. -/
def tryContext (context : Context) (i : ℕ) (finallyBody : Option Body) : Context :=
  { context with
    path := i :: context.path
    addressed := false
    finallyBlocks := context.finallyBlocks ++
      (finallyBody.map fun body => (2 :: context.path, body)).toList }

def compileTryCatch (compileStmt : Context → Stmt → Compile Unit) (context : Context)
    (catchIdent : String) (tryBody catchBody : Body) (finallyBody : Option Body) :
    Compile Unit := do
  let catchLabel ← freshLabel ".catch_"
  let finallyLabel ← freshLabel ".finally_"
  addInstruction .SET_CATCH (.str catchLabel) (.str finallyLabel) (.num 0)
  compileBody compileStmt (tryContext context 0 finallyBody) tryBody
  addInstruction .JMP (.str finallyLabel) (.num 0) (.num 0)
  addLabel catchLabel
  let exceptionInfoRegister ← getRegister catchIdent
  addInstruction .POP (.num exceptionInfoRegister) (.num 0) (.num 0)
  compileBody compileStmt (tryContext context 1 finallyBody) catchBody
  addLabel finallyLabel
  match finallyBody with
  | none => addInstruction .CLEAR_CATCH (.num 0) (.num 0) (.num 0)
  | some body =>
    compileBody compileStmt (tryContext context 2 finallyBody) body
    addInstruction .CLEAR_CATCH (.num 0) (.num 0) (.num 0)

/-- `return`: every `finally` body around it, outermost first, then the instruction. -/
def compileReturn (compileStmt : Context → Stmt → Compile Unit) (context : Context) (reg : ℕ) :
    Compile Unit := do
  forEach (fun block =>
    compileBody compileStmt { context with path := block.1, addressed := false } block.2)
    context.finallyBlocks
  addInstruction .RETURN (.num reg) (.num 0) (.num 0)

/-- `JMP loopEndLabelsStack->top()`. -/
def compileBreak (context : Context) : Compile Unit :=
  match context.loopEndLabels with
  | [] => Emission.fail .undefinedBehaviour
  | lend :: _ => addInstruction .JMP (.str lend) (.num 0) (.num 0)

/-- A statement that is an expression. `hasContinue` is never looked at. -/
def compileExpressionStmt (compileStmt : Context → Stmt → Compile Unit) (context : Context)
    (e : Expr) (hasReturn hasBreak : Bool) : Compile Unit := do
  if hasBreak then compileBreak context else pure ()
  let reg ← compileExpression e 0
  if hasReturn then compileReturn compileStmt context reg else pure ()
  freeRegister reg

def compileStmt : ℕ → Context → Stmt → Compile Unit
  | 0, _, _ => Emission.fail .outOfFuel
  | fuel + 1, context, stmt =>
    match stmt with
    | .expression e hasReturn hasBreak _ =>
      compileExpressionStmt (compileStmt fuel) context e hasReturn hasBreak
    | .function isStatic isAsync _ identifier arguments body =>
      addFunctionToCompileLater
        ⟨context.path, context.addressed, isStatic, isAsync, identifier, arguments, body⟩
    | .var identifier value _ isSynchronized => compileVar identifier value isSynchronized
    | .loop startExpr condition iterExpr body =>
      compileLoop (compileStmt fuel) context startExpr condition iterExpr body
    | .block body => compileBody (compileStmt fuel) context body
    | .conditional condition body elseBody =>
      compileConditional (compileStmt fuel) context condition body elseBody
    | .tryCatch catchIdent tryBody catchBody finallyBody =>
      compileTryCatch (compileStmt fuel) context catchIdent tryBody catchBody finallyBody

/-- `FFRAME` is emitted first, and gets its operands when the function is finished. -/
def framed (identifier : String) (body : Compile Unit) : Compile Unit := fun s =>
  match body s with
  | .error e => .error e
  | .ok (_, s', code) =>
    let locals := s'.function.registerTable.length + s'.function.symbolTable.length
    .ok ((), s', ⟨.LABEL, .str (truncate 98 identifier), .num 0, .num 0⟩ ::
      ⟨.FFRAME, .num locals, .symbols s'.function.symbolInfo, .str (truncate 99 ("end" ++ identifier))⟩ ::
      code)

/-- The tables that a function node has when its compilation starts. -/
def FunctionNode.kind (node : FunctionNode) (s : CompilerState) : FunctionKind :=
  let fk := if node.addressed then calculateFunction node.identifier node.arguments node.body else {}
  { fk with registerTable := (s.registerTables.lookup (node.path, fk.symbolTable)).getD [] }

/-- `functionsStack->push(func)` … `functionsStack->pop()`. -/
def inFunction (node : FunctionNode) (body : Compile Unit) : Compile Unit := fun s =>
  match body { s with
      function := FunctionNode.kind node s
      functionsToCompile := [] } with
  | .error e => .error e
  | .ok (_, s', code) =>
    .ok ((), { s' with
      function := s.function
      functionsToCompile := s.functionsToCompile
      registerTables :=
        ((node.path, s'.function.symbolTable), s'.function.registerTable) :: s'.registerTables }, code)

/-- What the static constructor does before its body: imports, and the static functions compiled so
far become static variables. -/
def compileStaticPrologue (importsMap : List (String × String)) : Compile Unit := do
  forEach (fun elem => addInstruction .IMPORT_CLS (.str elem.1) (.str elem.2) (.num 0)) importsMap
  let staticsRegister ← getTemporary
  addInstruction .GET_FIELD_IMMEDIATE (.num 1) (.str "__static__") (.num staticsRegister)
  let fncNameRegister ← getTemporary
  let fncRefRegister ← getTemporary
  let names ← staticFunctions
  forEach (fun fncName => do
    addInstruction .MOV_FNC (.num fncRefRegister) (.str fncName) (.num 0)
    addInstruction .MOV_STR (.num fncNameRegister) (.str fncName) (.num 0)
    addInstruction .SET_FIELD (.num staticsRegister) (.num fncNameRegister) (.num fncRefRegister))
    names

def functionContext (path : List ℕ) (addressed : Bool) : Context := ⟨path, addressed, [], []⟩

/-- The part of `compileFunction` between `FFRAME` and the patching of it. -/
def compileFunctionBody (importsMap : List (String × String)) (fuel : ℕ)
    (compileFunction : FunctionNode → Compile Unit) (node : FunctionNode) : Compile Unit := do
  let reg ← getRegister node.identifier
  addInstruction .MOV_FNC (.num reg) (.str node.identifier) (flag node.isAsync)
  if node.identifier = "__static__constructor__" then compileStaticPrologue importsMap
  else if node.isStatic then registerStatic node.identifier
  else pure ()
  compileBody (compileStmt fuel) (functionContext node.path node.addressed) node.body
  addInstruction .RETURN (.num 0) (.num 0) (.num 0)
  addLabel ("end" ++ node.identifier)
  let functions ← remainingFunctions
  forEach compileFunction functions

def compileFunction (importsMap : List (String × String)) : ℕ → FunctionNode → Compile Unit
  | 0, _ => Emission.fail .outOfFuel
  | fuel + 1, node =>
    inFunction node (framed node.identifier
      (compileFunctionBody importsMap fuel (compileFunction importsMap fuel) node))

def compileClassBody (fuel : ℕ) (cls : ClassDeclaration) : Compile Unit := do
  addInstruction .CREATE_THIS (.num 0) (.num 0) (.num 0)
  forEach (fun ident => do
    let identReg ← getRegister ident
    addInstruction .POP (.num identReg) (.num 0) (.num 0)) cls.arguments
  compileBody (compileStmt fuel) (functionContext [] true) cls.body
  addInstruction .RETURN (.num 0) (.num 0) (.num 0)
  addLabel ("end" ++ cls.identifier)
  let functions ← remainingFunctions
  forEach (compileFunction cls.importsMap fuel) functions

end Compiler

def compileClass (fuel : ℕ) (cls : ClassDeclaration) : Except Failure Code :=
  match Compiler.framed cls.identifier (Compiler.compileClassBody fuel cls)
      { function := calculateClass cls } with
  | .error e => .error e
  | .ok (_, _, code) => .ok code

end Zeroscript
