import Zeroscript.FunctionKind
import Zeroscript.Lib.Emitter

/-! # `ExpressionCompiler`

Each member of the C++ class is one definition; what it emits is the list in the result, what it
does to the register table is the state. A recursive call reaches a member as an argument. -/
namespace Zeroscript

open Emission (Emitter)

inductive Failure where
  | errorAndExit (message : String)
  /-- An uncaught C++ exception, a call with no defined result, or a read past an allocation. -/
  | undefinedBehaviour
  /-- The recursion over statements used up its bound. -/
  | outOfFuel
  deriving DecidableEq, Repr

abbrev Emit (β : Type) := Emitter FunctionKind Failure Instruction β

def addInstruction (opcode : Opcode) (r0 r1 r2 : Operand) : Emit Unit :=
  fun fk => .ok ((), fk, [⟨opcode, r0, r1, r2⟩])

def getRegister (ident : String) : Emit ℕ := fun fk => .ok (fk.getRegister ident, fk, [])

def getTemporary : Emit ℕ := fun fk =>
  match fk.getTemporary with
  | some (r, fk') => .ok (r, fk', [])
  | none => .error .undefinedBehaviour

def freeRegister (index : ℕ) : Emit Unit := fun fk => .ok ((), fk.freeRegister index, [])

/-- `if (condition) freeRegister(index);` -/
def freeRegisterIf (condition : Prop) [Decidable condition] (index : ℕ) : Emit Unit :=
  if condition then freeRegister index else pure ()

/-- `requested == 0 ? getRegister(NULL) : requested`. -/
def destinationOrTemporary (requested : ℕ) : Emit ℕ :=
  if requested = 0 then getTemporary else pure requested

/-- A compound assignment has no branch, and control flows off the end of `toOpcode`. -/
def toOpcode : BinaryOp → Option Opcode
  | .dot => some .GET_FIELD
  | .add => some .ADD
  | .sub => some .SUB
  | .mul => some .MUL
  | .div => some .DIV
  | .less => some .CMP_LESS
  | .lessOrEqual => some .CMP_LESS_OR_EQUAL
  | .greater => some .CMP_GREATER
  | .greaterOrEqual => some .CMP_GREATER_OR_EQUAL
  | .notEqual => some .CMP_N_EQUAL
  | .equal => some .CMP_EQUAL
  | .mod => some .MOD
  | .assign | .addAssign | .subAssign | .mulAssign | .divAssign | .modAssign => none

/-- The tail of `compilePostfix` and `compilePrefix`: an identifier with no register is written
back by a virtual set. -/
def writeBack (expr : Expr) (leftReg : ℕ) : Emit Unit :=
  match expr with
  | .terminal (.identifier data) => do
    let reg ← getRegister data
    if reg = 0 then
      let temp ← getTemporary
      addInstruction .MOV_STR (.num temp) (.str data) (.num 0)
      addInstruction .SET_FIELD (.num 1) (.num temp) (.num leftReg)
      freeRegister temp
    else pure ()
  | _ => pure ()

abbrev SubCompiler := ℕ → Bool → Emit ℕ

def compilePostfix (expr : Expr) (compileExpr : SubCompiler) (op : PostfixOp) (requested : ℕ) :
    Emit ℕ := do
  let leftReg ← compileExpr 0 false
  let target ← destinationOrTemporary requested
  addInstruction .MOV (.num target) (.num leftReg) (.num 0)
  match op with
  | .increment => addInstruction .INC (.num leftReg) (.num leftReg) (.num 0)
  | .decrement => addInstruction .DEC (.num leftReg) (.num leftReg) (.num 0)
  writeBack expr leftReg
  return target

def compileLiteral (opcode : Opcode) (data : String) (destination : ℕ) : Emit ℕ := do
  let reg ← destinationOrTemporary destination
  addInstruction opcode (.num reg) (.str data) (.num 0)
  return reg

def compilePrefix (expr : Expr) (compileExpr : SubCompiler) (op : PrefixOp) (requested : ℕ) :
    Emit ℕ := do
  let leftReg ← compileExpr 0 false
  let target ← destinationOrTemporary requested
  let reused := if requested = 0 then leftReg else requested
  match op with
  | .increment =>
    addInstruction .INC (.num leftReg) (.num reused) (.num 0)
    writeBack expr leftReg
    return reused
  | .decrement =>
    addInstruction .DEC (.num leftReg) (.num reused) (.num 0)
    writeBack expr leftReg
    return reused
  | .minus =>
    freeRegisterIf (requested = 0) target
    let rightReg ← compileLiteral .MOV_NUMBER "-1" 0
    addInstruction .MUL (.num leftReg) (.num rightReg) (.num reused)
    freeRegister rightReg
    return reused
  | .throwing =>
    freeRegisterIf (requested = 0) target
    addInstruction .THROW_EXCEPTION (.num leftReg) (.num 0) (.num 0)
    return target
  | .plus | .tilde | .bang =>
    writeBack expr leftReg
    return target

def compileIdentifier (identifier : String) (destination : ℕ) : Emit ℕ := do
  let reg ← getRegister identifier
  if reg = 0 then
    let temp ← destinationOrTemporary destination
    let strReg ← compileLiteral .MOV_STR identifier 0
    addInstruction .GET_FIELD (.num 1) (.num strReg) (.num temp)
    return temp
  else return reg

def compileIdentifierImmediate (identifier : String) (destination : ℕ) : Emit ℕ := do
  let reg ← getRegister identifier
  if reg = 0 then
    let temp ← destinationOrTemporary destination
    addInstruction .GET_FIELD_IMMEDIATE (.num 1) (.str identifier) (.num temp)
    return temp
  else return reg

def compileTerminal (t : Terminal) (destination : ℕ) (hasLookupObject : Bool) : Emit ℕ :=
  match t with
  | .identifier data =>
    if hasLookupObject then do
      let _ ← compileIdentifier data destination
      compileIdentifierImmediate data destination
    else compileIdentifierImmediate data destination
  | .number data => compileLiteral .MOV_NUMBER data destination
  | .string data => compileLiteral .MOV_STR data destination

def addOperation (op : BinaryOp) (leftReg rightReg resultReg : ℕ) : Emit Unit :=
  if op = .assign then pure ()
  else
    match toOpcode op with
    | some opcode => addInstruction opcode (.num leftReg) (.num rightReg) (.num resultReg)
    | none => Emission.fail .undefinedBehaviour

/-- The part of `compileBinary` after the assignments that leave early. -/
def compileOperands (op : BinaryOp) (compileLeft compileRight : SubCompiler) (destination : ℕ) :
    Emit ℕ := do
  let leftReg ← compileLeft 0 false
  let requested := if op = .assign then leftReg else 0
  let rightReg ← compileRight requested (op = .dot)
  let resultReg ← destinationOrTemporary destination
  addOperation op leftReg rightReg resultReg
  freeRegisterIf (rightReg ≠ resultReg) rightReg
  freeRegister leftReg
  return resultReg

/-- `x = e` where `x` has no register: a field write on `this`, with no result. -/
def compileOuterAssignment (ident : String) (compileRight : SubCompiler) : Emit ℕ := do
  let leftReg ← getTemporary
  addInstruction .MOV_STR (.num leftReg) (.str ident) (.num 0)
  let rightReg ← compileRight 0 false
  addInstruction .SET_FIELD (.num 1) (.num leftReg) (.num rightReg)
  return 0

def compileBinary (op : BinaryOp) (left : Expr) (compileLeft compileRight : SubCompiler)
    (compileDotForSetField : ℕ → Emit Unit) (destination : ℕ) : Emit ℕ :=
  match op, left with
  | .assign, .binary .dot _ _ => do
    let rightReg ← compileRight 0 false
    compileDotForSetField rightReg
    return rightReg
  | .assign, .binary _ _ _ => Emission.fail (.errorAndExit "left value expected")
  | .assign, .terminal (.identifier ident) => do
    let reg ← getRegister ident
    if reg = 0 then compileOuterAssignment ident compileRight
    else compileOperands .assign compileLeft compileRight destination
  | .assign, .terminal _ => Emission.fail (.errorAndExit "left value expected")
  | op, _ => compileOperands op compileLeft compileRight destination

def compileMethodCall (arity : ℕ) (compileArguments : ℕ → Emit ℕ) (compileCallee : SubCompiler)
    (destination : ℕ) : Emit ℕ := do
  let resultReg ← destinationOrTemporary destination
  let firstReg ← getTemporary
  let lastReg ← compileArguments firstReg
  freeRegister lastReg
  let calleeReg ← compileCallee 0 false
  addInstruction .CALL (.num calleeReg) (.num resultReg) (.num arity)
  freeRegister calleeReg
  return resultReg

mutual

def compileExpression : Expr → SubCompiler
  | .methodCall callee args, requested, _ =>
    compileMethodCall args.length (fun r => compileArguments args r)
      (fun d k => compileExpression callee d k) requested
  | .binary op left right, requested, _ =>
    compileBinary op left (fun d k => compileExpression left d k)
      (fun d k => compileExpression right d k) (fun r => compileDotForSetField left r) requested
  | .postfixed e op, requested, _ =>
    compilePostfix e (fun d k => compileExpression e d k) op requested
  | .prefixed op e, requested, _ =>
    compilePrefix e (fun d k => compileExpression e d k) op requested
  | .terminal t, requested, hasLookupObject => compileTerminal t requested hasLookupObject
  | .empty, _, _ => pure 0

/-- `left.right = result`, for a left-hand side that is an access. -/
def compileDotForSetField : Expr → ℕ → Emit Unit
  | .binary _ left right, result => do
    let leftReg ← compileExpression left 0 false
    let rightReg ← compileExpression right 0 false
    addInstruction .SET_FIELD (.num leftReg) (.num rightReg) (.num result)
  | _, _ => pure ()

/-- The argument loop of `compileMethodCall`, last argument first: the register that one argument
returns is requested as the destination of the next. -/
def compileArguments : List Expr → ℕ → Emit ℕ
  | [], exprResultReg => pure exprResultReg
  | e :: es, exprResultReg => do
    let later ← compileArguments es exprResultReg
    let reg ← compileExpression e later false
    addInstruction .PUSH (.num reg) (.num 0) (.num 0)
    return reg

end

end Zeroscript
