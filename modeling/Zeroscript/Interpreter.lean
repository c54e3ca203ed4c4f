import Zeroscript.CodeRun
import Zeroscript.Control
import Zeroscript.NativeFunctions

/-! # `interpreter/interpreter_dd.c`

An instruction first acts on the data, with control at hand to read, and then asks for an `Action`.
`none` stands for behaviour that C leaves undefined: a pointer that is not one, a stack index out of
range, a label that is not in the image. Instructions are atomic, and threads interleave. -/
namespace Zeroscript

def stackFileSize : ℤ := 1000

/-- The `OP_FFRAME` that a function address leads to: the address past it, and its symbols. -/
def frameAt (code : Code) (address : ℕ) : Option (ℕ × SymbolInfo) :=
  let labels := (code.drop address).takeWhile (·.opcode = .LABEL)
  match code[address + labels.length]? with
  | some ⟨.FFRAME, _, .symbols table, _⟩ => some (address + labels.length + 1, table)
  | _ => none

/-- What an instruction does to the data, `object_to_search_on`, and what it asks of control. -/
structure Effect (α : Type) where
  data : Data α
  objectToSearchOn : Addr
  action : Action

section

variable {α : Type} [NumOps α]

/-- The item at an index of a stack. -/
def Data.stackItem (d : Data α) (stack : StackId) (index : ℤ) : Option (Reg α) :=
  if 0 ≤ index ∧ index < stackFileSize then some (d.valueStacks stack index) else none

def Data.pushItem (d : Data α) (stack : StackId) (index : ℤ) (v : Reg α) : Option (Data α) :=
  if 0 ≤ index ∧ index < stackFileSize then some (d.setStack stack index v) else none

/-- The arguments `OP_FFRAME` pops, the first one first. -/
def Data.popArguments (d : Data α) (stack : StackId) (top : ℤ) (n : ℕ) : Option (List (Reg α)) :=
  (List.range n).mapM fun i => d.stackItem stack (top - i)

/-- `OP_FFRAME` in a new context: arguments from register 3 on, `this` from the root context. -/
def Data.enterFrame (d : Data α) (c parent root : ContextId) (symbols : SymbolInfo)
    (arguments : List (Reg α)) : Data α :=
  let regs := placeArguments arguments.length arguments
  let regs := match (d.contexts root).locals with
    | some rootRegs => Function.update regs 1 (rootRegs 1)
    | none => regs
  { d with contexts := Function.update d.contexts c ⟨parent, some regs, symbols⟩ }

def Data.newState (d : Data α) (s : StateId) (info : StateInfo) : Data α :=
  { d with states := Function.update d.states s info }

/-- A state with a map of synchronized variables of its own. -/
def Data.newOwnState (d : Data α) (s : StateId) (className : String) (code : Code)
    (root : ContextId) : Data α :=
  ({ d with synchronized := d.synchronized ++ [ZMap.new] }).newState s
    ⟨className, code, root, d.synchronized.length⟩

/-- `interpreter_throw_exception_from_str`, the part that makes an object of the message. -/
def Data.pushException (d : Data α) (stack : StackId) (index : ℤ) (message : String) :
    Option (Data α) :=
  let (d, value) := d.newReg .str (.string message 0)
  d.pushItem stack index value

def Data.detailedMessage (d : Data α) (s : StateId) (message : String) : String :=
  message ++ " \nclass:" ++ (d.states s).className

def Data.setDetails (d : Data α) (s : StateId) (details : String) : Data α :=
  { d with exceptionDetails := Function.update d.exceptionDetails s details }

def Data.finishLoad (d : Data α) : Resume → Data α
  | .load className path => d.addImport className className path
  | _ => d

/-- The text that names a field, `num_to_str` or `to_string`. -/
def Data.fieldName (d : Data α) (key : Reg α) : Option String := d.toText key

/-- `object_manager_get_or_load_type_info` of a class that is not known: the class is registered, and
a new state runs its static constructor. -/
def loadClass (classes : String → Option Code) (d : Data α) (k : ControlState) (searched : Addr)
    (className : String) (importsTable : ZMap String) : Option (Effect α) :=
  let path := (importsTable.get className).getD className
  match classes path with
  | none => some ⟨d, searched, .exit (some ("cannot find class or variable " ++ path))⟩
  | some code => do
    let address ← labelIndex code "__static__constructor__"
    let (entry, symbols) ← frameAt code address
    let d := d.setTypeInfo className { bytecodeStream := code }
    let d := d.newOwnState k.nextState className code k.nextContext
    let d := d.enterFrame k.nextContext 0 k.nextContext symbols []
    return ⟨d, searched, .load className path entry⟩

/-- The walk of `interpreter_get_field_virtual`, from the root context over the scopes around it, which
ends at `NULL`: the value of the field, with its flags. -/
def Data.findField (d : Data α) (name : String) : ℕ → ContextId → Option (Option (Reg α × MapFlags))
  | 0, _ => none
  | bound + 1, c =>
    let context := d.contexts c
    match context.locals with
    | none => if c = 0 then some none else none
    | some regs =>
      match (buildSymbolTable context.symbols).getFlags name with
      | some (index, flags) => some (some (regs index, flags))
      | none => Data.findField d name bound context.parentContext

/-- `interpreter_get_field_virtual`: the field, unless it is private to another class. -/
def Data.getFieldVirtual (d : Data α) (target our : StateId) (name : String) :
    Option (Option (Reg α)) := do
  let root := (d.states target).rootContext
  match ← d.findField name (root + 1) root with
  | some (value, flags) =>
    if flags.isPrivate ∧ (d.states our).className ≠ (d.states target).className then return none
    else return some value
  | none => return none

variable (classes : String → Option Code) (d : Data α) (k : ControlState) (a : Activation)

def Data.deliverTo (d : Data α) (a : Activation) (register : ℕ) (value : Reg α) : Effect α :=
  ⟨d.setReg a.currentContext register value, a.objectToSearchOn, .next⟩

/-- `SEARCH_THIS`: scopes, synchronized variables, static variables, and last a class. -/
def searchThis (name : String) (register : ℕ) : Option (Effect α) := do
  match ← d.findSlot name (a.currentContext + 1) a.currentContext with
  | some (c, index) => return d.deliverTo a register (d.regs c index)
  | none =>
    match (d.sharedOf a.state).get name with
    | some value => return d.deliverTo a register value
    | none =>
      match (d.typeInfo (d.states a.state).className).bind (·.staticVariables.get name) with
      | some value => return d.deliverTo a register value
      | none =>
        let (d, value) := d.newReg .classRef (.classRef name)
        return d.deliverTo a register value

/-- `fieldNameSet`, the part that `OP_GET_FIELD` and `OP_GET_FIELD_IMMEDIATE` share. -/
def getField (lookupObject : ℕ) (name : String) (register : ℕ) : Option (Effect α) :=
  let r0 := d.regs a.currentContext lookupObject
  match nativeFunctions.lookup name with
  | some f => some (d.deliverTo a register ⟨.nativeFunc, .native f⟩)
  | none =>
    if lookupObject = 1 then searchThis d a name register
    else
      match r0.type, r0.val with
      | .number, _ =>
        if NumOps.eq r0.number NumOps.zero || NumOps.eq r0.number NumOps.one then
          searchThis d a name register
        else some ⟨d, a.objectToSearchOn, .next⟩
      | _, .raw address => do
        let a := { a with objectToSearchOn := address }
        let fail (message : String) : Effect α := ⟨d, address, .raise message⟩
        match ← d.object r0 with
        | .classRef className =>
          match d.typeInfo className with
          | some info =>
            match info.staticVariables.get name with
            | some value => return d.deliverTo a register value
            | none => return fail "cannot read property"
          | none =>
            let own ← d.typeInfo (d.states a.state).className
            loadClass classes d k address className own.importsTable
        | .instanceObject target =>
          match ← d.getFieldVirtual target a.state name with
          | some value => return d.deliverTo a register value
          | none => return fail "cannot read property on object"
        | .json _ _ | .string _ _ =>
          match (← d.propertiesAt address).1.get name with
          | some value => return d.deliverTo a register value
          | none => return fail "cannot read property"
        | .functionRef .. => none
      | _, _ => none

/-- `interpreter_throw_exception_from_str` on the state of the instance written to, and
`interpreter_set_field_virtual` around it. -/
def setFieldVirtual (searched : Addr) (target : StateId) (name : String) (value : Reg α) :
    Option (Effect α) := do
  let root := (d.states target).rootContext
  let context := d.contexts root
  if context.locals.isNone then none
  let refuse (d : Data α) (message : String) : Option (Data α × String) :=
    match k.handler target with
    | some _ =>
      let c := k.states target
      (d.pushException c.stackStart (c.stackPtr + 1) message).map (·, message)
    | none =>
      let details := d.detailedMessage target message
      some (d.setDetails target details, details)
  match (buildSymbolTable context.symbols).getFlags name with
  | some (index, flags) =>
    if flags.isPrivate ∧ (d.states a.state).className ≠ (d.states target).className then
      let (d, _) ← refuse d "cannot set private property of object"
      return ⟨d.setReg root index value, searched, .reject target none⟩
    else return ⟨d.setReg root index value, searched, .write target⟩
  | none =>
    let (d, details) ← refuse d "no such property found on object"
    return ⟨d, searched, .reject target (some details)⟩

def setField (object : ℕ) (name : String) (value : Reg α) : Option (Effect α) := do
  let r0 := d.regs a.currentContext object
  let wrote (d : Data α) (searched : Addr) : Effect α := ⟨d, searched, .next⟩
  if object = 1 then
    match ← d.findSlot name (a.currentContext + 1) a.currentContext with
    | some (c, index) => return wrote (d.setReg c index value) a.objectToSearchOn
    | none => return wrote (d.setShared a.state name value) a.objectToSearchOn
  else
    match r0.type, r0.val with
    | .number, _ => return wrote d a.objectToSearchOn
    | _, .raw address =>
      match ← d.object r0 with
      | .classRef className =>
        let own := (d.states a.state).className
        if className = "__static__" then
          return wrote (d.setStatic own name value) a.objectToSearchOn
        else
          match d.typeInfo className with
          | some _ => return wrote (d.setStatic className name value) a.objectToSearchOn
          | none => loadClass classes d k a.objectToSearchOn className (← d.typeInfo own).importsTable
      | .instanceObject target => setFieldVirtual d k a address target name value
      | .json properties _ =>
        return wrote (d.setObject address (.json (properties.insert name value) 0)) address
      | .string text _ =>
        let d := { d with stringProperties := d.stringProperties.insert name value }
        return wrote (d.setObject address (.string text 0)) address
      | .functionRef .. => none
    | _, _ => none

/-- The call of a function: of this state, of another one, or on a thread of its own. -/
def callFunction (start : ℕ) (isAsync : Bool) (parent : ContextId) (target : StateId)
    (register n : ℕ) : Option (Effect α) := do
  let c := k.states a.state
  let arguments ← d.popArguments c.stackStart c.stackPtr n
  let d ← d.pushItem c.stackStart (c.stackPtr + 1) ⟨.number, .raw n⟩
  let info := d.states target
  let (entry, symbols) ← frameAt info.byteStream start
  if target ≠ a.state then
    if (k.states target).isRunning then
      let root := (k.states target).currentContext
      let d := d.newOwnState k.nextState info.className info.byteStream root
      let d := d.enterFrame k.nextContext parent root symbols arguments
      return ⟨d, a.objectToSearchOn, .callOther target true entry register n⟩
    else
      let d := d.enterFrame k.nextContext parent info.rootContext symbols arguments
      return ⟨d, a.objectToSearchOn, .callOther target false entry register n⟩
  else if isAsync then
    let d := { d with valueStacks := Function.update d.valueStacks k.nextStack (d.valueStacks c.stackStart) }
    let d := d.newState k.nextState { info with rootContext := k.nextContext }
    let d := d.enterFrame k.nextContext parent k.nextContext symbols arguments
    return ⟨d, a.objectToSearchOn, .callAsync entry n⟩
  else
    let d := d.enterFrame k.nextContext parent info.rootContext symbols arguments
    return ⟨d, a.objectToSearchOn, .callOwn entry register n⟩

/-- `object_new` of a class, in a state of its own on the caller's stack. -/
def construct (className : String) (register : ℕ) : Option (Effect α) := do
  let own ← d.typeInfo (d.states a.state).className
  match d.typeInfo className with
  | none => loadClass classes d k a.objectToSearchOn className own.importsTable
  | some info =>
    let c := k.states a.state
    let (d, value) := d.newReg .instanceObj (.instanceObject k.nextState)
    let d := d.setReg a.currentContext register value
    let d := d.newOwnState k.nextState className info.bytecodeStream k.nextContext
    let d ← d.pushItem c.stackStart (c.stackPtr + 1) ⟨.number, .raw 0⟩
    let (entry, symbols) ← frameAt info.bytecodeStream 0
    let d := d.enterFrame k.nextContext 0 k.nextContext symbols []
    return ⟨d, a.objectToSearchOn, .construct entry⟩

def call (callee register n : ℕ) : Option (Effect α) := do
  let r0 := d.regs a.currentContext callee
  match r0.type, r0.val with
  | .nativeFunc, .native f =>
    let c := k.states a.state
    let argument ← if f.arity = 0 then some .null else d.stackItem c.stackStart c.stackPtr
    let (d, result) ← d.callNative f argument a.objectToSearchOn a.currentContext register
    match result with
    | .returned => return ⟨d, a.objectToSearchOn, .native f.arity none⟩
    | .failed message => return ⟨d, a.objectToSearchOn, .native f.arity (some message)⟩
    | .exited => return ⟨d, a.objectToSearchOn, .exit none⟩
  | .functionRef, _ =>
    match ← d.object r0 with
    | .functionRef start isAsync parent target =>
      callFunction d k a start isAsync parent target register n
    | _ => none
  | .classRef, _ =>
    match ← d.object r0 with
    | .classRef className => construct classes d k a className register
    | _ => none
  | .nativeFunc, _ => none
  | _, _ => return ⟨d, a.objectToSearchOn, .raise "callee is not a function"⟩

/-- `OP_RETURN`, with what the caller of the activation does with the value when it ends. -/
def returnValue (rest : List Activation) (value : Reg α) : Effect α :=
  let link := k.links a.currentContext
  if link.returnContext = 0 then
    let d := { d with returnValues := Function.update d.returnValues a.state value }
    match a.resume, rest with
    | .method register, caller :: _ =>
      ⟨d.setReg caller.currentContext register value, a.objectToSearchOn, .ret⟩
    | resume, _ => ⟨d.finishLoad resume, a.objectToSearchOn, .ret⟩
  else
    ⟨d.setReg link.returnContext link.requestedReturnRegister value, a.objectToSearchOn, .ret⟩

/-- The instructions that are not local to the registers. -/
def effectOther (rest : List Activation) (i : Instruction) : Option (Effect α) :=
  let code := (d.states a.state).byteStream
  let regs := d.regs a.currentContext
  let c := k.states a.state
  let done (d : Data α) (action : Action) : Option (Effect α) := some ⟨d, a.objectToSearchOn, action⟩
  match i.opcode with
  | .MOV_STR =>
    let (d, value) := d.newReg .str (.string i.r1.text 0)
    some (d.deliverTo a i.r0.reg value)
  | .MOV_FNC => do
    let start ← labelIndex code i.r1.text
    let (d, value) := d.newReg .functionRef
      (.functionRef start (i.r2.reg != 0) a.currentContext a.state)
    return d.deliverTo a i.r0.reg value
  | .ADD => do
    let text := (← d.toText (regs i.r0.reg)) ++ (← d.toText (regs i.r1.reg))
    let (d, value) := d.newReg .str (.string text 0)
    return d.deliverTo a i.r2.reg value
  | .DIV => done d (.raise "divide by 0")
  | .GET_FIELD_IMMEDIATE => getField classes d k a i.r0.reg i.r1.text i.r2.reg
  | .GET_FIELD => do getField classes d k a i.r0.reg (← d.fieldName (regs i.r1.reg)) i.r2.reg
  | .SET_FIELD => do
    setField classes d k a i.r0.reg (← d.fieldName (regs i.r1.reg)) (regs i.r2.reg)
  | .CALL => call classes d k a i.r0.reg i.r1.reg i.r2.reg
  | .PUSH => do done (← d.pushItem c.stackStart (c.stackPtr + 1) (regs i.r0.reg)) .push
  | .POP => do
    let value ← d.stackItem c.stackStart c.stackPtr
    done (d.setReg a.currentContext i.r0.reg value) .pop
  | .RETURN => some (returnValue d k a rest (regs i.r0.reg))
  | .IMPORT_CLS => done (d.addImport (d.states a.state).className i.r1.text i.r0.text) .next
  | .THROW_EXCEPTION => do done d (.throwing (← d.toText (regs i.r0.reg)))
  | .SET_CATCH => do done d (.setCatch (← labelIndex code i.r0.text))
  | .CLEAR_CATCH => if (k.links a.currentContext).catches = [] then none else done d .clearCatch
  | .CREATE_THIS =>
    let (d, value) := d.newReg .instanceObj (.instanceObject a.state)
    some (d.deliverTo a 1 value)
  | .RETURN_I => done d .next
  | _ => none

def effect (rest : List Activation) (i : Instruction) : Option (Effect α) :=
  match execLocal i (d.regs a.currentContext) with
  | some (regs, .next) => some ⟨d.setRegs a.currentContext regs, a.objectToSearchOn, .next⟩
  | some (regs, .jump label) =>
    (labelIndex (d.states a.state).byteStream label).map fun address =>
      ⟨d.setRegs a.currentContext regs, a.objectToSearchOn, .jump address⟩
  | some (_, .leave) => none
  | none => effectOther classes d k a rest i

/-- What an exception leaves in the data: the details of every state it went out of, each made from
the last, and the message on the stack of the state that caught it. A state that had a handler has the
message on its stack too, and hands on the details it had. -/
def Data.deliver (d : Data α) (outcome : Outcome) (message : String) :
    List (StateId × Resume) → Option (Data α × String)
  | [] =>
    match outcome.caughtBy with
    | some s =>
      let c := outcome.control.states s
      (d.pushException c.stackStart c.stackPtr message).map (·, message)
    | none => some (d, message)
  | (s, resume) :: left =>
    if s ∈ outcome.broken then do
      let c := outcome.control.states s
      let d ← d.pushException c.stackStart c.stackPtr message
      Data.deliver (d.finishLoad resume) outcome (d.exceptionDetails s) left
    else
      let details := d.detailedMessage s message
      Data.deliver ((d.setDetails s details).finishLoad resume) outcome details left

/-- The process: data, control, the activations of every thread, and how it has ended. -/
structure Machine (α : Type) where
  data : Data α
  control : ControlState
  threads : List (List Activation)
  exited : Option (Option String) := none

def Machine.step (m : Machine α) (thread : ℕ) : Option (Machine α) := do
  if m.exited.isSome then none
  let activations ← m.threads[thread]?
  let a ← activations.head?
  let i ← (m.data.states a.state).byteStream[a.instructionPtr]?
  let e ← effect classes m.data m.control a activations.tail i
  let outcome := m.control.perform
    ({ a with objectToSearchOn := e.objectToSearchOn } :: activations.tail) e.action
  let (d, details) ← match outcome.raised with
    | some message => e.data.deliver outcome message outcome.left
    | none => some (e.data, "")
  return {
    data := d
    control := outcome.control
    threads := m.threads.set thread outcome.activations ++ outcome.spawned.toList.map ([·])
    exited := if outcome.left.any (·.2 == .root) then some (some details) else outcome.exited }

end

end Zeroscript
