import Zeroscript.Program

/-! # What a step can do

`Asks` says what an instruction can ask of control, with what it has done to the states by then. An
invariant of runs looks at the few kinds of steps, and at no instruction. -/
namespace Zeroscript

/-- The instructions that at most change data, or jump elsewhere under a condition. -/
def Opcode.passes : Opcode → Bool
  | .PUSH | .POP | .RETURN | .CALL | .SET_CATCH | .CLEAR_CATCH | .THROW_EXCEPTION | .JMP | .FFRAME =>
    false
  | _ => true

def Instruction.jumpLabel (i : Instruction) : Option String :=
  match i.opcode with
  | .JMP => some i.r0.text
  | .JMP_TRUE | .JMP_NOT_TRUE => some i.r1.text
  | opcode => if opcode.isCompareJump || opcode.isImmediateJump then some i.r2.text else none

def Opcode.raises : Opcode → Bool
  | .DIV | .GET_FIELD | .GET_FIELD_IMMEDIATE | .CALL => true
  | _ => false

def Opcode.loads : Opcode → Bool
  | .GET_FIELD | .GET_FIELD_IMMEDIATE | .SET_FIELD | .CALL => true
  | _ => false

section

variable {α : Type} [NumOps α]

inductive Asks (classes : String → Option Code) (d : Data α) (k : ControlState) (a : Activation)
    (i : Instruction) : Data α → Action → Prop where
  | next {d' : Data α} (hi : i.opcode.passes = true) (hs : d'.states = d.states) :
      Asks classes d k a i d' .next
  | jump {d' : Data α} {label : String} {address : ℕ} (hs : d'.states = d.states)
      (hlabel : i.jumpLabel = some label)
      (haddress : labelIndex (d.states a.state).byteStream label = some address) :
      Asks classes d k a i d' (.jump address)
  | push {d' : Data α} (hi : i.opcode = .PUSH) (hs : d'.states = d.states) :
      Asks classes d k a i d' .push
  | pop {d' : Data α} (hi : i.opcode = .POP) (hs : d'.states = d.states) :
      Asks classes d k a i d' .pop
  | native {d' : Data α} {f : Native} {error : Option String} (hi : i.opcode = .CALL)
      (hf : d.regs a.currentContext i.r0.reg = ⟨.nativeFunc, .native f⟩) (hs : d'.states = d.states) :
      Asks classes d k a i d' (.native f.arity error)
  | raise {message : String} (hi : i.opcode.raises = true) : Asks classes d k a i d (.raise message)
  | throwing {message : String} (hi : i.opcode = .THROW_EXCEPTION) :
      Asks classes d k a i d (.throwing message)
  | setCatch {address : ℕ} (hi : i.opcode = .SET_CATCH)
      (haddress : labelIndex (d.states a.state).byteStream i.r0.text = some address) :
      Asks classes d k a i d (.setCatch address)
  | clearCatch (hi : i.opcode = .CLEAR_CATCH) (hc : (k.links a.currentContext).catches ≠ []) :
      Asks classes d k a i d .clearCatch
  | ret {d' : Data α} (hi : i.opcode = .RETURN) (hs : d'.states = d.states) :
      Asks classes d k a i d' .ret
  | callOwn {d' : Data α} {start entry : ℕ} {symbols : SymbolInfo} (hi : i.opcode = .CALL)
      (hs : d'.states = d.states)
      (hentry : frameAt (d.states a.state).byteStream start = some (entry, symbols)) :
      Asks classes d k a i d' (.callOwn entry i.r1.reg i.r2.reg)
  | callAsync {d' : Data α} {start entry : ℕ} {symbols : SymbolInfo} (hi : i.opcode = .CALL)
      (hs : d'.states = Function.update d.states k.nextState
        { d.states a.state with rootContext := k.nextContext })
      (hentry : frameAt (d.states a.state).byteStream start = some (entry, symbols)) :
      Asks classes d k a i d' (.callAsync entry i.r2.reg)
  | callOther {d' : Data α} {target : StateId} {start entry : ℕ} {symbols : SymbolInfo}
      (hi : i.opcode = .CALL) (hne : target ≠ a.state)
      (hidle : (k.states target).isRunning = false) (hs : d'.states = d.states)
      (hentry : frameAt (d.states target).byteStream start = some (entry, symbols)) :
      Asks classes d k a i d' (.callOther target false entry i.r1.reg i.r2.reg)
  | callClone {d' : Data α} {target : StateId} {info : StateInfo} {start entry : ℕ}
      {symbols : SymbolInfo} (hi : i.opcode = .CALL) (hne : target ≠ a.state)
      (hbusy : (k.states target).isRunning = true)
      (hs : d'.states = Function.update d.states k.nextState info)
      (hinfo : info.byteStream = (d.states target).byteStream)
      (hentry : frameAt (d.states target).byteStream start = some (entry, symbols)) :
      Asks classes d k a i d' (.callOther target true entry i.r1.reg i.r2.reg)
  | construct {d' : Data α} {className : String} {typeInfo : TypeInfo α} {info : StateInfo}
      {entry : ℕ} {symbols : SymbolInfo} (hi : i.opcode = .CALL)
      (htype : d.typeInfo className = some typeInfo)
      (hs : d'.states = Function.update d.states k.nextState info)
      (hinfo : info.byteStream = typeInfo.bytecodeStream)
      (hentry : frameAt typeInfo.bytecodeStream 0 = some (entry, symbols)) :
      Asks classes d k a i d' (.construct entry)
  | load {d' : Data α} {className path : String} {code : Code} {info : StateInfo} {start entry : ℕ}
      {symbols : SymbolInfo} (hi : i.opcode.loads = true) (hclass : classes path = some code)
      (hs : d'.states = Function.update d.states k.nextState info) (hinfo : info.byteStream = code)
      (hentry : frameAt code start = some (entry, symbols)) :
      Asks classes d k a i d' (.load className path entry)
  | write {d' : Data α} {target : StateId} (hi : i.opcode = .SET_FIELD)
      (hobject : d.object (d.regs a.currentContext i.r0.reg) = some (.instanceObject target))
      (hs : d'.states = d.states) : Asks classes d k a i d' (.write target)
  | reject {d' : Data α} {target : StateId} {again : Option String} (hi : i.opcode = .SET_FIELD)
      (hobject : d.object (d.regs a.currentContext i.r0.reg) = some (.instanceObject target))
      (hs : d'.states = d.states) : Asks classes d k a i d' (.reject target again)
  | exit {d' : Data α} {message : Option String} (hs : d'.states = d.states) :
      Asks classes d k a i d' (.exit message)

end

section

variable {α : Type} (d : Data α)

@[simp] theorem states_setRegs (c : ContextId) (regs : Regs α) : (d.setRegs c regs).states = d.states :=
  rfl

@[simp] theorem states_newReg (type : RegType) (o : Object α) : (d.newReg type o).1.states = d.states :=
  rfl

@[simp] theorem states_setShared (s : StateId) (name : String) (v : Reg α) :
    (d.setShared s name v).states = d.states := rfl

@[simp] theorem states_setStatic (className name : String) (v : Reg α) :
    (d.setStatic className name v).states = d.states := by
  unfold Data.setStatic
  split <;> rfl

@[simp] theorem states_addImport (className shortName path : String) :
    (d.addImport className shortName path).states = d.states := by
  unfold Data.addImport
  split <;> rfl

theorem states_pushItem {d' : Data α} {stack : StackId} {index : ℤ} {v : Reg α}
    (h : d.pushItem stack index v = some d') : d'.states = d.states := by
  unfold Data.pushItem at h
  split at h
  · cases h
    rfl
  · cases h

@[simp] theorem states_newOwnState (s : StateId) (className : String) (code : Code)
    (root : ContextId) :
    (d.newOwnState s className code root).states =
      Function.update d.states s ⟨className, code, root, d.synchronized.length⟩ := rfl

variable [NumOps α]

@[simp] theorem states_enterFrame (c parent root : ContextId) (symbols : SymbolInfo)
    (arguments : List (Reg α)) : (d.enterFrame c parent root symbols arguments).states = d.states := rfl

@[simp] theorem states_setReg (c : ContextId) (r : ℕ) (v : Reg α) : (d.setReg c r v).states = d.states :=
  rfl

theorem states_fillKeyList (keys : List String) (i : ℕ) (properties : ZMap (Reg α)) (d : Data α) :
    (Data.fillKeyList keys i properties d).2.states = d.states := by
  induction keys generalizing i properties d with
  | nil => rfl
  | cons key keys ih => exact ih _ _ _

theorem states_nativeKeyList {d d' : Data α} {address list : Addr}
    (h : d.nativeKeyList address = some (d', list)) : d'.states = d.states := by
  unfold Data.nativeKeyList at h
  obtain ⟨⟨properties, cache⟩, -, h⟩ := Option.bind_eq_some_iff.mp h
  dsimp only at h
  split at h
  · cases h
    rfl
  · obtain ⟨o, -, h⟩ := Option.bind_eq_some_iff.mp h
    cases o with
    | json empty _ =>
      cases h
      have hcache : ∀ (d : Data α) (address cache : Addr),
          (d.setCache address cache).states = d.states := by
        intro d address cache
        unfold Data.setCache
        split <;> rfl
      rw [hcache]
      exact states_fillKeyList _ _ _ _
    | string | functionRef | instanceObject | classRef => cases h

theorem states_callNative {d d' : Data α} {f : Native} {argument : Reg α} {receiver : Addr}
    {c : ContextId} {register : ℕ} {result : NativeReturn}
    (h : d.callNative f argument receiver c register = some (d', result)) : d'.states = d.states := by
  unfold Data.callNative at h
  cases f with
  | print =>
    obtain ⟨d₁, hprint, h⟩ := Option.bind_eq_some_iff.mp h
    cases h
    unfold Data.nativePrint at hprint
    split at hprint
    · cases hprint
      rfl
    · obtain ⟨text, -, rfl⟩ := Option.map_eq_some_iff.mp hprint
      rfl
  | keyList =>
    obtain ⟨⟨d₁, list⟩, hlist, h⟩ := Option.bind_eq_some_iff.mp h
    cases h
    rw [states_setReg]
    exact states_nativeKeyList hlist
  | number =>
    dsimp only at h
    split at h
    · cases h
      rfl
    · obtain ⟨_, -, h⟩ := Option.bind_eq_some_iff.mp h
      cases h
      rfl
  | assert =>
    dsimp only at h
    split at h <;>
    · cases h
      rfl
  | strlen | keySize =>
    obtain ⟨_, -, h⟩ := Option.bind_eq_some_iff.mp h
    cases h
    rfl
  | startsWith | equals =>
    dsimp only at h
    split at h
    · cases h
      rfl
    · obtain ⟨_, -, h⟩ := Option.bind_eq_some_iff.mp h
      obtain ⟨_, -, h⟩ := Option.bind_eq_some_iff.mp h
      cases h
      rfl
  | substring =>
    dsimp only at h
    split at h
    · obtain ⟨_, -, h⟩ := Option.bind_eq_some_iff.mp h
      obtain ⟨_, -, h⟩ := Option.bind_eq_some_iff.mp h
      obtain ⟨_, -, h⟩ := Option.bind_eq_some_iff.mp h
      cases h
      rfl
    · cases h
      rfl
  | object | int | gc | exit | read =>
    cases h
    rfl

variable {classes : String → Option Code} {d : Data α} {k : ControlState} {a : Activation}
  {i : Instruction} {e : Effect α}

theorem loadClass_asks {searched : Addr} {className : String} {importsTable : ZMap String}
    (hi : i.opcode.loads = true)
    (h : loadClass classes d k searched className importsTable = some e) :
    Asks classes d k a i e.data e.action := by
  unfold loadClass at h
  dsimp only at h
  split at h
  · cases h
    exact .exit rfl
  · rename_i code hcode
    obtain ⟨start, -, h⟩ := Option.bind_eq_some_iff.mp h
    obtain ⟨⟨entry, symbols⟩, hentry, h⟩ := Option.bind_eq_some_iff.mp h
    cases h
    exact .load hi hcode rfl rfl hentry

theorem searchThis_asks {name : String} {register : ℕ} (hi : i.opcode.passes = true)
    (h : searchThis d a name register = some e) : Asks classes d k a i e.data e.action := by
  unfold searchThis at h
  obtain ⟨slot, -, h⟩ := Option.bind_eq_some_iff.mp h
  dsimp only at h
  split at h
  · cases h
    exact .next hi rfl
  · split at h
    · cases h
      exact .next hi rfl
    · split at h <;>
      · cases h
        exact .next hi rfl

theorem getField_asks {object : ℕ} {name : String} {register : ℕ}
    (hi : i.opcode = .GET_FIELD ∨ i.opcode = .GET_FIELD_IMMEDIATE)
    (h : getField classes d k a object name register = some e) :
    Asks classes d k a i e.data e.action := by
  have hpasses : i.opcode.passes = true := by rcases hi with hi | hi <;> rw [hi] <;> rfl
  have hraises : i.opcode.raises = true := by rcases hi with hi | hi <;> rw [hi] <;> rfl
  have hloads : i.opcode.loads = true := by rcases hi with hi | hi <;> rw [hi] <;> rfl
  unfold getField at h
  dsimp only at h
  split at h
  · cases h
    exact .next hpasses rfl
  · split at h
    · exact searchThis_asks hpasses h
    · split at h
      · split at h
        · exact searchThis_asks hpasses h
        · cases h
          exact .next hpasses rfl
      · obtain ⟨o, -, h⟩ := Option.bind_eq_some_iff.mp h
        cases o with
        | classRef className =>
          dsimp only at h
          split at h
          · split at h
            · cases h
              exact .next hpasses rfl
            · cases h
              exact .raise hraises
          · obtain ⟨own, -, h⟩ := Option.bind_eq_some_iff.mp h
            exact loadClass_asks hloads h
        | instanceObject target =>
          obtain ⟨value, -, h⟩ := Option.bind_eq_some_iff.mp h
          cases value with
          | some value =>
            cases h
            exact .next hpasses rfl
          | none =>
            cases h
            exact .raise hraises
        | json | string =>
          obtain ⟨properties, -, h⟩ := Option.bind_eq_some_iff.mp h
          split at h
          · cases h
            exact .next hpasses rfl
          · cases h
            exact .raise hraises
        | functionRef => cases h
      · cases h

omit [NumOps α] in
theorem states_pushException {d d' : Data α} {stack : StackId} {index : ℤ} {message : String}
    (h : d.pushException stack index message = some d') : d'.states = d.states :=
  (states_pushItem _ h).trans rfl

omit [NumOps α] in
/-- A refused write tells the instance's state, in one of two ways. -/
theorem states_refused {target : StateId} {message : String} {refused : Data α × String}
    (h : (match k.handler target with
      | some _ =>
        (d.pushException (k.states target).stackStart ((k.states target).stackPtr + 1) message).map
          (·, message)
      | none => some (d.setDetails target (d.detailedMessage target message),
          d.detailedMessage target message)) = some refused) : refused.1.states = d.states := by
  split at h
  · obtain ⟨d', hpush, rfl⟩ := Option.map_eq_some_iff.mp h
    exact states_pushException hpush
  · cases h
    rfl

theorem setFieldVirtual_asks {searched : Addr} {target : StateId} {name : String} {value : Reg α}
    (hi : i.opcode = .SET_FIELD)
    (hobject : d.object (d.regs a.currentContext i.r0.reg) = some (.instanceObject target))
    (h : setFieldVirtual d k a searched target name value = some e) :
    Asks classes d k a i e.data e.action := by
  unfold setFieldVirtual at h
  dsimp only at h
  split at h
  · cases h
  · split at h
    · split at h
      · obtain ⟨refused, hrefused, h⟩ := Option.bind_eq_some_iff.mp h
        cases h
        exact .reject hi hobject ((states_setReg _ _ _ _).trans (states_refused hrefused))
      · cases h
        exact .write hi hobject rfl
    · obtain ⟨refused, hrefused, h⟩ := Option.bind_eq_some_iff.mp h
      cases h
      exact .reject hi hobject (states_refused hrefused)

theorem setField_asks {name : String} {value : Reg α} (hi : i.opcode = .SET_FIELD)
    (h : setField classes d k a i.r0.reg name value = some e) :
    Asks classes d k a i e.data e.action := by
  have hpasses : i.opcode.passes = true := by rw [hi]; rfl
  have hloads : i.opcode.loads = true := by rw [hi]; rfl
  unfold setField at h
  dsimp only at h
  split at h
  · obtain ⟨slot, -, h⟩ := Option.bind_eq_some_iff.mp h
    split at h <;>
    · cases h
      exact .next hpasses rfl
  · split at h
    · cases h
      exact .next hpasses rfl
    · obtain ⟨o, hobject, h⟩ := Option.bind_eq_some_iff.mp h
      cases o with
      | classRef className =>
        dsimp only at h
        split at h
        · cases h
          exact .next hpasses (states_setStatic _ _ _ _)
        · split at h
          · cases h
            exact .next hpasses (states_setStatic _ _ _ _)
          · obtain ⟨own, -, h⟩ := Option.bind_eq_some_iff.mp h
            exact loadClass_asks hloads h
      | instanceObject target => exact setFieldVirtual_asks hi hobject h
      | json | string =>
        cases h
        exact .next hpasses rfl
      | functionRef => cases h
    · cases h

theorem callFunction_asks {start : ℕ} {isAsync : Bool} {parent : ContextId} {target : StateId}
    (hi : i.opcode = .CALL)
    (h : callFunction d k a start isAsync parent target i.r1.reg i.r2.reg = some e) :
    Asks classes d k a i e.data e.action := by
  unfold callFunction at h
  obtain ⟨arguments, -, h⟩ := Option.bind_eq_some_iff.mp h
  obtain ⟨d₁, hpush, h⟩ := Option.bind_eq_some_iff.mp h
  have hstates := states_pushItem _ hpush
  dsimp only at h
  rw [hstates] at h
  obtain ⟨⟨entry, symbols⟩, hentry, h⟩ := Option.bind_eq_some_iff.mp h
  dsimp only at h
  split at h
  · rename_i hne
    split at h
    · rename_i hbusy
      cases h
      exact .callClone hi hne hbusy (congrArg (Function.update · k.nextState _) hstates) rfl hentry
    · rename_i hidle
      cases h
      exact .callOther hi hne (by simpa using hidle) (by simpa using hstates) hentry
  · rename_i heq
    obtain rfl : target = a.state := not_not.mp heq
    split at h
    · cases h
      exact .callAsync hi (by simp [Data.newState]) hentry
    · cases h
      exact .callOwn hi (by simpa using hstates) hentry

theorem construct_asks {className : String} {register : ℕ} (hi : i.opcode = .CALL)
    (h : construct classes d k a className register = some e) :
    Asks classes d k a i e.data e.action := by
  unfold construct at h
  obtain ⟨own, -, h⟩ := Option.bind_eq_some_iff.mp h
  split at h
  · exact loadClass_asks (by rw [hi]; rfl) h
  · rename_i info hinfo
    dsimp only at h
    obtain ⟨d₁, hpush, h⟩ := Option.bind_eq_some_iff.mp h
    have hstates := states_pushItem _ hpush
    obtain ⟨⟨entry, symbols⟩, hentry, h⟩ := Option.bind_eq_some_iff.mp h
    cases h
    exact .construct hi hinfo hstates rfl hentry

theorem call_asks (hi : i.opcode = .CALL)
    (h : call classes d k a i.r0.reg i.r1.reg i.r2.reg = some e) :
    Asks classes d k a i e.data e.action := by
  unfold call at h
  dsimp only at h
  split at h
  · rename_i f htype hval
    have hcallee : d.regs a.currentContext i.r0.reg = ⟨.nativeFunc, .native f⟩ := by
      rw [← htype, ← hval]
    split at h <;>
    · obtain ⟨argument, -, h⟩ := Option.bind_eq_some_iff.mp h
      obtain ⟨⟨d₁, result⟩, hresult, h⟩ := Option.bind_eq_some_iff.mp h
      have hstates := states_callNative hresult
      cases result with
      | returned =>
        cases h
        exact .native hi hcallee hstates
      | failed message =>
        cases h
        exact .native hi hcallee hstates
      | exited =>
        cases h
        exact .exit hstates
  · obtain ⟨o, -, h⟩ := Option.bind_eq_some_iff.mp h
    split at h
    · exact callFunction_asks hi h
    · cases h
  · obtain ⟨o, -, h⟩ := Option.bind_eq_some_iff.mp h
    split at h
    · exact construct_asks hi h
    · cases h
  · cases h
  · cases h
    exact .raise (by rw [hi]; rfl)

omit [NumOps α] in
theorem states_finishLoad (d : Data α) (resume : Resume) : (d.finishLoad resume).states = d.states := by
  unfold Data.finishLoad
  split
  · exact states_addImport _ _ _ _
  · rfl

theorem states_returnValue (rest : List Activation) (value : Reg α) :
    (returnValue d k a rest value).data.states = d.states ∧
      (returnValue d k a rest value).action = .ret := by
  unfold returnValue
  dsimp only
  split
  · split
    · exact ⟨rfl, rfl⟩
    · exact ⟨states_finishLoad _ _, rfl⟩
  · exact ⟨rfl, rfl⟩

theorem effectOther_asks {rest : List Activation} (h : effectOther classes d k a rest i = some e) :
    Asks classes d k a i e.data e.action := by
  unfold effectOther at h
  dsimp only at h
  split at h
  case h_1 hi =>
    cases h
    exact .next (by rw [hi]; rfl) rfl
  case h_2 hi =>
    obtain ⟨start, -, h⟩ := Option.bind_eq_some_iff.mp h
    cases h
    exact .next (by rw [hi]; rfl) rfl
  case h_3 hi =>
    obtain ⟨left, -, h⟩ := Option.bind_eq_some_iff.mp h
    obtain ⟨right, -, h⟩ := Option.bind_eq_some_iff.mp h
    cases h
    exact .next (by rw [hi]; rfl) rfl
  case h_4 hi =>
    cases h
    exact .raise (by rw [hi]; rfl)
  case h_5 hi => exact getField_asks (Or.inr hi) h
  case h_6 hi =>
    obtain ⟨name, -, h⟩ := Option.bind_eq_some_iff.mp h
    exact getField_asks (Or.inl hi) h
  case h_7 hi =>
    obtain ⟨name, -, h⟩ := Option.bind_eq_some_iff.mp h
    exact setField_asks hi h
  case h_8 hi => exact call_asks hi h
  case h_9 hi =>
    obtain ⟨d₁, hpush, h⟩ := Option.bind_eq_some_iff.mp h
    cases h
    exact .push hi (states_pushItem _ hpush)
  case h_10 hi =>
    obtain ⟨value, -, h⟩ := Option.bind_eq_some_iff.mp h
    cases h
    exact .pop hi rfl
  case h_11 hi =>
    cases h
    obtain ⟨hstates, haction⟩ := states_returnValue (d := d) (k := k) (a := a) rest
      (d.regs a.currentContext i.r0.reg)
    rw [haction]
    exact .ret hi hstates
  case h_12 hi =>
    cases h
    exact .next (by rw [hi]; rfl) (states_addImport _ _ _ _)
  case h_13 hi =>
    obtain ⟨message, -, h⟩ := Option.bind_eq_some_iff.mp h
    cases h
    exact .throwing hi
  case h_14 hi =>
    obtain ⟨address, haddress, h⟩ := Option.bind_eq_some_iff.mp h
    cases h
    exact .setCatch hi haddress
  case h_15 hi =>
    split at h
    · cases h
    · rename_i hcatches
      cases h
      exact .clearCatch hi hcatches
  case h_16 hi =>
    cases h
    exact .next (by rw [hi]; rfl) rfl
  case h_17 hi =>
    cases h
    exact .next (by rw [hi]; rfl) rfl
  case h_18 => cases h

omit [NumOps α] in
theorem branch_jump {taken : Bool} {operand : Operand} {label : String}
    (h : branch taken operand = .jump label) : operand.text = label := by
  cases taken with
  | true => exact Control.jump.inj h
  | false => cases h

theorem execLocal_control {regs regs' : Regs α} {control : Control}
    (h : execLocal i regs = some (regs', control)) :
    (control = .next → i.opcode.passes = true) ∧
      ∀ label, control = .jump label → i.jumpLabel = some label := by
  obtain ⟨opcode, r0, r1, r2⟩ := i
  constructor
  · rintro rfl
    cases opcode <;> first | rfl | skip
    all_goals simp [execLocal, arithmetic, Opcode.jumpRel, Opcode.immediateRel, Opcode.compareRel] at h
  · rintro label rfl
    cases opcode <;>
      simp only [execLocal, arithmetic, Opcode.jumpRel, Opcode.immediateRel, Opcode.compareRel,
        Option.map_eq_some_iff, Option.some.injEq, Prod.mk.injEq, Option.map_none, reduceCtorEq,
        and_false, exists_false] at h
    all_goals first
      | exact congrArg some (branch_jump h.2)
      | exact congrArg some (Control.jump.inj h.2)
      | split at h <;> simp at h

/-- Every instruction asks for one of these. -/
theorem effect_asks {rest : List Activation} (h : effect classes d k a rest i = some e) :
    Asks classes d k a i e.data e.action := by
  unfold effect at h
  split at h
  · rename_i regs hlocal
    cases h
    exact .next ((execLocal_control hlocal).1 rfl) rfl
  · rename_i regs label hlocal
    obtain ⟨address, haddress, rfl⟩ := Option.map_eq_some_iff.mp h
    exact .jump rfl ((execLocal_control hlocal).2 label rfl) haddress
  · cases h
  · exact effectOther_asks h

/-- What a call is a call of, unless it fails. -/
inductive Calls (classes : String → Option Code) (d : Data α) (k : ControlState) (a : Activation)
    (callee register n : ℕ) (e : Effect α) : Prop where
  | native (haction : (∃ pops error, e.action = .native pops error) ∨ e.action = .exit none)
  | function {start : ℕ} {isAsync : Bool} {parent : ContextId} {target : StateId}
      (hobject : d.object (d.regs a.currentContext callee) = some (.functionRef start isAsync parent target))
      (h : callFunction d k a start isAsync parent target register n = some e)
  | construct {className : String}
      (hobject : d.object (d.regs a.currentContext callee) = some (.classRef className))
      (h : construct classes d k a className register = some e)
  | raise {message : String} (haction : e.action = .raise message)

theorem call_cases {callee register n : ℕ} (h : call classes d k a callee register n = some e) :
    Calls classes d k a callee register n e := by
  unfold call at h
  dsimp only at h
  split at h
  · split at h <;>
    · obtain ⟨argument, -, h⟩ := Option.bind_eq_some_iff.mp h
      obtain ⟨⟨d₁, result⟩, -, h⟩ := Option.bind_eq_some_iff.mp h
      cases result with
      | returned | failed =>
        cases h
        exact .native (Or.inl ⟨_, _, rfl⟩)
      | exited =>
        cases h
        exact .native (Or.inr rfl)
  · obtain ⟨o, hobject, h⟩ := Option.bind_eq_some_iff.mp h
    cases o with
    | functionRef => exact .function hobject h
    | string | json | instanceObject | classRef => cases h
  · obtain ⟨o, hobject, h⟩ := Option.bind_eq_some_iff.mp h
    cases o with
    | classRef => exact .construct hobject h
    | string | json | instanceObject | functionRef => cases h
  · cases h
  · cases h
    exact .raise rfl

theorem callFunction_enters {start : ℕ} {isAsync : Bool} {parent : ContextId} {target : StateId} {register n : ℕ}
    (h : callFunction d k a start isAsync parent target register n = some e) :
    ∃ entry symbols, frameAt (d.states target).byteStream start = some (entry, symbols) ∧
      ((∃ cloned, target ≠ a.state ∧ e.action = .callOther target cloned entry register n) ∨
        target = a.state ∧ (e.action = .callAsync entry n ∨ e.action = .callOwn entry register n)) := by
  unfold callFunction at h
  obtain ⟨arguments, -, h⟩ := Option.bind_eq_some_iff.mp h
  obtain ⟨d₁, hpush, h⟩ := Option.bind_eq_some_iff.mp h
  dsimp only at h
  rw [states_pushItem _ hpush] at h
  obtain ⟨⟨entry, symbols⟩, hentry, h⟩ := Option.bind_eq_some_iff.mp h
  dsimp only at h
  refine ⟨entry, symbols, hentry, ?_⟩
  split at h
  · rename_i hother
    left
    split at h
    · cases h
      exact ⟨true, hother, rfl⟩
    · cases h
      exact ⟨false, hother, rfl⟩
  · rename_i hown
    right
    refine ⟨not_not.mp hown, ?_⟩
    split at h
    · cases h
      exact Or.inl rfl
    · cases h
      exact Or.inr rfl

def Action.called : Action → Option ℕ
  | .callOwn entry _ _ | .callAsync entry _ | .callOther _ _ entry _ _ => some entry
  | _ => none

theorem loadClass_called {searched : Addr} {className : String} {importsTable : ZMap String}
    (h : loadClass classes d k searched className importsTable = some e) :
    e.action.called = none ∧ ∀ entry, e.action ≠ .construct entry := by
  unfold loadClass at h
  dsimp only at h
  split at h
  · cases h
    exact ⟨rfl, nofun⟩
  · obtain ⟨start, -, h⟩ := Option.bind_eq_some_iff.mp h
    obtain ⟨⟨entry, symbols⟩, -, h⟩ := Option.bind_eq_some_iff.mp h
    cases h
    exact ⟨rfl, nofun⟩

theorem construct_enters {className : String} {register entry : ℕ}
    (h : construct classes d k a className register = some e) (haction : e.action = .construct entry) :
    ∃ (d₁ : Data α) (info : TypeInfo α) (symbols : SymbolInfo), d.typeInfo className = some info ∧
      frameAt info.bytecodeStream 0 = some (entry, symbols) ∧
      d₁.states = Function.update d.states k.nextState
        ⟨className, info.bytecodeStream, k.nextContext, d.synchronized.length⟩ ∧
      d₁.objects = d.objects ++ [.instanceObject k.nextState] ∧
      e.data = d₁.enterFrame k.nextContext 0 k.nextContext symbols [] := by
  unfold construct at h
  obtain ⟨own, -, h⟩ := Option.bind_eq_some_iff.mp h
  split at h
  · exact absurd haction ((loadClass_called h).2 entry)
  · rename_i info htype
    dsimp only at h
    obtain ⟨d₁, hpush, h⟩ := Option.bind_eq_some_iff.mp h
    obtain ⟨⟨entry', symbols⟩, hentry, h⟩ := Option.bind_eq_some_iff.mp h
    cases h
    cases haction
    unfold Data.pushItem at hpush
    split at hpush
    · cases hpush
      exact ⟨_, info, symbols, htype, hentry, rfl, rfl, rfl⟩
    · cases hpush

theorem effect_function {rest : List Activation} {entry : ℕ} (h : effect classes d k a rest i = some e)
    (haction : e.action.called = some entry) :
    ∃ start isAsync parent target,
      d.object (d.regs a.currentContext i.r0.reg) = some (.functionRef start isAsync parent target) ∧
      callFunction d k a start isAsync parent target i.r1.reg i.r2.reg = some e := by
  have hi : i.opcode = .CALL := by
    have hasks := effect_asks h
    generalize e.data = d', e.action = action at hasks haction
    cases hasks with
    | callOwn hi | callAsync hi | callOther hi | callClone hi => exact hi
    | next | jump | push | pop | native | raise | throwing | setCatch | clearCatch | ret | construct | load | write
    | reject | exit => cases haction
  obtain ⟨opcode, r0, r1, r2⟩ := i
  obtain rfl : opcode = .CALL := hi
  change call classes d k a r0.reg r1.reg r2.reg = some e at h
  cases call_cases h with
  | native hnative =>
    rcases hnative with ⟨pops, error, hnative⟩ | hexit
    · rw [hnative] at haction
      cases haction
    · rw [hexit] at haction
      cases haction
  | function hobject hcall => exact ⟨_, _, _, _, hobject, hcall⟩
  | construct hobject hconstruct =>
    unfold construct at hconstruct
    obtain ⟨own, -, hconstruct⟩ := Option.bind_eq_some_iff.mp hconstruct
    split at hconstruct
    · rw [(loadClass_called hconstruct).1] at haction
      cases haction
    · obtain ⟨d₁, -, hconstruct⟩ := Option.bind_eq_some_iff.mp hconstruct
      obtain ⟨⟨entry', symbols⟩, -, hconstruct⟩ := Option.bind_eq_some_iff.mp hconstruct
      cases hconstruct
      cases haction
  | raise hraise =>
    rw [hraise] at haction
    cases haction

theorem effect_construct {rest : List Activation} {entry : ℕ} (h : effect classes d k a rest i = some e)
    (haction : e.action = .construct entry) : ∃ className, construct classes d k a className i.r1.reg = some e := by
  have hi : i.opcode = .CALL := by
    have hasks := effect_asks h
    rw [haction] at hasks
    cases hasks with
    | construct hi => exact hi
  obtain ⟨opcode, r0, r1, r2⟩ := i
  obtain rfl : opcode = .CALL := hi
  change call classes d k a r0.reg r1.reg r2.reg = some e at h
  cases call_cases h with
  | native hnative =>
    rcases hnative with ⟨pops, error, hnative⟩ | hexit
    · rw [hnative] at haction
      cases haction
    · rw [hexit] at haction
      cases haction
  | function hobject hcall =>
    obtain ⟨entry', symbols, -, ⟨cloned, -, hother⟩ | ⟨-, hasync | hown⟩⟩ := callFunction_enters hcall
    · rw [hother] at haction
      cases haction
    · rw [hasync] at haction
      cases haction
    · rw [hown] at haction
      cases haction
  | construct hobject hconstruct => exact ⟨_, hconstruct⟩
  | raise hraise =>
    rw [hraise] at haction
    cases haction

omit [NumOps α] in
/-- What an exception leaves in the data is left by pushes, by new details and by classes that are done
with loading. -/
theorem deliver_keeps {P : Data α → Prop} {d d' : Data α} {outcome : Outcome} {message details : String}
    {left : List (StateId × Resume)}
    (hpush : ∀ (d d' : Data α) (stack : StackId) (index : ℤ) (message : String), P d →
      d.pushException stack index message = some d' → P d')
    (hdetails : ∀ (d : Data α) (s : StateId) (details : String), P d → P (d.setDetails s details))
    (hload : ∀ (d : Data α) (s : StateId) (resume : Resume), (s, resume) ∈ left → P d → P (d.finishLoad resume))
    (hd : P d) (h : d.deliver outcome message left = some (d', details)) : P d' := by
  induction left generalizing d message with
  | nil =>
    rw [Data.deliver] at h
    split at h
    · obtain ⟨d₁, hpushed, heq⟩ := Option.map_eq_some_iff.mp h
      cases heq
      exact hpush d _ _ _ _ hd hpushed
    · cases h
      exact hd
  | cons head left ih =>
    obtain ⟨s, resume⟩ := head
    have hrest := fun d s resume hmem => hload d s resume (List.mem_cons_of_mem _ hmem)
    have hself := fun d => hload d s resume List.mem_cons_self
    rw [Data.deliver] at h
    split at h
    · obtain ⟨d₁, hpushed, h⟩ := Option.bind_eq_some_iff.mp h
      exact ih hrest (hself _ (hpush d _ _ _ _ hd hpushed)) h
    · exact ih hrest (hself _ (hdetails d s _ hd)) h

omit [NumOps α] in
theorem deliver_unchanged {d d' : Data α} {outcome : Outcome} {message details : String}
    {left : List (StateId × Resume)} (h : d.deliver outcome message left = some (d', details)) :
    d'.states = d.states ∧ d'.contexts = d.contexts := by
  refine deliver_keeps (P := fun d' => d'.states = d.states ∧ d'.contexts = d.contexts) ?_ ?_ ?_ ⟨rfl, rfl⟩ h
  · intro d₁ d₂ stack index message ⟨hstates, hcontexts⟩ hpush
    refine ⟨(states_pushException hpush).trans hstates, ?_⟩
    unfold Data.pushException Data.pushItem at hpush
    dsimp only at hpush
    split at hpush
    · cases hpush
      exact hcontexts
    · cases hpush
  · intro d₁ s details hd
    exact hd
  · intro d₁ s resume _ ⟨hstates, hcontexts⟩
    refine ⟨(states_finishLoad _ _).trans hstates, ?_⟩
    unfold Data.finishLoad
    split
    · unfold Data.addImport
      split <;> exact hcontexts
    · exact hcontexts

/-- A step of a thread: its instruction acts on the data and asks for an action, and control performs
it. -/
structure StepOf (classes : String → Option Code) (m m' : Machine α) (thread : ℕ) (a : Activation)
    (rest : List Activation) (i : Instruction) (e : Effect α) (outcome : Outcome) : Prop where
  step : m.step classes thread = some m'
  activations : m.threads[thread]? = some (a :: rest)
  fetch : m.fetch a = some i
  effect : effect classes m.data m.control a rest i = some e
  perform : m.control.perform ({ a with objectToSearchOn := e.objectToSearchOn } :: rest) e.action =
    outcome
  control : m'.control = outcome.control
  threads : m'.threads = m.threads.set thread outcome.activations ++ outcome.spawned.toList.map ([·])
  states : m'.data.states = e.data.states
  contexts : m'.data.contexts = e.data.contexts
  delivered : (outcome.raised = none ∧ m'.data = e.data) ∨
    ∃ message details, outcome.raised = some message ∧
      e.data.deliver outcome message outcome.left = some (m'.data, details)

theorem Machine.step_cases {m m' : Machine α} {thread : ℕ} (h : m.step classes thread = some m') :
    ∃ a rest i e outcome, StepOf classes m m' thread a rest i e outcome := by
  have hstep := h
  unfold Machine.step at h
  split at h
  · cases h
  · obtain ⟨activations, hthread, h⟩ := Option.bind_eq_some_iff.mp h
    obtain ⟨a, ha, h⟩ := Option.bind_eq_some_iff.mp h
    obtain ⟨rest, rfl⟩ := List.head?_eq_some_iff.mp ha
    obtain ⟨i, hi, h⟩ := Option.bind_eq_some_iff.mp h
    obtain ⟨e, he, h⟩ := Option.bind_eq_some_iff.mp h
    dsimp only [List.tail_cons] at he h
    split at h
    · rename_i message hraised
      obtain ⟨⟨d, details⟩, hdeliver, h⟩ := Option.bind_eq_some_iff.mp h
      cases h
      obtain ⟨hstates, hcontexts⟩ := deliver_unchanged hdeliver
      exact ⟨a, rest, i, e, _, hstep, hthread, hi, he, rfl, rfl, rfl, hstates, hcontexts,
        Or.inr ⟨message, details, hraised, hdeliver⟩⟩
    · rename_i hraised
      obtain ⟨⟨d, details⟩, hdeliver, h⟩ := Option.bind_eq_some_iff.mp h
      cases hdeliver
      cases h
      exact ⟨a, rest, i, e, _, hstep, hthread, hi, he, rfl, rfl, rfl, rfl, rfl,
        Or.inl ⟨hraised, rfl⟩⟩

def Machine.outcome (classes : String → Option Code) (m : Machine α) (thread : ℕ) :
    Option (List Activation × Instruction × Action × Outcome) := do
  let activations ← m.threads[thread]?
  let a ← activations.head?
  let i ← m.fetch a
  let e ← effect classes m.data m.control a activations.tail i
  return (activations, i, e.action, m.control.perform
    ({ a with objectToSearchOn := e.objectToSearchOn } :: activations.tail) e.action)

theorem StepOf.outcome {m m' : Machine α} {thread : ℕ} {rest : List Activation} {outcome : Outcome}
    (h : StepOf classes m m' thread a rest i e outcome) :
    m.outcome classes thread = some (a :: rest, i, e.action, outcome) := by
  unfold Machine.outcome
  simp [h.activations, h.fetch, h.effect, h.perform]

def Machine.activations (m : Machine α) : List Activation := m.threads.flatten

theorem flatten_set {β : Type} {lists : List (List β)} {n : ℕ} {list : List β}
    (h : lists[n]? = some list) :
    ∃ others, lists.flatten.Perm (list ++ others) ∧
      ∀ list', (lists.set n list').flatten.Perm (list' ++ others) := by
  induction lists generalizing n with
  | nil => simp at h
  | cons head lists ih =>
    cases n with
    | zero =>
      obtain rfl : head = list := by simpa using h
      exact ⟨lists.flatten, .refl _, fun _ => .refl _⟩
    | succ n =>
      obtain ⟨others, hperm, hset⟩ := ih h
      refine ⟨head ++ others, ?_, fun list' => ?_⟩
      · rw [List.flatten_cons]
        exact (hperm.append_left head).trans (List.perm_append_comm_assoc head list others)
      · rw [List.set_cons_succ, List.flatten_cons]
        exact ((hset list').append_left head).trans (List.perm_append_comm_assoc head list' others)

theorem flatten_singletons {β : Type} (xs : List β) : (xs.map ([·])).flatten = xs := by
  induction xs with
  | nil => rfl
  | cons x xs ih => simp [ih]

theorem StepOf.others {m m' : Machine α} {thread : ℕ} {rest : List Activation} {outcome : Outcome}
    (h : StepOf classes m m' thread a rest i e outcome) :
    ∃ others, m.activations.Perm (a :: rest ++ others) ∧
      m'.activations.Perm (outcome.activations ++ (others ++ outcome.spawned.toList)) := by
  obtain ⟨others, hperm, hset⟩ := flatten_set h.activations
  refine ⟨others, hperm, ?_⟩
  unfold Machine.activations
  rw [h.threads, List.flatten_append, flatten_singletons, ← List.append_assoc]
  exact (hset _).append_right _

structure BootOf (className : String) (code : Code) (m : Machine α) (staticEntry entry : ℕ) : Prop where
  control :
    m.control = ((⟨fun _ => {}, fun _ => {}, 1, 0, 0⟩ : ControlState).start 0 {} 0 0).start 1 {} 1 0
  threads : m.threads = [[⟨1, 2, staticEntry, 0, .startup⟩, ⟨0, 1, entry, 0, .root⟩]]
  entry : ∃ symbols, frameAt code 0 = some (entry, symbols)
  staticEntry : ∃ start symbols, frameAt code start = some (staticEntry, symbols)
  streams : (m.data.states 0).byteStream = code ∧ (m.data.states 1).byteStream = code
  knownTypes : m.data.knownTypes = [(className, { bytecodeStream := code })]

theorem boot_of {className : String} {code : Code} {input : List String} {m : Machine α}
    (h : boot className code input = some m) : ∃ staticEntry entry, BootOf className code m staticEntry entry := by
  unfold boot at h
  obtain ⟨⟨entry, symbols⟩, hentry, h⟩ := Option.bind_eq_some_iff.mp h
  obtain ⟨start, -, h⟩ := Option.bind_eq_some_iff.mp h
  obtain ⟨⟨staticEntry, staticSymbols⟩, hstatic, h⟩ := Option.bind_eq_some_iff.mp h
  cases h
  exact ⟨staticEntry, entry, rfl, rfl, ⟨symbols, hentry⟩, ⟨start, staticSymbols, hstatic⟩,
    ⟨rfl, rfl⟩, rfl⟩

end

end Zeroscript
