import Zeroscript.Heap
import Zeroscript.Frames

/-! # Scopes along a run

A context keeps its parent and its symbols, and its parent is older. A step adds one scope at most: the
frame of the function it enters. -/
namespace Zeroscript

section

variable {α : Type}

/-- The scopes are the same; only what is in their slots may differ. -/
structure SameScopes (d d' : Data α) : Prop where
  parent : ∀ c, (d'.contexts c).parentContext = (d.contexts c).parentContext
  symbols : ∀ c, (d'.contexts c).symbols = (d.contexts c).symbols
  locals : ∀ c, (d.contexts c).locals.isSome → (d'.contexts c).locals.isSome

variable {d d' d₁ d₂ : Data α}

theorem SameScopes.of (h : d'.contexts = d.contexts) : SameScopes d d' where
  parent c := by rw [h]
  symbols c := by rw [h]
  locals c hc := by rw [h]; exact hc

theorem SameScopes.trans (h : SameScopes d d₁) (h' : SameScopes d₁ d₂) : SameScopes d d₂ where
  parent c := (h'.parent c).trans (h.parent c)
  symbols c := (h'.symbols c).trans (h.symbols c)
  locals c hc := h'.locals c (h.locals c hc)

theorem sameScopes_setRegs (d : Data α) (c : ContextId) (regs : Regs α) : SameScopes d (d.setRegs c regs) where
  parent c' := by
    rw [Data.contexts_setRegs]
    split
    · subst_vars
      rfl
    · rfl
  symbols c' := by
    rw [Data.contexts_setRegs]
    split
    · subst_vars
      rfl
    · rfl
  locals c' hc' := by
    rw [Data.contexts_setRegs]
    split
    · rfl
    · exact hc'

theorem sameScopes_setReg [NumOps α] {c : ContextId} {r : ℕ} {v : Reg α} (h : d₁.contexts = d.contexts) :
    SameScopes d (d₁.setReg c r v) := (SameScopes.of h).trans (sameScopes_setRegs _ _ _)

theorem SameScopes.then_same (h : SameScopes d d₁) (hs : d₂.contexts = d₁.contexts) : SameScopes d d₂ :=
  h.trans (.of hs)

def Action.enters : Action → Bool
  | .callOwn .. | .callAsync .. | .callOther .. | .construct _ | .load .. => true
  | _ => false

def FromFunction (d : Data α) (parent : ContextId) : Prop :=
  parent = 0 ∨ ∃ (n start : ℕ) (isAsync : Bool) (s : StateId),
    d.objects[n]? = some (.functionRef start isAsync parent s)

structure OneScope (d d' : Data α) (c : ContextId) : Prop where
  parent : ∀ c', c' ≠ c → (d'.contexts c').parentContext = (d.contexts c').parentContext
  symbols : ∀ c', c' ≠ c → (d'.contexts c').symbols = (d.contexts c').symbols
  locals : ∀ c', c' ≠ c → (d.contexts c').locals.isSome → (d'.contexts c').locals.isSome
  entered : (d'.contexts c).locals.isSome
  origin : FromFunction d (d'.contexts c).parentContext

def Scoped (d : Data α) (k : ControlState) (e : Effect α) : Prop :=
  (e.action.enters = false ∧ SameScopes d e.data) ∨
    (e.action.enters = true ∧ OneScope d e.data k.nextContext)

theorem oneScope_enterFrame [NumOps α] (h : SameScopes d d₁) (c : ContextId) {parent root : ContextId}
    {symbols : SymbolInfo} {arguments : List (Reg α)} (horigin : FromFunction d parent) :
    OneScope d (d₁.enterFrame c parent root symbols arguments) c where
  parent c' hc' := by
    unfold Data.enterFrame
    simp only [Function.update_of_ne hc']
    exact h.parent c'
  symbols c' hc' := by
    unfold Data.enterFrame
    simp only [Function.update_of_ne hc']
    exact h.symbols c'
  locals c' hc' hl := by
    unfold Data.enterFrame
    simp only [Function.update_of_ne hc']
    exact h.locals c' hl
  entered := by
    unfold Data.enterFrame
    simp
  origin := by
    unfold Data.enterFrame
    simpa using horigin

variable [NumOps α]

omit [NumOps α] in
theorem contexts_pushItem {stack : StackId} {index : ℤ} {v : Reg α}
    (h : d.pushItem stack index v = some d') : d'.contexts = d.contexts := by
  unfold Data.pushItem at h
  split at h
  · cases h
    rfl
  · cases h

omit [NumOps α] in
theorem contexts_pushException {stack : StackId} {index : ℤ} {message : String}
    (h : d.pushException stack index message = some d') : d'.contexts = d.contexts :=
  (contexts_pushItem h).trans rfl

theorem contexts_fillKeyList (keys : List String) (i : ℕ) (properties : ZMap (Reg α)) (d : Data α) :
    (Data.fillKeyList keys i properties d).2.contexts = d.contexts := by
  induction keys generalizing i properties d with
  | nil => rfl
  | cons key keys ih => exact ih _ _ _

theorem contexts_nativeKeyList {address list : Addr}
    (h : d.nativeKeyList address = some (d', list)) : d'.contexts = d.contexts := by
  unfold Data.nativeKeyList at h
  obtain ⟨⟨properties, cache⟩, -, h⟩ := Option.bind_eq_some_iff.mp h
  dsimp only at h
  split at h
  · cases h
    rfl
  · obtain ⟨o, -, h⟩ := Option.bind_eq_some_iff.mp h
    cases o with
    | json empty _ =>
      cases h
      have hcache : ∀ (d : Data α) (address cache : Addr),
          (d.setCache address cache).contexts = d.contexts := by
        intro d address cache
        unfold Data.setCache
        split <;> rfl
      rw [hcache]
      exact contexts_fillKeyList _ _ _ _
    | string | functionRef | instanceObject | classRef => cases h

theorem scopes_callNative {f : Native} {argument : Reg α} {receiver : Addr} {c : ContextId}
    {register : ℕ} {result : NativeReturn}
    (h : d.callNative f argument receiver c register = some (d', result)) : SameScopes d d' := by
  unfold Data.callNative at h
  cases f with
  | print =>
    obtain ⟨d₁, hprint, h⟩ := Option.bind_eq_some_iff.mp h
    cases h
    unfold Data.nativePrint at hprint
    split at hprint
    · cases hprint
      exact .of rfl
    · obtain ⟨text, -, rfl⟩ := Option.map_eq_some_iff.mp hprint
      exact .of rfl
  | keyList =>
    obtain ⟨⟨d₁, list⟩, hlist, h⟩ := Option.bind_eq_some_iff.mp h
    cases h
    exact sameScopes_setReg (contexts_nativeKeyList hlist)
  | number =>
    dsimp only at h
    split at h
    · cases h
      exact sameScopes_setRegs _ _ _
    · obtain ⟨_, -, h⟩ := Option.bind_eq_some_iff.mp h
      cases h
      exact sameScopes_setRegs _ _ _
  | assert =>
    dsimp only at h
    split at h <;>
    · cases h
      exact .of rfl
  | strlen | keySize =>
    obtain ⟨_, -, h⟩ := Option.bind_eq_some_iff.mp h
    cases h
    exact sameScopes_setRegs _ _ _
  | startsWith | equals =>
    dsimp only at h
    split at h
    · cases h
      exact sameScopes_setRegs _ _ _
    · obtain ⟨_, -, h⟩ := Option.bind_eq_some_iff.mp h
      obtain ⟨_, -, h⟩ := Option.bind_eq_some_iff.mp h
      cases h
      exact sameScopes_setRegs _ _ _
  | substring =>
    dsimp only at h
    split at h
    · obtain ⟨_, -, h⟩ := Option.bind_eq_some_iff.mp h
      obtain ⟨_, -, h⟩ := Option.bind_eq_some_iff.mp h
      obtain ⟨_, -, h⟩ := Option.bind_eq_some_iff.mp h
      cases h
      exact sameScopes_setReg rfl
    · cases h
      exact sameScopes_setRegs _ _ _
  | int =>
    cases h
    exact sameScopes_setRegs _ _ _
  | object | read =>
    cases h
    exact sameScopes_setReg rfl
  | gc | exit =>
    cases h
    exact .of rfl

variable {classes : String → Option Code} {k : ControlState} {a : Activation} {i : Instruction}
  {e : Effect α}

omit [NumOps α] in
theorem contexts_refused {target : StateId} {message : String} {refused : Data α × String}
    (h : (match k.handler target with
      | some _ =>
        (d.pushException (k.states target).stackStart ((k.states target).stackPtr + 1) message).map
          (·, message)
      | none => some (d.setDetails target (d.detailedMessage target message),
          d.detailedMessage target message)) = some refused) : refused.1.contexts = d.contexts := by
  split at h
  · obtain ⟨d', hpush, rfl⟩ := Option.map_eq_some_iff.mp h
    exact contexts_pushException hpush
  · cases h
    rfl

theorem setFieldVirtual_scoped {searched : Addr} {target : StateId} {name : String} {value : Reg α}
    (h : setFieldVirtual d k a searched target name value = some e) : Scoped d k e := by
  unfold setFieldVirtual at h
  dsimp only at h
  split at h
  · cases h
  · split at h
    · split at h
      · obtain ⟨refused, hrefused, h⟩ := Option.bind_eq_some_iff.mp h
        cases h
        exact Or.inl ⟨rfl, sameScopes_setReg (contexts_refused hrefused)⟩
      · cases h
        exact Or.inl ⟨rfl, sameScopes_setRegs _ _ _⟩
    · obtain ⟨refused, hrefused, h⟩ := Option.bind_eq_some_iff.mp h
      cases h
      exact Or.inl ⟨rfl, .of (contexts_refused hrefused)⟩

theorem loadClass_scoped {searched : Addr} {className : String} {importsTable : ZMap String}
    (h : loadClass classes d k searched className importsTable = some e) : Scoped d k e := by
  unfold loadClass at h
  dsimp only at h
  split at h
  · cases h
    exact Or.inl ⟨rfl, .of rfl⟩
  · obtain ⟨start, -, h⟩ := Option.bind_eq_some_iff.mp h
    obtain ⟨⟨entry, symbols⟩, -, h⟩ := Option.bind_eq_some_iff.mp h
    cases h
    refine Or.inr ⟨rfl, oneScope_enterFrame ?_ _ (Or.inl rfl)⟩
    exact .of rfl

theorem searchThis_scoped {name : String} {register : ℕ} (h : searchThis d a name register = some e) :
    Scoped d k e := by
  unfold searchThis at h
  obtain ⟨slot, -, h⟩ := Option.bind_eq_some_iff.mp h
  dsimp only at h
  split at h
  · cases h
    exact Or.inl ⟨rfl, sameScopes_setRegs _ _ _⟩
  · split at h
    · cases h
      exact Or.inl ⟨rfl, sameScopes_setRegs _ _ _⟩
    · split at h
      · cases h
        exact Or.inl ⟨rfl, sameScopes_setRegs _ _ _⟩
      · cases h
        exact Or.inl ⟨rfl, sameScopes_setReg rfl⟩

theorem getField_scoped {object : ℕ} {name : String} {register : ℕ}
    (h : getField classes d k a object name register = some e) : Scoped d k e := by
  unfold getField at h
  dsimp only at h
  split at h
  · cases h
    exact Or.inl ⟨rfl, sameScopes_setRegs _ _ _⟩
  · split at h
    · exact searchThis_scoped h
    · split at h
      · split at h
        · exact searchThis_scoped h
        · cases h
          exact Or.inl ⟨rfl, .of rfl⟩
      · obtain ⟨o, -, h⟩ := Option.bind_eq_some_iff.mp h
        cases o with
        | classRef className =>
          dsimp only at h
          split at h
          · split at h
            · cases h
              exact Or.inl ⟨rfl, sameScopes_setRegs _ _ _⟩
            · cases h
              exact Or.inl ⟨rfl, .of rfl⟩
          · obtain ⟨own, -, h⟩ := Option.bind_eq_some_iff.mp h
            exact loadClass_scoped h
        | instanceObject target =>
          obtain ⟨value, -, h⟩ := Option.bind_eq_some_iff.mp h
          cases value with
          | none =>
            cases h
            exact Or.inl ⟨rfl, .of rfl⟩
          | some value =>
            cases h
            exact Or.inl ⟨rfl, sameScopes_setRegs _ _ _⟩
        | json | string =>
          obtain ⟨properties, -, h⟩ := Option.bind_eq_some_iff.mp h
          split at h
          · cases h
            exact Or.inl ⟨rfl, sameScopes_setRegs _ _ _⟩
          · cases h
            exact Or.inl ⟨rfl, .of rfl⟩
        | functionRef => cases h
      · cases h

omit [NumOps α] in
theorem contexts_setStatic (d : Data α) (className name : String) (v : Reg α) :
    (d.setStatic className name v).contexts = d.contexts := by
  unfold Data.setStatic
  split <;> rfl

theorem setField_scoped {object : ℕ} {name : String} {value : Reg α}
    (h : setField classes d k a object name value = some e) : Scoped d k e := by
  unfold setField at h
  dsimp only at h
  split at h
  · obtain ⟨slot, -, h⟩ := Option.bind_eq_some_iff.mp h
    split at h
    · cases h
      exact Or.inl ⟨rfl, sameScopes_setRegs _ _ _⟩
    · cases h
      exact Or.inl ⟨rfl, .of rfl⟩
  · split at h
    · cases h
      exact Or.inl ⟨rfl, .of rfl⟩
    · obtain ⟨o, -, h⟩ := Option.bind_eq_some_iff.mp h
      cases o with
      | classRef className =>
        dsimp only at h
        split at h
        · cases h
          exact Or.inl ⟨rfl, .of (contexts_setStatic _ _ _ _)⟩
        · split at h
          · cases h
            exact Or.inl ⟨rfl, .of (contexts_setStatic _ _ _ _)⟩
          · obtain ⟨own, -, h⟩ := Option.bind_eq_some_iff.mp h
            exact loadClass_scoped h
      | instanceObject target => exact setFieldVirtual_scoped h
      | json | string =>
        cases h
        exact Or.inl ⟨rfl, .of rfl⟩
      | functionRef => cases h
    · cases h

theorem callFunction_scoped {start : ℕ} {isAsync : Bool} {parent : ContextId} {target : StateId}
    {register n : ℕ} (horigin : FromFunction d parent)
    (h : callFunction d k a start isAsync parent target register n = some e) : Scoped d k e := by
  unfold callFunction at h
  obtain ⟨arguments, -, h⟩ := Option.bind_eq_some_iff.mp h
  obtain ⟨d₁, hpush, h⟩ := Option.bind_eq_some_iff.mp h
  have hcontexts := contexts_pushItem hpush
  dsimp only at h
  obtain ⟨⟨entry, symbols⟩, -, h⟩ := Option.bind_eq_some_iff.mp h
  dsimp only at h
  split at h <;> split at h <;>
  · cases h
    refine Or.inr ⟨rfl, oneScope_enterFrame ?_ _ horigin⟩
    exact .of hcontexts

theorem construct_scoped {className : String} {register : ℕ}
    (h : construct classes d k a className register = some e) : Scoped d k e := by
  unfold construct at h
  obtain ⟨own, -, h⟩ := Option.bind_eq_some_iff.mp h
  split at h
  · exact loadClass_scoped h
  · dsimp only at h
    obtain ⟨d₁, hpush, h⟩ := Option.bind_eq_some_iff.mp h
    have hcontexts := contexts_pushItem hpush
    obtain ⟨⟨entry, symbols⟩, -, h⟩ := Option.bind_eq_some_iff.mp h
    cases h
    refine Or.inr ⟨rfl, oneScope_enterFrame ?_ _ (Or.inl rfl)⟩
    exact (sameScopes_setReg rfl).then_same hcontexts

omit [NumOps α] in
theorem object_mem {r : Reg α} {o : Object α} (h : d.object r = some o) : ∃ n : ℕ, d.objects[n]? = some o := by
  unfold Data.object at h
  split at h
  · exact ⟨_, h⟩
  · cases h

theorem call_scoped {callee register n : ℕ} (h : call classes d k a callee register n = some e) :
    Scoped d k e := by
  unfold call at h
  dsimp only at h
  split at h
  · split at h <;>
    · obtain ⟨argument, -, h⟩ := Option.bind_eq_some_iff.mp h
      obtain ⟨⟨d₁, result⟩, hresult, h⟩ := Option.bind_eq_some_iff.mp h
      cases result <;>
      · cases h
        exact Or.inl ⟨rfl, scopes_callNative hresult⟩
  · obtain ⟨o, ho, h⟩ := Option.bind_eq_some_iff.mp h
    obtain ⟨n, hn⟩ := object_mem ho
    split at h
    · exact callFunction_scoped (Or.inr ⟨n, _, _, _, hn⟩) h
    · cases h
  · obtain ⟨o, -, h⟩ := Option.bind_eq_some_iff.mp h
    split at h
    · exact construct_scoped h
    · cases h
  · cases h
  · cases h
    exact Or.inl ⟨rfl, .of rfl⟩

omit [NumOps α] in
theorem contexts_finishLoad (d : Data α) (resume : Resume) : (d.finishLoad resume).contexts = d.contexts := by
  unfold Data.finishLoad
  split
  · unfold Data.addImport
    split <;> rfl
  · rfl

theorem returnValue_scoped (rest : List Activation) (value : Reg α) :
    Scoped d k (returnValue d k a rest value) := by
  unfold returnValue
  dsimp only
  split
  · split
    · exact Or.inl ⟨rfl, sameScopes_setReg rfl⟩
    · exact Or.inl ⟨rfl, .of (contexts_finishLoad _ _)⟩
  · exact Or.inl ⟨rfl, sameScopes_setRegs _ _ _⟩

theorem effectOther_scoped {rest : List Activation} (h : effectOther classes d k a rest i = some e) :
    Scoped d k e := by
  unfold effectOther at h
  dsimp only at h
  split at h
  case h_1 | h_16 =>
    cases h
    exact Or.inl ⟨rfl, sameScopes_setReg rfl⟩
  case h_2 =>
    obtain ⟨start, -, h⟩ := Option.bind_eq_some_iff.mp h
    cases h
    exact Or.inl ⟨rfl, sameScopes_setReg rfl⟩
  case h_3 =>
    obtain ⟨left, -, h⟩ := Option.bind_eq_some_iff.mp h
    obtain ⟨right, -, h⟩ := Option.bind_eq_some_iff.mp h
    cases h
    exact Or.inl ⟨rfl, sameScopes_setReg rfl⟩
  case h_5 => exact getField_scoped h
  case h_6 =>
    obtain ⟨name, -, h⟩ := Option.bind_eq_some_iff.mp h
    exact getField_scoped h
  case h_7 =>
    obtain ⟨name, -, h⟩ := Option.bind_eq_some_iff.mp h
    exact setField_scoped h
  case h_8 => exact call_scoped h
  case h_9 =>
    obtain ⟨d₁, hpush, h⟩ := Option.bind_eq_some_iff.mp h
    cases h
    exact Or.inl ⟨rfl, .of (contexts_pushItem hpush)⟩
  case h_10 =>
    obtain ⟨value, -, h⟩ := Option.bind_eq_some_iff.mp h
    cases h
    exact Or.inl ⟨rfl, sameScopes_setRegs _ _ _⟩
  case h_11 =>
    cases h
    exact returnValue_scoped _ _
  case h_12 =>
    cases h
    refine Or.inl ⟨rfl, .of ?_⟩
    unfold Data.addImport
    split <;> rfl
  case h_13 | h_14 =>
    obtain ⟨_, -, h⟩ := Option.bind_eq_some_iff.mp h
    cases h
    exact Or.inl ⟨rfl, .of rfl⟩
  case h_15 =>
    split at h
    · cases h
    · cases h
      exact Or.inl ⟨rfl, .of rfl⟩
  case h_4 | h_17 =>
    cases h
    exact Or.inl ⟨rfl, .of rfl⟩
  case h_18 => cases h

theorem effect_scoped {rest : List Activation} (h : effect classes d k a rest i = some e) :
    Scoped d k e := by
  unfold effect at h
  split at h
  · cases h
    exact Or.inl ⟨rfl, sameScopes_setRegs _ _ _⟩
  · obtain ⟨address, -, rfl⟩ := Option.map_eq_some_iff.mp h
    exact Or.inl ⟨rfl, sameScopes_setRegs _ _ _⟩
  · cases h
  · exact effectOther_scoped h

/-- A function of the executing frame and its state, made for the label that the instruction names. -/
structure MadeHere (d : Data α) (a : Activation) (i : Instruction) (start : ℕ) (parent : ContextId)
    (s : StateId) : Prop where
  parent : parent = a.currentContext
  state : s = a.state
  opcode : i.opcode = .MOV_FNC
  start : labelIndex (d.states a.state).byteStream i.r1.text = some start

/-- The functions that an instruction makes have the executing frame as their scope. -/
theorem effect_functions {rest : List Activation} (h : effect classes d k a rest i = some e) {n start : ℕ}
    {isAsync : Bool} {parent : ContextId} {s : StateId}
    (hn : e.data.objects[n]? = some (.functionRef start isAsync parent s)) :
    d.objects[n]? = some (.functionRef start isAsync parent s) ∨
      MadeHere d a i start parent s := by
  have hgrows := effect_grows h
  by_cases hlt : n < d.objects.length
  · left
    obtain ⟨o', ho', hkept⟩ := hgrows.kept n _ (List.getElem?_eq_getElem hlt)
    rw [hn] at ho'
    cases ho'
    rw [List.getElem?_eq_getElem hlt]
    generalize d.objects[n] = o at hkept
    cases o with
    | json =>
      obtain ⟨_, _, heq⟩ := hkept
      cases heq
    | string =>
      obtain ⟨_, heq⟩ := hkept
      cases heq
    | functionRef =>
      cases hkept
      rfl
    | instanceObject | classRef => cases hkept
  · right
    obtain ⟨hi, hs⟩ := hgrows.fresh n _ (Nat.le_of_not_lt hlt) hn
    obtain ⟨opcode, r0, r1, r2⟩ := i
    obtain rfl : opcode = .MOV_FNC := hi
    obtain ⟨address, haddress, h⟩ := Option.bind_eq_some_iff.mp h
    cases h
    have hobjects : n = d.objects.length := by
      have hbound := (List.getElem?_eq_some_iff.mp hn).1
      simp only [Data.deliverTo, Data.setReg, Data.setRegs, List.length_append,
        List.length_singleton] at hbound
      omega
    subst hobjects
    simp [Data.deliverTo, Data.setReg, Data.setRegs] at hn
    obtain ⟨rfl, -, rfl, -⟩ := hn
    exact ⟨rfl, hs, rfl, haddress⟩

theorem StepOf.functions {m m' : Machine α} {thread : ℕ} {rest : List Activation} {outcome : Outcome}
    (hs : StepOf classes m m' thread a rest i e outcome) {n start : ℕ} {isAsync : Bool} {parent : ContextId}
    {s : StateId} (hn : m'.data.objects[n]? = some (.functionRef start isAsync parent s)) :
    m.data.objects[n]? = some (.functionRef start isAsync parent s) ∨ MadeHere m.data a i start parent s := by
  obtain ⟨texts, hobjects, -⟩ := hs.objects
  refine effect_functions hs.effect ?_
  by_cases hlt : n < e.data.objects.length
  · rw [hobjects, List.getElem?_append_left hlt] at hn
    exact hn
  · rw [hobjects, List.getElem?_append_right (Nat.le_of_not_lt hlt)] at hn
    obtain ⟨text, -, heq⟩ := List.mem_map.mp (List.mem_of_getElem? hn)
    cases heq

omit [NumOps α] in
theorem raise_nextContext (message : String) (activations : List Activation) :
    (k.raise message activations).control.nextContext = k.nextContext := by
  exact ControlState.raise_keeps (P := (·.nextContext = k.nextContext)) (fun _ _ _ hk => hk) _ _ rfl

theorem throwIn_nextContext (s : StateId) : (k.throwIn s).nextContext = k.nextContext := by
  obtain ⟨c, hthrown⟩ := k.throwIn_setState s
  rw [hthrown]
  rfl

theorem perform_nextContext {rest : List Activation} {action : Action} :
    (k.perform (a :: rest) action).control.nextContext =
      k.nextContext + (if action.enters then 1 else 0) := by
  have hraise : ∀ (k' : ControlState) (message : String), k'.nextContext = k.nextContext →
      (k'.raise message (a :: rest)).control.nextContext = k.nextContext := by
    intro k' message hk
    rw [raise_nextContext, hk]
  cases action <;> try rfl
  case raise | throwing => exact hraise _ _ rfl
  case native pops error =>
    cases error with
    | none => rfl
    | some message => exact hraise _ _ rfl
  case setCatch =>
    unfold ControlState.perform
    dsimp only
    split <;> rfl
  case ret =>
    unfold ControlState.perform
    dsimp only
    split <;> rfl
  case reject target again =>
    unfold ControlState.perform
    dsimp only
    split
    · exact hraise _ _ (throwIn_nextContext target)
    · dsimp only
      rw [throwIn_nextContext]
      rfl

structure Scoping (m : Machine α) : Prop where
  locals : ∀ c, c ≠ 0 → c < m.control.nextContext → (m.data.contexts c).locals.isSome
  older : ∀ c, c ≠ 0 → c < m.control.nextContext → (m.data.contexts c).parentContext < c
  functions : ∀ (n start : ℕ) (isAsync : Bool) (parent : ContextId) (s : StateId),
    m.data.objects[n]? = some (.functionRef start isAsync parent s) →
      parent ≠ 0 ∧ parent < m.control.nextContext

omit [NumOps α] in
theorem FromFunction.older {m : Machine α} {parent : ContextId} (hm : Scoping m)
    (h : FromFunction m.data parent) (hpos : 0 < m.control.nextContext) :
    parent < m.control.nextContext := by
  rcases h with rfl | ⟨n, start, isAsync, s, hn⟩
  · exact hpos
  · exact (hm.functions n start isAsync parent s hn).2

theorem step_scoping {m m' : Machine α} {thread : ℕ} (hstep : m.step classes thread = some m')
    (hl : Linked m.control (frames m.activations)) (h : Scoping m) : Scoping m' := by
  obtain ⟨a, rest, i, e, outcome, hs⟩ := Machine.step_cases hstep
  have hnext : m'.control.nextContext =
      m.control.nextContext + (if e.action.enters then 1 else 0) := by
    rw [hs.control, ← hs.perform]
    exact perform_nextContext
  obtain ⟨others, hbefore, -⟩ := hs.others
  have hmem : (a.state, a.currentContext) ∈ frames m.activations := by
    refine List.mem_map_of_mem (hbefore.mem_iff.mpr ?_)
    exact List.mem_cons_self
  have hcurrent := hl.context_lt _ hmem
  have hpos := hl.nextContext_pos
  have hfunctions : ∀ (n start : ℕ) (isAsync : Bool) (parent : ContextId) (s : StateId),
      m'.data.objects[n]? = some (.functionRef start isAsync parent s) →
        parent ≠ 0 ∧ parent < m'.control.nextContext := by
    intro n start isAsync parent s hn
    have hle : m.control.nextContext ≤ m'.control.nextContext := by
      rw [hnext]
      exact Nat.le_add_right _ _
    rcases hs.functions hn with hn' | hmade
    · obtain ⟨hne, hlt⟩ := h.functions n start isAsync parent s hn'
      exact ⟨hne, Nat.lt_of_lt_of_le hlt hle⟩
    · rw [hmade.parent]
      exact ⟨hl.context_pos _ hmem, Nat.lt_of_lt_of_le hcurrent hle⟩
  rcases effect_scoped hs.effect with ⟨henters, hsame⟩ | ⟨henters, hone⟩
  · rw [henters] at hnext
    simp only [Bool.false_eq_true, if_false, Nat.add_zero] at hnext
    refine ⟨fun c hc hlt => ?_, fun c hc hlt => ?_, hfunctions⟩
    · rw [hs.contexts]
      exact hsame.locals c (h.locals c hc (hnext ▸ hlt))
    · rw [hs.contexts, hsame.parent]
      exact h.older c hc (hnext ▸ hlt)
  · rw [henters, if_pos rfl] at hnext
    have hbelow : ∀ c, c < m'.control.nextContext → c ≠ m.control.nextContext →
        c < m.control.nextContext := by
      intro c hlt hne
      rw [hnext] at hlt
      exact Nat.lt_of_le_of_ne (Nat.lt_succ_iff.mp hlt) hne
    refine ⟨fun c hc hlt => ?_, fun c hc hlt => ?_, hfunctions⟩
    · rw [hs.contexts]
      by_cases heq : c = m.control.nextContext
      · rw [heq]
        exact hone.entered
      · exact hone.locals c heq (h.locals c hc (hbelow c hlt heq))
    · rw [hs.contexts]
      by_cases heq : c = m.control.nextContext
      · rw [heq]
        exact hone.origin.older h hpos
      · rw [hone.parent c heq]
        exact h.older c hc (hbelow c hlt heq)

theorem boot_scoping {className : String} {code : Code} {input : List String} {m : Machine α}
    (h : boot className code input = some m) : Scoping m := by
  obtain ⟨staticEntry, entry, hboot⟩ := boot_of h
  have hnext : m.control.nextContext = 3 := by
    rw [hboot.control]
    rfl
  have htwo : ∀ c : ℕ, c ≠ 0 → c < 3 → c = 1 ∨ c = 2 := by
    intro c hc hlt
    omega
  unfold boot at h
  obtain ⟨⟨entry, symbols⟩, -, h⟩ := Option.bind_eq_some_iff.mp h
  obtain ⟨start, -, h⟩ := Option.bind_eq_some_iff.mp h
  obtain ⟨⟨staticEntry, staticSymbols⟩, -, h⟩ := Option.bind_eq_some_iff.mp h
  cases h
  refine ⟨fun c hc hlt => ?_, fun c hc hlt => ?_, nofun⟩
  · rcases htwo c hc (hnext ▸ hlt) with rfl | rfl <;> rfl
  · rcases htwo c hc (hnext ▸ hlt) with rfl | rfl
    · exact Nat.one_pos
    · exact Nat.two_pos

theorem reachable_scoping {m : Machine α} (h : m.Reachable classes) : Scoping m := by
  obtain ⟨className, code, input, m₀, hcode, hboot, hpath⟩ := h
  induction hpath with
  | refl => exact boot_scoping hboot
  | tail hpath hstep ih =>
    obtain ⟨thread, hstep⟩ := hstep
    exact step_scoping hstep (reachable_linked ⟨className, code, input, m₀, hcode, hboot, hpath⟩) ih

end

end Zeroscript
