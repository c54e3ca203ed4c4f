import Zeroscript.Frames

/-! # What a step does to states, variables and classes

A step changes the parts of the data that outlive a frame by a few kinds of edits only. An invariant
that every edit keeps holds along a run. -/
namespace Zeroscript

open Relation (ReflTransGen)

section

variable {α : Type}

structure SameVariables (d d' : Data α) : Prop where
  states : d'.states = d.states
  synchronized : d'.synchronized = d.synchronized
  knownTypes : d'.knownTypes = d.knownTypes

variable {d d' d₁ d₂ : Data α}

theorem SameVariables.trans (h : SameVariables d d₁) (h' : SameVariables d₁ d₂) : SameVariables d d₂ :=
  ⟨h'.states.trans h.states, h'.synchronized.trans h.synchronized, h'.knownTypes.trans h.knownTypes⟩

theorem sameVariables_pushItem {stack : StackId} {index : ℤ} {v : Reg α}
    (h : d.pushItem stack index v = some d') : SameVariables d d' := by
  unfold Data.pushItem at h
  split at h
  · cases h
    exact ⟨rfl, rfl, rfl⟩
  · cases h

theorem sameVariables_pushException {stack : StackId} {index : ℤ} {message : String}
    (h : d.pushException stack index message = some d') : SameVariables d d' := by
  unfold Data.pushException at h
  have hobject : SameVariables d (d.newReg .str (.string message 0)).1 := ⟨rfl, rfl, rfl⟩
  exact hobject.trans (sameVariables_pushItem h)

theorem sameVariables_fillKeyList [NumOps α] (keys : List String) (i : ℕ) (properties : ZMap (Reg α))
    (d : Data α) : SameVariables d (Data.fillKeyList keys i properties d).2 := by
  induction keys generalizing i properties d with
  | nil => exact ⟨rfl, rfl, rfl⟩
  | cons key keys ih =>
    have hobject : SameVariables d (d.newReg .str (.string key 0)).1 := ⟨rfl, rfl, rfl⟩
    exact hobject.trans (ih _ _ _)

theorem sameVariables_setCache (d : Data α) (address cache : Addr) :
    SameVariables d (d.setCache address cache) := by
  unfold Data.setCache
  split <;> exact ⟨rfl, rfl, rfl⟩

theorem sameVariables_nativeKeyList [NumOps α] {address list : Addr}
    (h : d.nativeKeyList address = some (d', list)) : SameVariables d d' := by
  unfold Data.nativeKeyList at h
  obtain ⟨⟨properties, cache⟩, -, h⟩ := Option.bind_eq_some_iff.mp h
  dsimp only at h
  split at h
  · cases h
    exact ⟨rfl, rfl, rfl⟩
  · obtain ⟨o, -, h⟩ := Option.bind_eq_some_iff.mp h
    cases o with
    | json empty _ =>
      cases h
      refine .trans ?_ (sameVariables_setCache _ _ _)
      have hfill := sameVariables_fillKeyList properties.keyList 0 empty d.newJson.1
      exact ⟨hfill.states, hfill.synchronized, hfill.knownTypes⟩
    | string | functionRef | instanceObject | classRef => cases h

theorem sameVariables_callNative [NumOps α] {f : Native} {argument : Reg α} {receiver : Addr}
    {c : ContextId} {register : ℕ} {result : NativeReturn}
    (h : d.callNative f argument receiver c register = some (d', result)) : SameVariables d d' := by
  unfold Data.callNative at h
  cases f with
  | print =>
    obtain ⟨d₁, hprint, h⟩ := Option.bind_eq_some_iff.mp h
    cases h
    unfold Data.nativePrint at hprint
    split at hprint
    · cases hprint
      exact ⟨rfl, rfl, rfl⟩
    · obtain ⟨text, -, rfl⟩ := Option.map_eq_some_iff.mp hprint
      exact ⟨rfl, rfl, rfl⟩
  | keyList =>
    obtain ⟨⟨d₁, list⟩, hlist, h⟩ := Option.bind_eq_some_iff.mp h
    cases h
    exact (sameVariables_nativeKeyList hlist).trans ⟨rfl, rfl, rfl⟩
  | number =>
    dsimp only at h
    split at h
    · cases h
      exact ⟨rfl, rfl, rfl⟩
    · obtain ⟨_, -, h⟩ := Option.bind_eq_some_iff.mp h
      cases h
      exact ⟨rfl, rfl, rfl⟩
  | assert =>
    dsimp only at h
    split at h <;>
    · cases h
      exact ⟨rfl, rfl, rfl⟩
  | strlen | keySize =>
    obtain ⟨_, -, h⟩ := Option.bind_eq_some_iff.mp h
    cases h
    exact ⟨rfl, rfl, rfl⟩
  | startsWith | equals =>
    dsimp only at h
    split at h
    · cases h
      exact ⟨rfl, rfl, rfl⟩
    · obtain ⟨_, -, h⟩ := Option.bind_eq_some_iff.mp h
      obtain ⟨_, -, h⟩ := Option.bind_eq_some_iff.mp h
      cases h
      exact ⟨rfl, rfl, rfl⟩
  | substring =>
    dsimp only at h
    split at h
    · obtain ⟨_, -, h⟩ := Option.bind_eq_some_iff.mp h
      obtain ⟨_, -, h⟩ := Option.bind_eq_some_iff.mp h
      obtain ⟨_, -, h⟩ := Option.bind_eq_some_iff.mp h
      cases h
      exact ⟨rfl, rfl, rfl⟩
    · cases h
      exact ⟨rfl, rfl, rfl⟩
  | object | int | gc | exit | read =>
    cases h
    exact ⟨rfl, rfl, rfl⟩

theorem lookup_replace (types : List (String × TypeInfo α)) (className name : String) (info : TypeInfo α) :
    (types.map fun entry => if entry.1 = className then (className, info) else entry).lookup name =
      if name = className then (types.lookup className).map fun _ => info else types.lookup name := by
  induction types with
  | nil => split <;> rfl
  | cons entry types ih =>
    obtain ⟨name', info'⟩ := entry
    by_cases hentry : name' = className
    · subst hentry
      by_cases hname : name = name'
      · subst hname
        simp
      · simpa [List.lookup_cons, hname, beq_eq_false_iff_ne.mpr hname] using ih
    · by_cases hname : name = name'
      · subst hname
        simp [hentry]
      · have hrest : ((name', info') :: types).lookup className = types.lookup className := by
          simp [List.lookup_cons, beq_eq_false_iff_ne.mpr (Ne.symm hentry)]
        rw [hrest]
        simpa [List.lookup_cons, hentry, beq_eq_false_iff_ne.mpr hname] using ih

theorem typeInfo_setTypeInfo (d : Data α) (className name : String) (info : TypeInfo α) :
    (d.setTypeInfo className info).typeInfo name = if name = className then some info else d.typeInfo name := by
  unfold Data.setTypeInfo Data.typeInfo
  dsimp only
  cases hfound : d.knownTypes.lookup className with
  | some known =>
    rw [if_pos Option.isSome_some, lookup_replace, hfound]
    rfl
  | none =>
    rw [if_neg (by simp), List.lookup_append]
    by_cases hname : name = className
    · subst hname
      simp [hfound]
    · simp [hname, List.lookup_cons, beq_eq_false_iff_ne.mpr hname]

def Action.loading : Action → Option String
  | .load className _ _ => some className
  | _ => none

def Data.HasCode (d : Data α) (className : String) (code : Code) : Prop :=
  (∃ s, (d.states s).className = className ∧ (d.states s).byteStream = code) ∨
    ∃ info, d.typeInfo className = some info ∧ info.bytecodeStream = code

/-- An edit by the instruction `i` of an activation, where `own` is the class of its state, `resumes`
says what is done when it and the ones under it end, and `loading` is the class that is loaded. -/
inductive Edit (classes : String → Option Code) (own : String) (resumes : List Resume) (i : Instruction)
    (loading : Option String) : Data α → Data α → Prop where
  | plain {d d' : Data α} (h : SameVariables d d') : Edit classes own resumes i loading d d'
  | shared (d : Data α) (s : StateId) (name : String) (v : Reg α) :
      Edit classes own resumes i loading d (d.setShared s name v)
  | static (d : Data α) (className name : String) (v : Reg α) :
      Edit classes own resumes i loading d (d.setStatic className name v)
  | register {d : Data α} {className : String} {info : TypeInfo α} {code : Code}
      (hloading : loading = some className) (hnew : d.typeInfo className = none) (hown : d.typeInfo own = some info)
      (hcode : classes ((info.importsTable.get className).getD className) = some code) :
      Edit classes own resumes i loading d (d.setTypeInfo className { bytecodeStream := code })
  | importing (d : Data α) (hi : i.opcode = .IMPORT_CLS) :
      Edit classes own resumes i loading d (d.addImport own i.r1.text i.r0.text)
  | loaded (d : Data α) {className path : String} (hresume : .load className path ∈ resumes) :
      Edit classes own resumes i loading d (d.addImport className className path)
  | ownState {d : Data α} (s : StateId) {className : String} {code : Code} (root : ContextId)
      (hcode : d.HasCode className code) :
      Edit classes own resumes i loading d (d.newOwnState s className code root)
  | asyncState (d : Data α) (s s' : StateId) (root : ContextId) :
      Edit classes own resumes i loading d (d.newState s { d.states s' with rootContext := root })

abbrev Edits (classes : String → Option Code) (own : String) (resumes : List Resume) (i : Instruction)
    (loading : Option String) : Data α → Data α → Prop :=
  ReflTransGen (Edit classes own resumes i loading)

variable {classes : String → Option Code} {own : String} {resumes : List Resume} {i : Instruction}
  {loading : Option String}

theorem Edits.plain (h : SameVariables d d') : Edits classes own resumes i loading d d' := .single (.plain h)

theorem edits_finishLoad {resume : Resume} (h : resume ∈ resumes) (d : Data α) :
    Edits classes own resumes i loading d (d.finishLoad resume) := by
  cases resume with
  | load className path => exact .single (.loaded d h)
  | method | construct | startup | root => exact .refl

variable [NumOps α] {k : ControlState} {a : Activation} {rest : List Activation} {e : Effect α}

theorem loadClass_edits {searched : Addr} {className : String} {info : TypeInfo α}
    (hnew : d.typeInfo className = none) (hown : d.typeInfo own = some info)
    (h : loadClass classes d k searched className info.importsTable = some e) :
    Edits classes own resumes i e.action.loading d e.data := by
  unfold loadClass at h
  dsimp only at h
  split at h
  · cases h
    exact .refl
  · rename_i code hcode
    obtain ⟨start, -, h⟩ := Option.bind_eq_some_iff.mp h
    obtain ⟨⟨entry, symbols⟩, -, h⟩ := Option.bind_eq_some_iff.mp h
    cases h
    have hregister : Edits classes own resumes i (some className) d _ :=
      .single (.register rfl hnew hown hcode)
    have hknown : (d.setTypeInfo className { bytecodeStream := code }).HasCode className code := by
      right
      refine ⟨_, (typeInfo_setTypeInfo d className className _).trans (if_pos rfl), rfl⟩
    have hstate : Edits classes own resumes i (some className) d _ :=
      hregister.tail (.ownState k.nextState k.nextContext hknown)
    exact hstate.tail (.plain ⟨rfl, rfl, rfl⟩)

theorem searchThis_edits {name : String} {register : ℕ} (h : searchThis d a name register = some e) :
    Edits classes own resumes i loading d e.data := by
  unfold searchThis at h
  obtain ⟨slot, -, h⟩ := Option.bind_eq_some_iff.mp h
  dsimp only at h
  split at h
  · cases h
    exact .plain ⟨rfl, rfl, rfl⟩
  · split at h
    · cases h
      exact .plain ⟨rfl, rfl, rfl⟩
    · split at h <;>
      · cases h
        exact .plain ⟨rfl, rfl, rfl⟩

theorem getField_edits {object : ℕ} {name : String} {register : ℕ}
    (h : getField classes d k a object name register = some e) :
    Edits classes (d.states a.state).className resumes i e.action.loading d e.data := by
  unfold getField at h
  dsimp only at h
  split at h
  · cases h
    exact .plain ⟨rfl, rfl, rfl⟩
  · split at h
    · exact searchThis_edits h
    · split at h
      · split at h
        · exact searchThis_edits h
        · cases h
          exact .refl
      · obtain ⟨o, -, h⟩ := Option.bind_eq_some_iff.mp h
        cases o with
        | classRef className =>
          dsimp only at h
          split at h
          · split at h
            · cases h
              exact .plain ⟨rfl, rfl, rfl⟩
            · cases h
              exact .refl
          · rename_i hnew
            obtain ⟨info, hown, h⟩ := Option.bind_eq_some_iff.mp h
            exact loadClass_edits hnew hown h
        | instanceObject target =>
          obtain ⟨value, -, h⟩ := Option.bind_eq_some_iff.mp h
          cases value with
          | none =>
            cases h
            exact .refl
          | some value =>
            cases h
            exact .plain ⟨rfl, rfl, rfl⟩
        | json | string =>
          obtain ⟨properties, -, h⟩ := Option.bind_eq_some_iff.mp h
          split at h
          · cases h
            exact .plain ⟨rfl, rfl, rfl⟩
          · cases h
            exact .refl
        | functionRef => cases h
      · cases h

omit [NumOps α] in
theorem sameVariables_refused {target : StateId} {message : String} {refused : Data α × String}
    (h : (match k.handler target with
      | some _ =>
        (d.pushException (k.states target).stackStart ((k.states target).stackPtr + 1) message).map
          (·, message)
      | none => some (d.setDetails target (d.detailedMessage target message),
          d.detailedMessage target message)) = some refused) : SameVariables d refused.1 := by
  split at h
  · obtain ⟨d', hpush, rfl⟩ := Option.map_eq_some_iff.mp h
    exact sameVariables_pushException hpush
  · cases h
    exact ⟨rfl, rfl, rfl⟩

theorem sameVariables_setFieldVirtual {searched : Addr} {target : StateId} {name : String}
    {value : Reg α} (h : setFieldVirtual d k a searched target name value = some e) :
    SameVariables d e.data := by
  unfold setFieldVirtual at h
  dsimp only at h
  split at h
  · cases h
  · split at h
    · split at h
      · obtain ⟨refused, hrefused, h⟩ := Option.bind_eq_some_iff.mp h
        cases h
        exact (sameVariables_refused hrefused).trans ⟨rfl, rfl, rfl⟩
      · cases h
        exact ⟨rfl, rfl, rfl⟩
    · obtain ⟨refused, hrefused, h⟩ := Option.bind_eq_some_iff.mp h
      cases h
      exact sameVariables_refused hrefused

theorem setField_edits {object : ℕ} {name : String} {value : Reg α}
    (h : setField classes d k a object name value = some e) :
    Edits classes (d.states a.state).className resumes i e.action.loading d e.data := by
  unfold setField at h
  dsimp only at h
  split at h
  · obtain ⟨slot, -, h⟩ := Option.bind_eq_some_iff.mp h
    split at h
    · cases h
      exact .plain ⟨rfl, rfl, rfl⟩
    · cases h
      exact .single (.shared d a.state name value)
  · split at h
    · cases h
      exact .refl
    · obtain ⟨o, -, h⟩ := Option.bind_eq_some_iff.mp h
      cases o with
      | classRef className =>
        dsimp only at h
        split at h
        · cases h
          exact .single (.static d _ name value)
        · split at h
          · cases h
            exact .single (.static d className name value)
          · rename_i hnew
            obtain ⟨info, hown, h⟩ := Option.bind_eq_some_iff.mp h
            exact loadClass_edits hnew hown h
      | instanceObject target => exact .plain (sameVariables_setFieldVirtual h)
      | json | string =>
        cases h
        exact .plain ⟨rfl, rfl, rfl⟩
      | functionRef => cases h
    · cases h

theorem callFunction_edits {start : ℕ} {isAsync : Bool} {parent : ContextId} {target : StateId}
    {register n : ℕ} (h : callFunction d k a start isAsync parent target register n = some e) :
    Edits classes own resumes i loading d e.data := by
  unfold callFunction at h
  obtain ⟨arguments, -, h⟩ := Option.bind_eq_some_iff.mp h
  obtain ⟨d₁, hpush, h⟩ := Option.bind_eq_some_iff.mp h
  have hpushed : Edits classes own resumes i loading d d₁ := .plain (sameVariables_pushItem hpush)
  dsimp only at h
  obtain ⟨⟨entry, symbols⟩, -, h⟩ := Option.bind_eq_some_iff.mp h
  dsimp only at h
  split at h
  · split at h
    · cases h
      have hstate := hpushed.tail (.ownState k.nextState (k.states target).currentContext
        (Or.inl ⟨target, rfl, rfl⟩))
      exact hstate.tail (.plain ⟨rfl, rfl, rfl⟩)
    · cases h
      exact hpushed.tail (.plain ⟨rfl, rfl, rfl⟩)
  · split at h
    · cases h
      have hstack : Edits classes own resumes i loading d _ := hpushed.tail
        (.plain (show SameVariables d₁ { d₁ with valueStacks := _ } from ⟨rfl, rfl, rfl⟩))
      have hstate := hstack.tail (.asyncState _ k.nextState target k.nextContext)
      exact hstate.tail (.plain ⟨rfl, rfl, rfl⟩)
    · cases h
      exact hpushed.tail (.plain ⟨rfl, rfl, rfl⟩)

theorem construct_edits {className : String} {register : ℕ}
    (h : construct classes d k a className register = some e) :
    Edits classes (d.states a.state).className resumes i e.action.loading d e.data := by
  unfold construct at h
  obtain ⟨info, hown, h⟩ := Option.bind_eq_some_iff.mp h
  split at h
  · rename_i hnew
    exact loadClass_edits hnew hown h
  · rename_i info hinfo
    dsimp only at h
    obtain ⟨d₁, hpush, h⟩ := Option.bind_eq_some_iff.mp h
    obtain ⟨⟨entry, symbols⟩, -, h⟩ := Option.bind_eq_some_iff.mp h
    cases h
    have hobject : Edits classes (d.states a.state).className resumes i none d
        ((d.newReg .instanceObj (.instanceObject k.nextState)).1.setReg a.currentContext register
          (d.newReg .instanceObj (.instanceObject k.nextState)).2) := .plain ⟨rfl, rfl, rfl⟩
    have hstate := hobject.tail (.ownState k.nextState k.nextContext (Or.inr ⟨info, hinfo, rfl⟩))
    exact hstate.tail (.plain ((sameVariables_pushItem hpush).trans ⟨rfl, rfl, rfl⟩))

theorem call_edits {callee register n : ℕ} (h : call classes d k a callee register n = some e) :
    Edits classes (d.states a.state).className resumes i e.action.loading d e.data := by
  unfold call at h
  dsimp only at h
  split at h
  · split at h <;>
    · obtain ⟨argument, -, h⟩ := Option.bind_eq_some_iff.mp h
      obtain ⟨⟨d₁, result⟩, hresult, h⟩ := Option.bind_eq_some_iff.mp h
      cases result <;>
      · cases h
        exact .plain (sameVariables_callNative hresult)
  · obtain ⟨o, -, h⟩ := Option.bind_eq_some_iff.mp h
    split at h
    · exact callFunction_edits h
    · cases h
  · obtain ⟨o, -, h⟩ := Option.bind_eq_some_iff.mp h
    split at h
    · exact construct_edits h
    · cases h
  · cases h
  · cases h
    exact .refl

theorem returnValue_edits (rest : List Activation) (value : Reg α) :
    Edits classes own ((a :: rest).map (·.resume)) i loading d (returnValue d k a rest value).data := by
  have hvalue : Edits classes own ((a :: rest).map (·.resume)) i loading d
      { d with returnValues := Function.update d.returnValues a.state value } := .plain ⟨rfl, rfl, rfl⟩
  have hload : ∀ d : Data α, Edits classes own ((a :: rest).map (·.resume)) i loading d (d.finishLoad a.resume) :=
    fun d => edits_finishLoad List.mem_cons_self d
  unfold returnValue
  dsimp only
  split
  · split
    · exact .plain ⟨rfl, rfl, rfl⟩
    · exact hvalue.trans (hload _)
  · exact .plain ⟨rfl, rfl, rfl⟩

theorem effectOther_edits (h : effectOther classes d k a rest i = some e) :
    Edits classes (d.states a.state).className ((a :: rest).map (·.resume)) i e.action.loading d
      e.data := by
  unfold effectOther at h
  dsimp only at h
  split at h
  case h_1 | h_16 =>
    cases h
    exact .plain ⟨rfl, rfl, rfl⟩
  case h_2 =>
    obtain ⟨start, -, h⟩ := Option.bind_eq_some_iff.mp h
    cases h
    exact .plain ⟨rfl, rfl, rfl⟩
  case h_3 =>
    obtain ⟨left, -, h⟩ := Option.bind_eq_some_iff.mp h
    obtain ⟨right, -, h⟩ := Option.bind_eq_some_iff.mp h
    cases h
    exact .plain ⟨rfl, rfl, rfl⟩
  case h_5 => exact getField_edits h
  case h_6 =>
    obtain ⟨name, -, h⟩ := Option.bind_eq_some_iff.mp h
    exact getField_edits h
  case h_7 =>
    obtain ⟨name, -, h⟩ := Option.bind_eq_some_iff.mp h
    exact setField_edits h
  case h_8 => exact call_edits h
  case h_9 =>
    obtain ⟨d₁, hpush, h⟩ := Option.bind_eq_some_iff.mp h
    cases h
    exact .plain (sameVariables_pushItem hpush)
  case h_10 =>
    obtain ⟨value, -, h⟩ := Option.bind_eq_some_iff.mp h
    cases h
    exact .plain ⟨rfl, rfl, rfl⟩
  case h_11 =>
    cases h
    exact returnValue_edits _ _
  case h_12 hi =>
    cases h
    exact .single (.importing d hi)
  case h_13 | h_14 =>
    obtain ⟨_, -, h⟩ := Option.bind_eq_some_iff.mp h
    cases h
    exact .refl
  case h_15 =>
    split at h
    · cases h
    · cases h
      exact .refl
  case h_4 | h_17 =>
    cases h
    exact .refl
  case h_18 => cases h

theorem effect_edits (h : effect classes d k a rest i = some e) :
    Edits classes (d.states a.state).className ((a :: rest).map (·.resume)) i e.action.loading d
      e.data := by
  unfold effect at h
  split at h
  · cases h
    exact .plain ⟨rfl, rfl, rfl⟩
  · obtain ⟨address, -, rfl⟩ := Option.map_eq_some_iff.mp h
    exact .plain ⟨rfl, rfl, rfl⟩
  · cases h
  · exact effectOther_edits h

omit [NumOps α] in
theorem deliver_edits {outcome : Outcome} {message details : String} {left : List (StateId × Resume)}
    (hleft : ∀ p ∈ left, p.2 ∈ resumes) (h : d.deliver outcome message left = some (d', details)) :
    Edits classes own resumes i loading d d' := by
  refine deliver_keeps (P := Edits classes own resumes i loading d) ?_ ?_ ?_ .refl h
  · intro d₁ d₂ stack index message hd hpush
    exact hd.trans (Edits.plain (sameVariables_pushException hpush))
  · intro d₁ s details hd
    exact hd.trans (Edits.plain ⟨rfl, rfl, rfl⟩)
  · intro d₁ s resume hp hd
    exact hd.trans (edits_finishLoad (hleft _ hp) _)

omit [NumOps α] in
theorem raise_left {message : String} {activations : List Activation} {p : StateId × Resume}
    (hp : p ∈ (k.raise message activations).left) : p.2 ∈ activations.map (·.resume) := by
  induction activations generalizing k with
  | nil => cases hp
  | cons a rest ih =>
    rw [ControlState.raise] at hp
    split at hp
    · cases hp
    · split at hp
      · rename_i register hresume
        rcases List.mem_cons.mp hp with rfl | hp
        · exact List.mem_cons_self
        · exact List.mem_cons_of_mem _ (ih hp)
      · cases List.mem_singleton.mp hp
        exact List.mem_cons_self

omit [NumOps α] in
theorem perform_left {action : Action} {p : StateId × Resume}
    (hp : p ∈ (k.perform (a :: rest) action).left) : p.2 ∈ (a :: rest).map (·.resume) := by
  cases action <;> try cases hp
  case raise | throwing => exact raise_left hp
  case native pops error =>
    cases error with
    | none => cases hp
    | some message => exact raise_left hp
  case ret =>
    unfold ControlState.perform at hp
    dsimp only at hp
    split at hp <;> cases hp
  case reject target again =>
    unfold ControlState.perform at hp
    dsimp only at hp
    split at hp
    · exact raise_left hp
    · cases hp

theorem StepOf.edits {m m' : Machine α} {thread : ℕ} {outcome : Outcome}
    (h : StepOf classes m m' thread a rest i e outcome) :
    Edits classes (m.data.states a.state).className ((a :: rest).map (·.resume)) i e.action.loading
      m.data m'.data := by
  have heffect := effect_edits h.effect
  rcases h.delivered with ⟨-, hdata⟩ | ⟨message, details, -, hdeliver⟩
  · rw [hdata]
    exact heffect
  · refine heffect.trans (deliver_edits (fun p hp => ?_) hdeliver)
    rw [← h.perform] at hp
    have hmem := perform_left hp
    exact hmem

/-- What every edit keeps, every step keeps. -/
theorem StepOf.keeps {m m' : Machine α} {thread : ℕ} {outcome : Outcome} {P : Data α → Prop}
    (h : StepOf classes m m' thread a rest i e outcome)
    (hedit : ∀ {d d' : Data α}, Edit classes (m.data.states a.state).className
      ((a :: rest).map (·.resume)) i e.action.loading d d' → P d → P d') (hm : P m.data) : P m'.data := by
  have hedits := h.edits
  generalize m'.data = d' at hedits ⊢
  induction hedits with
  | refl => exact hm
  | tail _ hlast ih => exact hedit hlast ih

end

end Zeroscript
