import Zeroscript.Steps

/-! # What a step does to the heap

Objects stay what they are; `Makes` says which objects an instruction adds. -/
namespace Zeroscript

section

variable {α : Type}

def Object.Kept : Object α → Object α → Prop
  | .json _ _, o' => ∃ properties cache, o' = .json properties cache
  | .string value _, o' => ∃ cache, o' = .string value cache
  | o, o' => o' = o

theorem Object.Kept.refl (o : Object α) : o.Kept o := by
  cases o with
  | json properties cache => exact ⟨properties, cache, rfl⟩
  | string value cache => exact ⟨cache, rfl⟩
  | functionRef | instanceObject | classRef => rfl

theorem Object.Kept.trans {o₁ o₂ o₃ : Object α} (h : o₁.Kept o₂) (h' : o₂.Kept o₃) : o₁.Kept o₃ := by
  cases o₁ with
  | json properties cache =>
    obtain ⟨properties, cache, rfl⟩ := h
    exact h'
  | string value cache =>
    obtain ⟨cache, rfl⟩ := h
    exact h'
  | functionRef | instanceObject | classRef =>
    cases h
    exact h'

/-- The objects of `d` are kept, and the new ones are of a kind. -/
structure Grows (makes : Object α → Prop) (d d' : Data α) : Prop where
  length : d.objects.length ≤ d'.objects.length
  kept : ∀ (n : ℕ) (o : Object α), d.objects[n]? = some o → ∃ o', d'.objects[n]? = some o' ∧ o.Kept o'
  fresh : ∀ (n : ℕ) (o : Object α), d.objects.length ≤ n → d'.objects[n]? = some o → makes o

variable {makes : Object α → Prop} {d d' d₁ d₂ d₃ : Data α}

theorem Grows.same (h : d'.objects = d.objects) : Grows makes d d' where
  length := le_of_eq (congrArg List.length h.symm)
  kept n o ho := ⟨o, by rw [h, ho], .refl o⟩
  fresh n o hn ho := by
    rw [h, List.getElem?_eq_none hn] at ho
    cases ho

theorem Grows.refl (d : Data α) : Grows makes d d := .same rfl

theorem Grows.mono {makes' : Object α → Prop} (h : Grows makes d d') (hm : ∀ o, makes o → makes' o) :
    Grows makes' d d' where
  length := h.length
  kept := h.kept
  fresh n o hn ho := hm o (h.fresh n o hn ho)

def KeptBy (makes : Object α → Prop) : Prop := ∀ o o', makes o → o.Kept o' → makes o'

theorem Grows.trans (hm : KeptBy makes) (h : Grows makes d₁ d₂) (h' : Grows makes d₂ d₃) :
    Grows makes d₁ d₃ where
  length := le_trans h.length h'.length
  kept n o ho := by
    obtain ⟨o₂, ho₂, hk₂⟩ := h.kept n o ho
    obtain ⟨o₃, ho₃, hk₃⟩ := h'.kept n o₂ ho₂
    exact ⟨o₃, ho₃, hk₂.trans hk₃⟩
  fresh n o hn ho := by
    by_cases hn₂ : d₂.objects.length ≤ n
    · exact h'.fresh n o hn₂ ho
    · obtain ⟨o₂, ho₂⟩ : ∃ o₂, d₂.objects[n]? = some o₂ :=
        ⟨_, List.getElem?_eq_getElem (Nat.lt_of_not_le hn₂)⟩
      obtain ⟨o₃, ho₃, hk₃⟩ := h'.kept n o₂ ho₂
      rw [ho] at ho₃
      cases ho₃
      exact hm o₂ o (h.fresh n o₂ hn ho₂) hk₃

theorem Grows.then_same (h : Grows makes d₁ d₂) (hs : d₃.objects = d₂.objects) : Grows makes d₁ d₃ where
  length := by rw [hs]; exact h.length
  kept n o ho := by rw [hs]; exact h.kept n o ho
  fresh n o hn ho := by rw [hs] at ho; exact h.fresh n o hn ho

theorem Grows.append {objects : List (Object α)} (ho : ∀ o ∈ objects, makes o)
    (h : d'.objects = d.objects ++ objects) : Grows makes d d' where
  length := by simp [h]
  kept n o ho' := by
    obtain ⟨hn, -⟩ := List.getElem?_eq_some_iff.mp ho'
    exact ⟨o, by rw [h, List.getElem?_append_left hn, ho'], .refl o⟩
  fresh n o hn ho' := by
    rw [h, List.getElem?_append_right hn] at ho'
    exact ho o (List.mem_of_getElem? ho')

theorem Grows.alloc {o : Object α} (ho : makes o) (h : d'.objects = d.objects ++ [o]) :
    Grows makes d d' := by
  refine .append (fun o' ho' => ?_) h
  rw [List.mem_singleton.mp ho']
  exact ho

theorem Grows.setObject {address : Addr} {o o' : Object α} (ho : d.objects[address - 1]? = some o)
    (hk : o.Kept o') : Grows makes d (d.setObject address o') where
  length := by simp [Data.setObject]
  kept n o₁ ho₁ := by
    by_cases hn : address - 1 = n
    · subst hn
      rw [ho] at ho₁
      cases ho₁
      obtain ⟨hlt, -⟩ := List.getElem?_eq_some_iff.mp ho
      exact ⟨o', by simp [Data.setObject, hlt], hk⟩
    · exact ⟨o₁, by simp [Data.setObject, hn, ho₁], .refl o₁⟩
  fresh n o₁ hn ho₁ := by
    have hlen : (d.setObject address o').objects.length ≤ n := by simpa [Data.setObject] using hn
    rw [List.getElem?_eq_none hlen] at ho₁
    cases ho₁

def Object.Plain : Object α → Prop
  | .functionRef .. | .instanceObject _ => False
  | _ => True

/-- The objects that an instruction makes. -/
def Makes (k : ControlState) (a : Activation) (i : Instruction) (action : Action) : Object α → Prop
  | .functionRef _ _ _ s => i.opcode = .MOV_FNC ∧ s = a.state
  | .instanceObject s =>
    (i.opcode = .CREATE_THIS ∧ s = a.state) ∨ ((∃ entry, action = .construct entry) ∧ s = k.nextState)
  | _ => True

theorem keptBy_plain : KeptBy (Object.Plain : Object α → Prop) := by
  intro o o' ho hk
  cases o with
  | json =>
    obtain ⟨properties, cache, rfl⟩ := hk
    trivial
  | string =>
    obtain ⟨cache, rfl⟩ := hk
    trivial
  | classRef =>
    cases hk
    trivial
  | functionRef | instanceObject => cases ho

theorem makes_of_plain {k : ControlState} {a : Activation} {i : Instruction} {action : Action}
    {o : Object α} (h : o.Plain) : Makes k a i action o := by
  cases o with
  | functionRef | instanceObject => cases h
  | json | string | classRef => trivial

@[simp] theorem objects_setRegs (d : Data α) (c : ContextId) (regs : Regs α) :
    (d.setRegs c regs).objects = d.objects := rfl

@[simp] theorem objects_setShared (d : Data α) (s : StateId) (name : String) (v : Reg α) :
    (d.setShared s name v).objects = d.objects := rfl

@[simp] theorem objects_setStatic (d : Data α) (className name : String) (v : Reg α) :
    (d.setStatic className name v).objects = d.objects := by
  unfold Data.setStatic
  split <;> rfl

@[simp] theorem objects_addImport (d : Data α) (className shortName path : String) :
    (d.addImport className shortName path).objects = d.objects := by
  unfold Data.addImport
  split <;> rfl

@[simp] theorem objects_finishLoad (d : Data α) (resume : Resume) :
    (d.finishLoad resume).objects = d.objects := by
  unfold Data.finishLoad
  split
  · exact objects_addImport _ _ _ _
  · rfl

theorem objects_pushItem {stack : StackId} {index : ℤ} {v : Reg α}
    (h : d.pushItem stack index v = some d') : d'.objects = d.objects := by
  unfold Data.pushItem at h
  split at h
  · cases h
    rfl
  · cases h

@[simp] theorem objects_newReg (d : Data α) (type : RegType) (o : Object α) :
    (d.newReg type o).1.objects = d.objects ++ [o] := rfl

theorem objects_pushException {stack : StackId} {index : ℤ} {message : String}
    (h : d.pushException stack index message = some d') :
    d'.objects = d.objects ++ [.string message 0] :=
  objects_pushItem h

theorem plain_newReg (d : Data α) (type : RegType) {o : Object α} (ho : o.Plain) :
    Grows Object.Plain d (d.newReg type o).1 := .alloc ho rfl

theorem plain_newJson (d : Data α) : Grows Object.Plain d d.newJson.1 := by
  have halloc : ∀ properties : ZMap (Reg α), Grows Object.Plain d (d.alloc (.json properties 0)).1 :=
    fun properties => .alloc (by trivial) rfl
  exact halloc _

theorem plain_setCache (d : Data α) (address cache : Addr) :
    Grows Object.Plain d (d.setCache address cache) := by
  unfold Data.setCache
  split
  · rename_i properties _ ho
    exact .setObject ho ⟨properties, cache, rfl⟩
  · rename_i value _ ho
    exact .setObject ho ⟨cache, rfl⟩
  · exact .refl d

variable [NumOps α]

@[simp] theorem objects_setReg (d : Data α) (c : ContextId) (r : ℕ) (v : Reg α) :
    (d.setReg c r v).objects = d.objects := rfl

theorem plain_fillKeyList (keys : List String) (i : ℕ) (properties : ZMap (Reg α)) (d : Data α) :
    Grows Object.Plain d (Data.fillKeyList keys i properties d).2 := by
  induction keys generalizing i properties d with
  | nil => exact .refl d
  | cons key keys ih =>
    have hplain : (Object.string key 0 : Object α).Plain := trivial
    exact (plain_newReg d .str hplain).trans keptBy_plain (ih _ _ _)

theorem plain_nativeKeyList {address list : Addr} (h : d.nativeKeyList address = some (d', list)) :
    Grows Object.Plain d d' := by
  unfold Data.nativeKeyList at h
  obtain ⟨⟨properties, cache⟩, -, h⟩ := Option.bind_eq_some_iff.mp h
  dsimp only at h
  split at h
  · cases h
    exact .refl d
  · obtain ⟨o, ho, h⟩ := Option.bind_eq_some_iff.mp h
    cases o with
    | json empty _ =>
      cases h
      have hnew : Grows Object.Plain d d.newJson.1 := plain_newJson d
      have hfill := plain_fillKeyList properties.keyList 0 empty d.newJson.1
      obtain ⟨o', ho', hk⟩ := hfill.kept _ _ ho
      obtain ⟨properties', cache', rfl⟩ := hk
      have hset : Grows Object.Plain _ (Data.setObject _ d.newJson.2 _) :=
        .setObject ho' ⟨{ (Data.fillKeyList properties.keyList 0 empty d.newJson.1).1 with
          isImmutable := true }, 0, rfl⟩
      exact ((hnew.trans keptBy_plain hfill).trans keptBy_plain hset).trans keptBy_plain
        (plain_setCache _ _ _)
    | string | functionRef | instanceObject | classRef => cases h

theorem plain_callNative {f : Native} {argument : Reg α} {receiver : Addr} {c : ContextId}
    {register : ℕ} {result : NativeReturn}
    (h : d.callNative f argument receiver c register = some (d', result)) :
    Grows Object.Plain d d' := by
  have hstring : ∀ (d : Data α) (text : String),
      Grows Object.Plain d (d.newReg .str (.string text 0)).1 := fun d text =>
    plain_newReg d .str (by trivial)
  unfold Data.callNative at h
  cases f with
  | print =>
    obtain ⟨d₁, hprint, h⟩ := Option.bind_eq_some_iff.mp h
    cases h
    unfold Data.nativePrint at hprint
    split at hprint
    · cases hprint
      exact .same rfl
    · obtain ⟨text, -, rfl⟩ := Option.map_eq_some_iff.mp hprint
      exact .same rfl
  | keyList =>
    obtain ⟨⟨d₁, list⟩, hlist, h⟩ := Option.bind_eq_some_iff.mp h
    cases h
    exact (plain_nativeKeyList hlist).then_same rfl
  | number =>
    dsimp only at h
    split at h
    · cases h
      exact .same rfl
    · obtain ⟨_, -, h⟩ := Option.bind_eq_some_iff.mp h
      cases h
      exact .same rfl
  | assert =>
    dsimp only at h
    split at h <;>
    · cases h
      exact .refl d
  | strlen | keySize =>
    obtain ⟨_, -, h⟩ := Option.bind_eq_some_iff.mp h
    cases h
    exact .same rfl
  | startsWith | equals =>
    dsimp only at h
    split at h
    · cases h
      exact .same rfl
    · obtain ⟨_, -, h⟩ := Option.bind_eq_some_iff.mp h
      obtain ⟨_, -, h⟩ := Option.bind_eq_some_iff.mp h
      cases h
      exact .same rfl
  | substring =>
    dsimp only at h
    split at h
    · obtain ⟨_, -, h⟩ := Option.bind_eq_some_iff.mp h
      obtain ⟨_, -, h⟩ := Option.bind_eq_some_iff.mp h
      obtain ⟨_, -, h⟩ := Option.bind_eq_some_iff.mp h
      cases h
      exact (hstring d _).then_same rfl
    · cases h
      exact .same rfl
  | object =>
    cases h
    exact (plain_newJson d).then_same rfl
  | read =>
    cases h
    exact .alloc (o := .string (d.input.headD "") 0) trivial rfl
  | int =>
    cases h
    exact .same rfl
  | gc | exit =>
    cases h
    exact .refl d

variable {classes : String → Option Code} {k : ControlState} {a : Activation} {i : Instruction}
  {e : Effect α}

theorem objects_loadClass {searched : Addr} {className : String} {importsTable : ZMap String}
    (h : loadClass classes d k searched className importsTable = some e) :
    e.data.objects = d.objects := by
  unfold loadClass at h
  dsimp only at h
  split at h
  · cases h
    rfl
  · obtain ⟨start, -, h⟩ := Option.bind_eq_some_iff.mp h
    obtain ⟨⟨entry, symbols⟩, -, h⟩ := Option.bind_eq_some_iff.mp h
    cases h
    rfl

theorem searchThis_grows {name : String} {register : ℕ}
    (h : searchThis d a name register = some e) : Grows Object.Plain d e.data := by
  unfold searchThis at h
  obtain ⟨slot, -, h⟩ := Option.bind_eq_some_iff.mp h
  dsimp only at h
  split at h
  · cases h
    exact .same rfl
  · split at h
    · cases h
      exact .same rfl
    · split at h
      · cases h
        exact .same rfl
      · cases h
        exact Grows.then_same (plain_newReg d .classRef (by trivial)) rfl

theorem getField_grows {object : ℕ} {name : String} {register : ℕ}
    (h : getField classes d k a object name register = some e) : Grows Object.Plain d e.data := by
  unfold getField at h
  dsimp only at h
  split at h
  · cases h
    exact .same rfl
  · split at h
    · exact searchThis_grows h
    · split at h
      · split at h
        · exact searchThis_grows h
        · cases h
          exact .refl d
      · obtain ⟨o, -, h⟩ := Option.bind_eq_some_iff.mp h
        cases o with
        | classRef className =>
          dsimp only at h
          split at h
          · split at h <;>
            · cases h
              exact .same rfl
          · obtain ⟨own, -, h⟩ := Option.bind_eq_some_iff.mp h
            exact .same (objects_loadClass h)
        | instanceObject target =>
          obtain ⟨value, -, h⟩ := Option.bind_eq_some_iff.mp h
          cases value <;>
          · cases h
            exact .same rfl
        | json | string =>
          obtain ⟨properties, -, h⟩ := Option.bind_eq_some_iff.mp h
          split at h <;>
          · cases h
            exact .same rfl
        | functionRef => cases h
      · cases h

omit [NumOps α] in
theorem refused_grows {target : StateId} {message : String} {refused : Data α × String}
    (h : (match k.handler target with
      | some _ =>
        (d.pushException (k.states target).stackStart ((k.states target).stackPtr + 1) message).map
          (·, message)
      | none => some (d.setDetails target (d.detailedMessage target message),
          d.detailedMessage target message)) = some refused) :
    Grows Object.Plain d refused.1 := by
  split at h
  · obtain ⟨d', hpush, rfl⟩ := Option.map_eq_some_iff.mp h
    exact .alloc (by trivial) (objects_pushException hpush)
  · cases h
    exact .same rfl

theorem setFieldVirtual_grows {searched : Addr} {target : StateId} {name : String} {value : Reg α}
    (h : setFieldVirtual d k a searched target name value = some e) :
    Grows Object.Plain d e.data := by
  unfold setFieldVirtual at h
  dsimp only at h
  split at h
  · cases h
  · split at h
    · split at h
      · obtain ⟨refused, hrefused, h⟩ := Option.bind_eq_some_iff.mp h
        cases h
        exact (refused_grows hrefused).then_same rfl
      · cases h
        exact .same rfl
    · obtain ⟨refused, hrefused, h⟩ := Option.bind_eq_some_iff.mp h
      cases h
      exact refused_grows hrefused

theorem setField_grows {object : ℕ} {name : String} {value : Reg α}
    (h : setField classes d k a object name value = some e) : Grows Object.Plain d e.data := by
  unfold setField at h
  dsimp only at h
  split at h
  · obtain ⟨slot, -, h⟩ := Option.bind_eq_some_iff.mp h
    split at h <;>
    · cases h
      exact .same rfl
  · split at h
    · cases h
      exact .refl d
    · rename_i address hval _
      obtain ⟨o, ho, h⟩ := Option.bind_eq_some_iff.mp h
      have hobject : d.objects[address - 1]? = some o := by
        unfold Data.object at ho
        split at ho
        · rename_i address' hval'
          rw [hval] at hval'
          cases hval'
          simpa using ho
        · cases ho
      cases o with
      | classRef className =>
        dsimp only at h
        split at h
        · cases h
          exact .same (objects_setStatic _ _ _ _)
        · split at h
          · cases h
            exact .same (objects_setStatic _ _ _ _)
          · obtain ⟨own, -, h⟩ := Option.bind_eq_some_iff.mp h
            exact .same (objects_loadClass h)
      | instanceObject target => exact setFieldVirtual_grows h
      | json properties cache =>
        cases h
        exact .setObject hobject ⟨_, _, rfl⟩
      | string text cache =>
        cases h
        have hset : Grows Object.Plain d (d.setObject address (.string text 0)) :=
          .setObject hobject ⟨0, rfl⟩
        exact hset.then_same rfl
      | functionRef => cases h
    · cases h

theorem objects_callFunction {start : ℕ} {isAsync : Bool} {parent : ContextId} {target : StateId}
    {register n : ℕ} (h : callFunction d k a start isAsync parent target register n = some e) :
    e.data.objects = d.objects := by
  unfold callFunction at h
  obtain ⟨arguments, -, h⟩ := Option.bind_eq_some_iff.mp h
  obtain ⟨d₁, hpush, h⟩ := Option.bind_eq_some_iff.mp h
  have hobjects := objects_pushItem hpush
  dsimp only at h
  obtain ⟨⟨entry, symbols⟩, -, h⟩ := Option.bind_eq_some_iff.mp h
  dsimp only at h
  split at h
  · split at h <;>
    · cases h
      exact hobjects
  · split at h <;>
    · cases h
      exact hobjects

theorem construct_grows {className : String} {register : ℕ}
    (h : construct classes d k a className register = some e) :
    Grows (Makes k a i e.action) d e.data := by
  unfold construct at h
  obtain ⟨own, -, h⟩ := Option.bind_eq_some_iff.mp h
  split at h
  · exact .same (objects_loadClass h)
  · dsimp only at h
    obtain ⟨d₁, hpush, h⟩ := Option.bind_eq_some_iff.mp h
    have hobjects := objects_pushItem hpush
    obtain ⟨⟨entry, symbols⟩, -, h⟩ := Option.bind_eq_some_iff.mp h
    cases h
    exact .alloc (o := .instanceObject k.nextState) (Or.inr ⟨⟨entry, rfl⟩, rfl⟩) hobjects

theorem call_grows {callee register n : ℕ}
    (h : call classes d k a callee register n = some e) : Grows (Makes k a i e.action) d e.data := by
  unfold call at h
  dsimp only at h
  split at h
  · rename_i f htype hval
    split at h <;>
    · obtain ⟨argument, -, h⟩ := Option.bind_eq_some_iff.mp h
      obtain ⟨⟨d₁, result⟩, hresult, h⟩ := Option.bind_eq_some_iff.mp h
      have hgrows := plain_callNative hresult
      cases result <;>
      · cases h
        exact hgrows.mono fun o ho => makes_of_plain ho
  · obtain ⟨o, -, h⟩ := Option.bind_eq_some_iff.mp h
    split at h
    · exact .same (objects_callFunction h)
    · cases h
  · obtain ⟨o, -, h⟩ := Option.bind_eq_some_iff.mp h
    split at h
    · exact construct_grows h
    · cases h
  · cases h
  · cases h
    exact .refl d

theorem objects_returnValue (rest : List Activation) (value : Reg α) :
    (returnValue d k a rest value).data.objects = d.objects := by
  unfold returnValue
  dsimp only
  split
  · split
    · rfl
    · exact objects_finishLoad _ _
  · rfl

theorem effectOther_grows {rest : List Activation} (h : effectOther classes d k a rest i = some e) :
    Grows (Makes k a i e.action) d e.data := by
  have hplain : ∀ {d' : Data α}, Grows Object.Plain d d' → Grows (Makes k a i e.action) d d' :=
    fun hgrows => hgrows.mono fun o ho => makes_of_plain ho
  unfold effectOther at h
  dsimp only at h
  split at h
  case h_1 =>
    cases h
    exact .alloc (o := .string i.r1.text 0) trivial rfl
  case h_2 hi =>
    obtain ⟨start, -, h⟩ := Option.bind_eq_some_iff.mp h
    cases h
    exact .alloc (o := .functionRef start (i.r2.reg != 0) a.currentContext a.state) ⟨hi, rfl⟩ rfl
  case h_3 =>
    obtain ⟨left, -, h⟩ := Option.bind_eq_some_iff.mp h
    obtain ⟨right, -, h⟩ := Option.bind_eq_some_iff.mp h
    cases h
    exact .alloc (o := .string (left ++ right) 0) trivial rfl
  case h_4 =>
    cases h
    exact .refl d
  case h_5 => exact hplain (getField_grows h)
  case h_6 =>
    obtain ⟨name, -, h⟩ := Option.bind_eq_some_iff.mp h
    exact hplain (getField_grows h)
  case h_7 =>
    obtain ⟨name, -, h⟩ := Option.bind_eq_some_iff.mp h
    exact hplain (setField_grows h)
  case h_8 => exact call_grows h
  case h_9 =>
    obtain ⟨d₁, hpush, h⟩ := Option.bind_eq_some_iff.mp h
    cases h
    exact .same (objects_pushItem hpush)
  case h_10 =>
    obtain ⟨value, -, h⟩ := Option.bind_eq_some_iff.mp h
    cases h
    exact .same rfl
  case h_11 =>
    cases h
    exact .same (objects_returnValue _ _)
  case h_12 =>
    cases h
    exact .same (objects_addImport _ _ _ _)
  case h_13 =>
    obtain ⟨message, -, h⟩ := Option.bind_eq_some_iff.mp h
    cases h
    exact .refl d
  case h_14 =>
    obtain ⟨address, -, h⟩ := Option.bind_eq_some_iff.mp h
    cases h
    exact .refl d
  case h_15 =>
    split at h
    · cases h
    · cases h
      exact .refl d
  case h_16 hi =>
    cases h
    exact .alloc (o := .instanceObject a.state) (Or.inl ⟨hi, rfl⟩) rfl
  case h_17 =>
    cases h
    exact .refl d
  case h_18 => cases h

theorem effect_grows {rest : List Activation} (h : effect classes d k a rest i = some e) :
    Grows (Makes k a i e.action) d e.data := by
  unfold effect at h
  split at h
  · cases h
    exact .same rfl
  · obtain ⟨address, -, rfl⟩ := Option.map_eq_some_iff.mp h
    exact .same rfl
  · cases h
  · exact effectOther_grows h

omit [NumOps α] in
/-- An exception makes a string for every state that it finds a handler in. -/
theorem deliver_objects {outcome : Outcome} {message details : String}
    {left : List (StateId × Resume)} (h : d.deliver outcome message left = some (d', details)) :
    ∃ texts : List String, d'.objects = d.objects ++ texts.map (.string · 0) ∧
      (texts = [] ↔ outcome.caughtBy = none ∧ ∀ p ∈ left, p.1 ∉ outcome.broken) := by
  induction left generalizing d message with
  | nil =>
    rw [Data.deliver] at h
    split at h
    · rename_i s hs
      obtain ⟨d₁, hpush, heq⟩ := Option.map_eq_some_iff.mp h
      cases heq
      exact ⟨[details], objects_pushException hpush, by simp [hs]⟩
    · rename_i hs
      cases h
      exact ⟨[], by simp, by simp [hs]⟩
  | cons head left ih =>
    obtain ⟨s, resume⟩ := head
    rw [Data.deliver] at h
    split at h
    · rename_i hbroken
      obtain ⟨d₁, hpush, h⟩ := Option.bind_eq_some_iff.mp h
      obtain ⟨texts, hobjects, -⟩ := ih h
      refine ⟨message :: texts, ?_, ?_⟩
      · rw [hobjects, objects_finishLoad, objects_pushException hpush, List.append_assoc]
        rfl
      · simp [hbroken]
    · rename_i hbroken
      obtain ⟨texts, hobjects, htexts⟩ := ih h
      refine ⟨texts, ?_, ?_⟩
      · rw [hobjects, objects_finishLoad]
        rfl
      · rw [htexts]
        simp [hbroken]

theorem raise_raised (message : String) (k : ControlState) (activations : List Activation) :
    (k.raise message activations).raised.isSome := by
  induction activations generalizing k with
  | nil => rfl
  | cons a rest ih =>
    rw [ControlState.raise]
    split
    · rfl
    · split
      · exact ih _
      · rfl

theorem perform_caughtBy {rest : List Activation} {action : Action}
    (h : (k.perform (a :: rest) action).raised = none) :
    (k.perform (a :: rest) action).caughtBy = none ∧ (k.perform (a :: rest) action).broken = [] := by
  have hraise : ∀ (k : ControlState) (message : String), (k.raise message (a :: rest)).raised = none →
      (k.raise message (a :: rest)).caughtBy = none ∧ (k.raise message (a :: rest)).broken = [] := by
    intro k message hnone
    have hsome := raise_raised message k (a :: rest)
    rw [hnone] at hsome
    cases hsome
  cases action <;> try exact ⟨rfl, rfl⟩
  case raise | throwing => exact hraise _ _ h
  case native pops error =>
    cases error with
    | none => exact ⟨rfl, rfl⟩
    | some message => exact hraise _ _ h
  case ret =>
    unfold ControlState.perform
    dsimp only
    split <;> exact ⟨rfl, rfl⟩
  case reject target again =>
    unfold ControlState.perform at h ⊢
    dsimp only at h ⊢
    split
    · rename_i hnone
      rw [hnone] at h
      exact hraise _ _ h
    · exact ⟨rfl, rfl⟩

theorem StepOf.objects {m m' : Machine α} {thread : ℕ} {rest : List Activation} {outcome : Outcome}
    (h : StepOf classes m m' thread a rest i e outcome) :
    ∃ texts : List String, m'.data.objects = e.data.objects ++ texts.map (.string · 0) ∧
      (texts = [] ↔ outcome.caughtBy = none ∧ ∀ p ∈ outcome.left, p.1 ∉ outcome.broken) := by
  rcases h.delivered with ⟨hraised, hdata⟩ | ⟨message, details, -, hdeliver⟩
  · obtain ⟨hcaught, hbroken⟩ : outcome.caughtBy = none ∧ outcome.broken = [] := by
      rw [← h.perform] at hraised ⊢
      exact perform_caughtBy hraised
    exact ⟨[], by simp [hdata], by simp [hcaught, hbroken]⟩
  · exact deliver_objects hdeliver

/-- What a step of the machine does to the heap. -/
theorem StepOf.grows {m m' : Machine α} {thread : ℕ} {rest : List Activation} {outcome : Outcome}
    (h : StepOf classes m m' thread a rest i e outcome) :
    Grows (Makes m.control a i e.action) m.data m'.data := by
  have hkept : KeptBy (Makes m.control a i e.action : Object α → Prop) := by
    intro o o' ho hk
    cases o with
    | json =>
      obtain ⟨properties, cache, rfl⟩ := hk
      trivial
    | string =>
      obtain ⟨cache, rfl⟩ := hk
      trivial
    | classRef | functionRef | instanceObject =>
      cases hk
      exact ho
  obtain ⟨texts, hobjects, -⟩ := h.objects
  refine (effect_grows h.effect).trans hkept ?_
  refine .append (fun o ho => ?_) hobjects
  obtain ⟨text, -, rfl⟩ := List.mem_map.mp ho
  trivial

end

end Zeroscript
