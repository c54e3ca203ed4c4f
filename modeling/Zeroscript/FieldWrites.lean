import Zeroscript.Locations
import Zeroscript.Number
import Zeroscript.Roots
import Zeroscript.SymbolTable

/-! # What a write to a field changes elsewhere

Strings, JSON objects, instances and classes keep their fields in maps and scopes. Strings have one map in
common, and a write through register 1 goes to the scopes of the function, whatever the register holds. -/
namespace Zeroscript.FieldWrites

open Roots

section

variable {α : Type} [NumOps α]

def objectAt (d : Data α) (address : Addr) : Option (Object α) := d.object ⟨.obj, .raw address⟩

/-- What `GET_FIELD` gives of an object to a function of the state `our`: a value, an exception (`none`
inside), or nothing before the class is loaded. -/
def fieldOf (d : Data α) (our : StateId) (name : String) (o : Object α) : Option (Option (Reg α)) :=
  match nativeFunctions.lookup name with
  | some f => some (some ⟨.nativeFunc, .native f⟩)
  | none =>
    match o with
    | .classRef className => (d.typeInfo className).map (·.staticVariables.get name)
    | .instanceObject target => d.getFieldVirtual target our name
    | .json properties _ => some (properties.get name)
    | .string _ _ => some (d.stringProperties.get name)
    | .functionRef .. => none

def visible (d : Data α) (our : StateId) (address : Addr) (name : String) : Option (Option (Reg α)) :=
  (objectAt d address).bind (fieldOf d our name)

/-- The object in a register, unless this holds a number. -/
def receiver (r : Reg α) : Option Addr :=
  match r.type, r.val with
  | .number, _ => none
  | _, .raw address => some address
  | _, _ => none

variable {classes : String → Option Code} {d d' : Data α} {k : ControlState} {a : Activation}
  {object register : ℕ} {name : String} {address : Addr}

omit [NumOps α] in
theorem receiver_some {r : Reg α} (h : receiver r = some address) :
    r.type ≠ .number ∧ r.val = .raw address := by
  unfold receiver at h
  split at h
  · cases h
  · rename_i hval hnumber
    cases h
    exact ⟨hnumber, hval⟩
  · cases h

omit [NumOps α] in
theorem object_receiver {r : Reg α} (h : receiver r = some address) : d.object r = objectAt d address := by
  unfold objectAt Data.object
  rw [(receiver_some h).2]

omit [NumOps α] in
theorem propertiesAt_objectAt (d : Data α) (address : Addr) : d.propertiesAt address =
    match objectAt d address with
    | some (.json properties cache) => some (properties, cache)
    | some (.string _ cache) => some (d.stringProperties, cache)
    | _ => none := by
  unfold Data.propertiesAt objectAt Data.object
  cases address with
  | zero => rfl
  | succ index => rfl

/-- A read of a field delivers a value, or raises an exception. -/
def Gives (d : Data α) (a : Activation) (register : ℕ) (e : Effect α) : Option (Reg α) → Prop
  | some value => e.data = d.setReg a.currentContext register value ∧ e.action = .next
  | none => e.data = d ∧ ∃ message, e.action = .raise message

/-- What is visible is what `GET_FIELD` gives. -/
theorem getField_visible {result : Option (Reg α)} (hobject : object ≠ 1)
    (hr : receiver (d.regs a.currentContext object) = some address)
    (h : visible d a.state address name = some result) :
    ∃ e, getField classes d k a object name register = some e ∧ Gives d a register e result := by
  obtain ⟨o, ho, hv⟩ := Option.bind_eq_some_iff.mp h
  obtain ⟨htag, hval⟩ := receiver_some hr
  have hfound := (object_receiver (d := d) hr).trans ho
  unfold getField
  dsimp only
  unfold fieldOf at hv
  cases hnative : nativeFunctions.lookup name with
  | some f =>
    rw [hnative] at hv
    cases hv
    exact ⟨_, rfl, rfl, rfl⟩
  | none =>
    rw [hnative] at hv
    dsimp only at hv ⊢
    rw [if_neg hobject, hval]
    split
    · exact absurd ‹_› htag
    · rename_i heq _
      cases heq
      rw [hfound]
      dsimp only [Option.bind_eq_bind, Option.bind_some]
      cases o with
      | classRef className =>
        obtain ⟨info, htype, hget⟩ := Option.map_eq_some_iff.mp hv
        dsimp only
        rw [htype]
        dsimp only
        rw [hget]
        cases result with
        | some value => exact ⟨_, rfl, rfl, rfl⟩
        | none => exact ⟨_, rfl, rfl, _, rfl⟩
      | instanceObject target =>
        dsimp only at hv ⊢
        rw [hv]
        cases result with
        | some value => exact ⟨_, rfl, rfl, rfl⟩
        | none => exact ⟨_, rfl, rfl, _, rfl⟩
      | json | string =>
        dsimp only
        rw [propertiesAt_objectAt, ho]
        dsimp only [Option.bind_some]
        rw [Option.some.inj hv]
        cases result with
        | some value => exact ⟨_, rfl, rfl, rfl⟩
        | none => exact ⟨_, rfl, rfl, _, rfl⟩
      | functionRef => cases hv
    · rename_i hraw
      exact (hraw _ rfl).elim

/-- Nothing that a field access reads is different, apart from new contexts and states. -/
structure Quiet (k : ControlState) (d d' : Data α) : Prop where
  objects : ∀ y o, objectAt d y = some o → objectAt d' y = some o
  strings : d'.stringProperties = d.stringProperties
  statics : ∀ c, (d'.typeInfo c).map (·.staticVariables) = (d.typeInfo c).map (·.staticVariables)
  contexts : ∀ c, c < k.nextContext → d'.contexts c = d.contexts c
  states : ∀ s, s < k.nextState → d'.states s = d.states s

/-- The class whose variables a write to a class reference goes to. -/
def writtenClass (d : Data α) (a : Activation) (className : String) : String :=
  if className = "__static__" then (d.states a.state).className else className

inductive Written (d : Data α) (a : Activation) (object : ℕ) (name : String) (value : Reg α) : Data α → Prop where
  | slot {c : ContextId} {index : ℕ} (hobject : object = 1)
      (hslot : d.findSlot name (a.currentContext + 1) a.currentContext = some (some (c, index))) :
      Written d a object name value (d.setReg c index value)
  | shared (hobject : object = 1)
      (hslot : d.findSlot name (a.currentContext + 1) a.currentContext = some none) :
      Written d a object name value (d.setShared a.state name value)
  | nothing (hobject : object ≠ 1)
      (hr : ∀ x text cache, receiver (d.regs a.currentContext object) = some x →
        objectAt d x ≠ some (.string text cache)) : Written d a object name value d
  | json {x : Addr} {properties : ZMap (Reg α)} {cache : Addr} (hobject : object ≠ 1)
      (hr : receiver (d.regs a.currentContext object) = some x) (ho : objectAt d x = some (.json properties cache)) :
      Written d a object name value (d.setObject x (.json (properties.insert name value) 0))
  | string {x : Addr} {text : String} {cache : Addr} (hobject : object ≠ 1)
      (hr : receiver (d.regs a.currentContext object) = some x) (ho : objectAt d x = some (.string text cache)) :
      Written d a object name value
        ({ d with stringProperties := d.stringProperties.insert name value }.setObject x (.string text 0))
  | field {x : Addr} {target : StateId} {index : ℕ} (hobject : object ≠ 1)
      (hr : receiver (d.regs a.currentContext object) = some x) (ho : objectAt d x = some (.instanceObject target)) :
      Written d a object name value (d.setReg (d.states target).rootContext index value)
  | static {x : Addr} {className : String} (hobject : object ≠ 1)
      (hr : receiver (d.regs a.currentContext object) = some x) (ho : objectAt d x = some (.classRef className)) :
      Written d a object name value (d.setStatic (writtenClass d a className) name value)
  | loading {x : Addr} {className : String} {code : Code} (hobject : object ≠ 1)
      (hr : receiver (d.regs a.currentContext object) = some x) (ho : objectAt d x = some (.classRef className))
      (hclass : className ≠ "__static__") :
      Written d a object name value (d.setTypeInfo className { bytecodeStream := code })

omit [NumOps α] in
theorem Quiet.refl (k : ControlState) (d : Data α) : Quiet k d d :=
  ⟨fun _ _ h => h, rfl, fun _ => rfl, fun _ _ => rfl, fun _ _ => rfl⟩

omit [NumOps α] in
theorem Quiet.trans {d₁ d₂ : Data α} (h : Quiet k d d₁) (h' : Quiet k d₁ d₂) : Quiet k d d₂ where
  objects y o ho := h'.objects y o (h.objects y o ho)
  strings := h'.strings.trans h.strings
  statics c := (h'.statics c).trans (h.statics c)
  contexts c hc := (h'.contexts c hc).trans (h.contexts c hc)
  states s hs := (h'.states s hs).trans (h.states s hs)

omit [NumOps α] in
theorem objectAt_append {y : Addr} {o : Object α} {new : List (Object α)} (ho : objectAt d y = some o)
    (h : d'.objects = d.objects ++ new) : objectAt d' y = some o := by
  unfold objectAt Data.object at ho ⊢
  cases y with
  | zero => cases ho
  | succ index =>
    dsimp only at ho ⊢
    obtain ⟨hlt, -⟩ := List.getElem?_eq_some_iff.mp ho
    rw [h, List.getElem?_append_left hlt]
    exact ho

theorem Quiet.setReg (h : Quiet k d d') (hcontexts : d'.contexts = d.contexts) (c : ContextId) (r : ℕ) (v : Reg α) :
    Quiet k (d.setReg c r v) (d'.setReg c r v) where
  objects y o ho := h.objects y o ho
  strings := h.strings
  statics c := h.statics c
  contexts c' hc' := by
    unfold Data.setReg Data.setRegs Data.regs
    rw [hcontexts]
  states s hs := h.states s hs

/-- Not the object written to: another string or JSON object, an instance of another state, a reference to
another class. -/
def Other (d : Data α) (a : Activation) (object : ℕ) (address : Addr) : Object α → Prop
  | .string _ _ | .json _ _ => receiver (d.regs a.currentContext object) ≠ some address
  | .instanceObject s => ∀ x, receiver (d.regs a.currentContext object) = some x →
    objectAt d x ≠ some (.instanceObject s)
  | .classRef className => ∀ x className', receiver (d.regs a.currentContext object) = some x →
    objectAt d x = some (.classRef className') → className ≠ writtenClass d a className'
  | .functionRef .. => False

structure Alone (d : Data α) (k : ControlState) (s : StateId) : Prop where
  state : s < k.nextState
  root : (d.states s).rootContext ≠ 0
  bounded : (d.states s).rootContext < k.nextContext
  outermost : (d.contexts (d.states s).rootContext).parentContext = 0
  null : (d.contexts 0).parentContext = 0

omit [NumOps α] in
theorem findField_null (hnull : (d.contexts 0).parentContext = 0) (hzero : d'.contexts 0 = d.contexts 0)
    (bound : ℕ) : d'.findField name bound 0 = d.findField name bound 0 := by
  induction bound with
  | zero => rfl
  | succ bound ih =>
    rw [Data.findField, Data.findField, hzero, hnull, ih]

omit [NumOps α] in
/-- The fields of an instance are those of its root scope. -/
theorem getFieldVirtual_congr {s our : StateId} (h : Alone d k s) (hstate : d'.states s = d.states s)
    (hour : d'.states our = d.states our)
    (hroot : d'.contexts (d.states s).rootContext = d.contexts (d.states s).rootContext)
    (hzero : d'.contexts 0 = d.contexts 0) : d'.getFieldVirtual s our name = d.getFieldVirtual s our name := by
  have hfind : d'.findField name ((d.states s).rootContext + 1) (d.states s).rootContext =
      d.findField name ((d.states s).rootContext + 1) (d.states s).rootContext := by
    rw [Data.findField, Data.findField, hroot, h.outermost, findField_null h.null hzero]
  unfold Data.getFieldVirtual
  dsimp only
  rw [hstate, hour, hfind]

def SameField (d d' : Data α) (our : StateId) (name : String) : Object α → Prop
  | .string _ _ => d'.stringProperties.get name = d.stringProperties.get name
  | .classRef className =>
    (d'.typeInfo className).map (·.staticVariables) = (d.typeInfo className).map (·.staticVariables)
  | .instanceObject s => d'.getFieldVirtual s our name = d.getFieldVirtual s our name
  | .json _ _ | .functionRef .. => True

omit [NumOps α] in
theorem visible_congr {our : StateId} {y : Addr} {o : Object α} (ho : objectAt d y = some o)
    (ho' : objectAt d' y = some o) (h : SameField d d' our name o) :
    visible d' our y name = visible d our y name := by
  unfold visible
  rw [ho, ho', Option.bind_some, Option.bind_some]
  unfold fieldOf
  cases nativeFunctions.lookup name with
  | some f => rfl
  | none =>
    cases o with
    | json | functionRef => rfl
    | string => exact congrArg some h
    | instanceObject => exact h
    | classRef className =>
      have hget := congrArg (Option.map (ZMap.get · name)) h
      rw [Option.map_map, Option.map_map] at hget
      exact hget

omit [NumOps α] in
theorem Quiet.visible {our : StateId} {y : Addr} {o : Object α} (h : Quiet k d d') (hour : our < k.nextState)
    (hcontext : 0 < k.nextContext) (ho : objectAt d y = some o) (halone : ∀ s, o = .instanceObject s → Alone d k s) :
    FieldWrites.visible d' our y name = FieldWrites.visible d our y name := by
  refine visible_congr ho (h.objects y o ho) ?_
  cases o with
  | json | functionRef => trivial
  | string => exact congrArg (ZMap.get · name) h.strings
  | classRef className => exact h.statics className
  | instanceObject s =>
    have hs := halone s rfl
    exact getFieldVirtual_congr hs (h.states s hs.state) (h.states our hour) (h.contexts _ hs.bounded)
      (h.contexts 0 hcontext)

omit [NumOps α] in
theorem objectAt_index {y : Addr} {o : Object α} (h : objectAt d y = some o) :
    ∃ index, y = index + 1 ∧ d.objects[index]? = some o := by
  cases y with
  | zero => cases h
  | succ index => exact ⟨index, rfl, h⟩

omit [NumOps α] in
theorem objectAt_setObject {x y : Addr} {o o' o₀ : Object α} (ho₀ : objectAt d x = some o₀)
    (ho : objectAt d y = some o) (hne : y ≠ x) (h : d'.objects = d.objects.set (x - 1) o') :
    objectAt d' y = some o := by
  obtain ⟨i, rfl, -⟩ := objectAt_index ho₀
  obtain ⟨j, rfl, hj⟩ := objectAt_index ho
  change d'.objects[j]? = some o
  rw [h, Nat.add_sub_cancel, List.getElem?_set_ne (fun heq => hne (congrArg (· + 1) heq.symm)), hj]

omit [NumOps α] in
theorem getFieldVirtual_slot {s our : StateId} {field : String} {index : ℕ} {value : Reg α} [NumOps α]
    (h : Alone d k s) (hslot : d.slotOf (d.states s).rootContext name = some index) (hne : field ≠ name)
    (hlocals : (d.contexts (d.states s).rootContext).locals.isSome) :
    (d.setReg (d.states s).rootContext index value).getFieldVirtual s our field = d.getFieldVirtual s our field := by
  obtain ⟨regs, hregs⟩ := Option.isSome_iff_exists.mp hlocals
  generalize hd : d.setReg (d.states s).rootContext index value = d'
  have hroot : d'.contexts (d.states s).rootContext =
      { d.contexts (d.states s).rootContext with locals := some (Function.update regs index value) } := by
    rw [← hd]
    unfold Data.setReg Data.regs
    rw [Data.contexts_setRegs, if_pos rfl, hregs]
    rfl
  have hzero : d'.contexts 0 = d.contexts 0 := by
    rw [← hd]
    unfold Data.setReg
    rw [Data.contexts_setRegs, if_neg (Ne.symm h.root)]
  have hstates : d'.states = d.states := by
    rw [← hd]
    rfl
  have hfind : d'.findField field ((d.states s).rootContext + 1) (d.states s).rootContext =
      d.findField field ((d.states s).rootContext + 1) (d.states s).rootContext := by
    rw [Data.findField, Data.findField, hroot, hregs]
    dsimp only
    rw [h.outermost, findField_null h.null hzero]
    split
    · rename_i index' flags hfield
      have hother : index' ≠ index := by
        rintro rfl
        have hget : (buildSymbolTable (d.contexts (d.states s).rootContext).symbols).get field = some index' := by
          unfold ZMap.get
          rw [hfield]
          rfl
        exact hne (SymbolTable.symbol_injective hget hslot)
      rw [Function.update_of_ne hother]
    · rfl
  unfold Data.getFieldVirtual
  dsimp only
  rw [hstates, hfind]

omit [NumOps α] in
theorem innermost_ne_zero {c c' : ContextId} {index : ℕ} (h : Innermost d name c c' index) : c' ≠ 0 := by
  induction h with
  | here hc => exact hc
  | outer _ _ _ ih => exact ih

theorem setReg_same {c : ContextId} {index : ℕ} (hlocals : (d.contexts c).locals.isSome) :
    (d.setReg c index (d.regs c index)).contexts = d.contexts := by
  obtain ⟨regs, hregs⟩ := Option.isSome_iff_exists.mp hlocals
  unfold Data.setReg Data.setRegs Data.regs
  dsimp only
  rw [Function.update_eq_self, hregs, Option.getD_some, ← hregs]
  exact Function.update_eq_self c d.contexts

omit [NumOps α] in
theorem insert_present {map : ZMap (Reg α)} {value : Reg α} (h : map.get name = some value) :
    (map.insert name value).get name = map.get name := by
  cases himmutable : map.isImmutable with
  | true =>
    unfold ZMap.insert ZMap.insertFlags
    rw [if_pos himmutable]
  | false => rw [ZMap.get_insert_self map value himmutable, h]

omit [NumOps α] in
theorem stringProperties_setStatic (d : Data α) (className name : String) (v : Reg α) :
    (d.setStatic className name v).stringProperties = d.stringProperties := by
  unfold Data.setStatic
  split <;> rfl

omit [NumOps α] in
theorem typeInfo_setStatic {className className' : String} {v : Reg α} (hne : className' ≠ className) :
    (d.setStatic className name v).typeInfo className' = d.typeInfo className' := by
  unfold Data.setStatic
  split
  · rw [typeInfo_setTypeInfo, if_neg hne]
  · rfl

/-- The write changes no other object: a write through register 1 stores what is there already, if the slot is
that of another instance, and so does a write to a string, if there are others. -/
structure Harmless (d : Data α) (a : Activation) (object : ℕ) (name : String) (value : Reg α) : Prop where
  scope : object = 1 → ∀ c index, Innermost d name a.currentContext c index →
    ∀ y s, objectAt d y = some (.instanceObject s) → Other d a object y (.instanceObject s) →
      (d.states s).rootContext = c → d.regs c index = value
  string : object ≠ 1 → ∀ x text cache, receiver (d.regs a.currentContext object) = some x →
    objectAt d x = some (.string text cache) →
    (∀ y text' cache', objectAt d y = some (.string text' cache') → y = x) ∨
      d.stringProperties.isImmutable = true ∨ d.stringProperties.get name = some value

section

variable {fuel : ℕ} {program : List ClassDeclaration} {m m' : Machine α} (hm : m.Reachable (imagesOf fuel program))

include hm

theorem instance_alone {y : Addr} {s : StateId} (ho : objectAt m.data y = some (.instanceObject s)) :
    Alone m.data m.control s := by
  obtain ⟨R, hR⟩ := reachable_rooted hm
  obtain ⟨index, -, hindex⟩ := objectAt_index ho
  have hs := hR.instances index s hindex
  exact ⟨hR.state s hs, hR.root s hs, hR.bounded s hs, hR.outermost s hs, hR.null⟩

theorem instances_apart {x y : Addr} {s s' : StateId} (ho : objectAt m.data x = some (.instanceObject s))
    (ho' : objectAt m.data y = some (.instanceObject s')) (hne : s ≠ s') :
    (m.data.states s).rootContext ≠ (m.data.states s').rootContext := by
  obtain ⟨R, hR⟩ := reachable_rooted hm
  obtain ⟨i, -, hi⟩ := objectAt_index ho
  obtain ⟨j, -, hj⟩ := objectAt_index ho'
  exact fun heq => hne (hR.apart s s' (hR.instances i s hi) (hR.instances j s' hj) heq)

theorem instance_locals {y : Addr} {s : StateId} (ho : objectAt m.data y = some (.instanceObject s)) :
    (m.data.contexts (m.data.states s).rootContext).locals.isSome := by
  have halone := instance_alone hm ho
  exact (reachable_scoping hm).locals _ halone.root halone.bounded

variable {object : ℕ} {name : String} {value : Reg α} {d₁ : Data α} {y : Addr} {o : Object α}

omit hm in
theorem Written.other_object {d : Data α} (h : Written d a object name value d₁) (ho : objectAt d y = some o)
    (hother : Other d a object y o) : objectAt d₁ y = some o := by
  have hkept : ∀ {x : Addr} {o₀ : Object α}, receiver (d.regs a.currentContext object) = some x →
      objectAt d x = some o₀ → (∀ s, o₀ ≠ .instanceObject s) → (∀ c, o₀ ≠ .classRef c) → y ≠ x := by
    rintro x o₀ hr hx hinstance hclass rfl
    obtain rfl := Option.some.inj (ho.symm.trans hx)
    cases o with
    | string | json => exact hother hr
    | instanceObject s => exact hinstance s rfl
    | classRef className => exact hclass className rfl
    | functionRef => exact hother
  cases h with
  | slot | shared | nothing | field | loading => exact ho
  | json hobject hr hx => exact objectAt_setObject hx ho (hkept hr hx nofun nofun) rfl
  | string hobject hr hx => exact objectAt_setObject hx ho (hkept hr hx nofun nofun) rfl
  | static => exact objectAt_append ho ((objects_setStatic _ _ _ _).trans (List.append_nil _).symm)

theorem slot_innermost {c : ContextId} {index : ℕ} (hc : a.currentContext < m.control.nextContext)
    (hslot : m.data.findSlot name (a.currentContext + 1) a.currentContext = some (some (c, index))) :
    Innermost m.data name a.currentContext c index := by
  rcases findSlot_some (reachable_scoping hm) hc (Nat.lt_succ_self _) with ⟨c', index', hfind, h⟩ | ⟨hfind, -⟩
  · rw [hslot] at hfind
    cases hfind
    exact h
  · rw [hslot] at hfind
    cases hfind

theorem setReg_field {our : StateId} {field : String} {c : ContextId} {index : ℕ} {s : StateId} (hobject : object = 1)
    (hinnermost : Innermost m.data name a.currentContext c index)
    (hharmless : field = name → Harmless m.data a object name value)
    (ho : objectAt m.data y = some (.instanceObject s)) (hother : Other m.data a object y (.instanceObject s)) :
    (m.data.setReg c index value).getFieldVirtual s our field = m.data.getFieldVirtual s our field := by
  have halone := instance_alone hm ho
  by_cases hroot : (m.data.states s).rootContext = c
  · subst hroot
    have hlocals := instance_locals hm ho
    by_cases hfield : field = name
    · -- the slot has the value already
      have hvalue := (hharmless hfield).scope hobject _ _ hinnermost y s ho hother rfl
      have hsame : (m.data.setReg (m.data.states s).rootContext index value).contexts = m.data.contexts := by
        rw [← hvalue]
        exact setReg_same hlocals
      exact getFieldVirtual_congr halone rfl rfl (congrFun hsame _) (congrFun hsame _)
    · exact getFieldVirtual_slot halone hinnermost.slot hfield hlocals
  · refine getFieldVirtual_congr halone rfl rfl ?_ ?_
    · unfold Data.setReg
      rw [Data.contexts_setRegs, if_neg hroot]
    · unfold Data.setReg
      rw [Data.contexts_setRegs, if_neg (Ne.symm (innermost_ne_zero hinnermost))]

theorem setReg_otherField {our : StateId} {field : String} {x : Addr} {s target : StateId} {index : ℕ}
    (ho : objectAt m.data y = some (.instanceObject s)) (hx : objectAt m.data x = some (.instanceObject target))
    (hne : s ≠ target) :
    (m.data.setReg (m.data.states target).rootContext index value).getFieldVirtual s our field =
      m.data.getFieldVirtual s our field := by
  have hroots := instances_apart hm ho hx hne
  refine getFieldVirtual_congr (instance_alone hm ho) rfl rfl ?_ ?_
  · unfold Data.setReg
    rw [Data.contexts_setRegs, if_neg hroots]
  · unfold Data.setReg
    rw [Data.contexts_setRegs, if_neg (Ne.symm (instance_alone hm hx).root)]

omit hm in
theorem insert_string {d : Data α} {field : String} {x : Addr} {text text' : String} {cache cache' : Addr}
    (hobject : object ≠ 1) (hr : receiver (d.regs a.currentContext object) = some x)
    (hx : objectAt d x = some (.string text cache)) (hharmless : field = name → Harmless d a object name value)
    (ho : objectAt d y = some (.string text' cache')) (hother : Other d a object y (.string text' cache')) :
    (d.stringProperties.insert name value).get field = d.stringProperties.get field := by
  by_cases hfield : field = name
  · subst hfield
    rcases (hharmless rfl).string hobject x text cache hr hx with hnone | himmutable | hvalue
    · obtain rfl := hnone y text' cache' ho
      exact absurd hr hother
    · unfold ZMap.insert ZMap.insertFlags
      rw [if_pos himmutable]
    · exact insert_present hvalue
  · exact ZMap.get_insert_of_ne _ _ hfield

/-- A harmless write leaves the fields of other objects, and every write leaves those of other names. -/
theorem Written.same_field {our : StateId} {field : String} (h : Written m.data a object name value d₁)
    (hc : a.currentContext < m.control.nextContext)
    (hharmless : field = name → Harmless m.data a object name value) (ho : objectAt m.data y = some o)
    (hother : Other m.data a object y o) : SameField m.data d₁ our field o := by
  cases h with
  | @slot c index hobject hslot =>
    cases o with
    | json | functionRef => trivial
    | string | classRef => rfl
    | instanceObject s => exact setReg_field hm hobject (slot_innermost hm hc hslot) hharmless ho hother
  | shared | nothing | json =>
    cases o with
    | json | functionRef => trivial
    | string | classRef => rfl
    | instanceObject s => exact getFieldVirtual_congr (instance_alone hm ho) rfl rfl rfl rfl
  | @string x text cache hobject hr hx =>
    cases o with
    | json | functionRef => trivial
    | classRef => rfl
    | instanceObject s => exact getFieldVirtual_congr (instance_alone hm ho) rfl rfl rfl rfl
    | string text' cache' => exact insert_string hobject hr hx hharmless ho hother
  | @field x target index hobject hr hx =>
    cases o with
    | json | functionRef => trivial
    | string | classRef => rfl
    | instanceObject s =>
      have hne : s ≠ target := by
        rintro rfl
        exact hother x hr hx
      exact setReg_otherField hm ho hx hne
  | @static x className hobject hr hx =>
    cases o with
    | json | functionRef => trivial
    | string => exact congrArg (ZMap.get · field) (stringProperties_setStatic _ _ _ _)
    | classRef className' =>
      change ((m.data.setStatic _ _ _).typeInfo className').map (·.staticVariables) = _
      rw [typeInfo_setStatic (hother x className hr hx)]
    | instanceObject s =>
      have hcontexts := contexts_setStatic m.data (writtenClass m.data a className) name value
      have hstates := states_setStatic m.data (writtenClass m.data a className) name value
      exact getFieldVirtual_congr (instance_alone hm ho) (congrFun hstates _) (congrFun hstates _)
        (congrFun hcontexts _) (congrFun hcontexts _)
  | @loading x className code hobject hr hx hclass =>
    cases o with
    | json | functionRef => trivial
    | string => rfl
    | instanceObject s => exact getFieldVirtual_congr (instance_alone hm ho) rfl rfl rfl rfl
    | classRef className' =>
      have hne := hother x className hr hx
      unfold writtenClass at hne
      rw [if_neg hclass] at hne
      change ((m.data.setTypeInfo className _).typeInfo className').map (·.staticVariables) = _
      rw [typeInfo_setTypeInfo, if_neg hne]

omit hm in
theorem Written.scopes {d : Data α} (h : Written d a object name value d₁) :
    SameScopes d d₁ ∧ d₁.states = d.states := by
  cases h with
  | slot | field => exact ⟨sameScopes_setRegs _ _ _, rfl⟩
  | static => exact ⟨.of (contexts_setStatic _ _ _ _), states_setStatic _ _ _ _⟩
  | shared | nothing | json | string | loading => exact ⟨.of rfl, rfl⟩

omit hm in
theorem Written.alone {d : Data α} {s : StateId} (h : Written d a object name value d₁) (hs : Alone d k s) :
    Alone d₁ k s := by
  obtain ⟨hscopes, hstates⟩ := h.scopes
  refine ⟨hs.state, ?_, ?_, ?_, (hscopes.parent 0).trans hs.null⟩
  · rw [hstates]
    exact hs.root
  · rw [hstates]
    exact hs.bounded
  · rw [hstates]
    exact (hscopes.parent _).trans hs.outermost

omit hm in
theorem Written.strings {d : Data α} {x : Addr} {text : String} {cache : Addr}
    (h : Written d a object name value d₁) (hobject : object ≠ 1)
    (hr : receiver (d.regs a.currentContext object) = some x) (hx : objectAt d x = some (.string text cache)) :
    d₁.stringProperties = d.stringProperties.insert name value := by
  cases h with
  | string => rfl
  | slot hone | shared hone => exact absurd hone hobject
  | nothing _ hno => exact absurd hx (hno x text cache hr)
  | json _ hr' hx' | field _ hr' hx' | static _ hr' hx' | loading _ hr' hx' =>
    rw [hr] at hr'
    cases hr'
    rw [hx] at hx'
    cases hx'

theorem Written.unchanged {our : StateId} (h : Written m.data a object name value d₁)
    (hc : a.currentContext < m.control.nextContext)
    (hcondition : (nativeFunctions.lookup name).isSome ∨ Harmless m.data a object name value)
    (ho : objectAt m.data y = some o) (hother : Other m.data a object y o) (field : String) :
    visible d₁ our y field = visible m.data our y field := by
  have ho₁ := h.other_object ho hother
  cases hnative : nativeFunctions.lookup field with
  | some f =>
    unfold visible
    rw [ho, ho₁, Option.bind_some, Option.bind_some]
    unfold fieldOf
    rw [hnative]
  | none =>
    refine visible_congr ho ho₁ (h.same_field hm hc (fun hfield => ?_) ho hother)
    rcases hcondition with hsome | hharmless
    · rw [← hfield, hnative] at hsome
      cases hsome
    · exact hharmless

variable {rest : List Activation} {i : Instruction} {e : Effect α} {outcome : Outcome} {thread : ℕ}

end

end

def sampleProgram (object : String) : List ClassDeclaration :=
  let constructor : Stmt := .function true false false "__static__constructor__" [] []
  [⟨"Main", [], [.var "s" (.str "a") false false, .var "t" (.str "b") false false,
    .var "o" (.methodCall (.ident "Object") []) false false,
    .eval (.binary .assign (.binary .dot (.ident object) (.str "x")) (.num "1")), constructor], []⟩]

def stringAt (d : Data ℚ) (address : Addr) : Option String :=
  match objectAt d address with
  | some (.string text _) => some text
  | _ => none

structure SampleWrite where
  opcode : Opcode
  register : ℕ
  name : Option String
  receiver : Option Addr
  text : Option String
  other : Option String
  same : Bool
  deriving DecidableEq

def sampleWrite (object : String) : Option SampleWrite := do
  let (m, a, _, i) ← runUpTo 3 (sampleProgram object) 11
  let m' ← m.step (imagesOf 3 (sampleProgram object)) 0
  let r0 := m.data.regs a.currentContext i.r0.reg
  return {
    opcode := i.opcode
    register := i.r0.reg
    name := m.data.fieldName (m.data.regs a.currentContext i.r1.reg)
    receiver := receiver r0
    text := (receiver r0).bind (stringAt m.data)
    other := stringAt m.data 6
    same := decide (visible m'.data 0 6 "x" = visible m.data 0 6 "x") }

theorem sampleWrite_reached {object : String} {register : ℕ} {x : Addr} {text : Option String} {same : Bool}
    (h : sampleWrite object = some ⟨.SET_FIELD, register, some "x", some x, text, some "b", same⟩) :
    ∃ (m m' : Machine ℚ) (a : Activation) (rest : List Activation) (i : Instruction),
      m.Reachable (imagesOf 3 (sampleProgram object)) ∧ m.threads[0]? = some (a :: rest) ∧ m.fetch a = some i ∧
        i.opcode = .SET_FIELD ∧ i.r0.reg = register ∧
        m.data.fieldName (m.data.regs a.currentContext i.r1.reg) = some "x" ∧
        m.step (imagesOf 3 (sampleProgram object)) 0 = some m' ∧
        receiver (m.data.regs a.currentContext i.r0.reg) = some x ∧ stringAt m.data x = text ∧
        stringAt m.data 6 = some "b" ∧ decide (visible m'.data 0 6 "x" = visible m.data 0 6 "x") = same := by
  unfold sampleWrite at h
  obtain ⟨⟨m, a, rest, i⟩, hrun, h⟩ := Option.bind_eq_some_iff.mp h
  obtain ⟨m', hstep, h⟩ := Option.bind_eq_some_iff.mp h
  obtain ⟨hm, hthread, hfetch⟩ := runUpTo_reachable hrun
  simp only [Option.pure_def, Option.some.injEq, SampleWrite.mk.injEq] at h
  obtain ⟨hi, hr0, hname, hreceiver, htext, hother, hsame⟩ := h
  rw [hreceiver] at htext
  exact ⟨m, m', a, rest, i, hm, hthread, hfetch, hi, hr0, hname, hstep, hreceiver, htext, hother, hsame⟩

end Zeroscript.FieldWrites
