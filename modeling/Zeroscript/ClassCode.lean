import Zeroscript.Frames
import Zeroscript.InstructionShapes

/-! # The code of a state

A state runs the code of a class: `known_types_map` holds what the class loader has returned, and a
new state gets its code from there or from another state. -/
namespace Zeroscript

section

variable {α : Type} {classes : String → Option Code} {d d' : Data α}

/-- A type has the code of a class, and lists all its static variables. -/
structure TypeOf (classes : String → Option Code) (info : TypeInfo α) : Prop where
  code : ∃ path, classes path = some info.bytecodeStream
  enumerable : ∀ entry ∈ info.staticVariables.entries, entry.flags.enumerable = true

def Data.Known (classes : String → Option Code) (d : Data α) : Prop :=
  ∀ t ∈ d.knownTypes, TypeOf classes t.2

theorem Data.Known.same (h : d.Known classes) (hs : d'.knownTypes = d.knownTypes) :
    d'.Known classes := by
  unfold Data.Known
  rw [hs]
  exact h

theorem Data.Known.typeInfo (h : d.Known classes) {className : String} {info : TypeInfo α}
    (hinfo : d.typeInfo className = some info) : TypeOf classes info := by
  unfold Data.typeInfo at hinfo
  obtain ⟨before, after, heq, -⟩ := List.lookup_eq_some_iff.mp hinfo
  exact h (className, info) (heq ▸ List.mem_append_right _ List.mem_cons_self)

theorem Data.Known.setTypeInfo (h : d.Known classes) {className : String} {info : TypeInfo α}
    (hinfo : TypeOf classes info) : (d.setTypeInfo className info).Known classes := by
  intro t ht
  unfold Data.setTypeInfo at ht
  dsimp only at ht
  split at ht
  · obtain ⟨t₀, ht₀, rfl⟩ := List.mem_map.mp ht
    split
    · exact hinfo
    · exact h t₀ ht₀
  · rcases List.mem_append.mp ht with ht | ht
    · exact h t ht
    · rw [List.mem_singleton.mp ht]
      exact hinfo

theorem insert_enumerable {β : Type} {m : ZMap β} (h : ∀ entry ∈ m.entries, entry.flags.enumerable = true)
    (key : String) (value : β) : ∀ entry ∈ (m.insert key value).entries, entry.flags.enumerable = true := by
  intro entry hentry
  unfold ZMap.insert ZMap.insertFlags at hentry
  split at hentry
  · exact h entry hentry
  · split at hentry
    · obtain ⟨old, hold, rfl⟩ := List.mem_map.mp hentry
      split
      · rfl
      · exact h old hold
    · rcases List.mem_append.mp hentry with hentry | hentry
      · exact h entry hentry
      · rw [List.mem_singleton.mp hentry]

theorem Data.Known.setStatic (h : d.Known classes) (className name : String) (v : Reg α) :
    (d.setStatic className name v).Known classes := by
  unfold Data.setStatic
  split
  · rename_i info hinfo
    have hold := h.typeInfo hinfo
    exact h.setTypeInfo ⟨hold.code, insert_enumerable hold.enumerable name v⟩
  · exact h

theorem Data.Known.addImport (h : d.Known classes) (className shortName path : String) :
    (d.addImport className shortName path).Known classes := by
  unfold Data.addImport
  split
  · rename_i info hinfo
    have hold := h.typeInfo hinfo
    exact h.setTypeInfo ⟨hold.code, hold.enumerable⟩
  · exact h

theorem Data.Known.finishLoad (h : d.Known classes) (resume : Resume) :
    (d.finishLoad resume).Known classes := by
  unfold Data.finishLoad
  split
  · exact h.addImport _ _ _
  · exact h

theorem knownTypes_pushItem {stack : StackId} {index : ℤ} {v : Reg α}
    (h : d.pushItem stack index v = some d') : d'.knownTypes = d.knownTypes := by
  unfold Data.pushItem at h
  split at h
  · cases h
    rfl
  · cases h

theorem knownTypes_pushException {stack : StackId} {index : ℤ} {message : String}
    (h : d.pushException stack index message = some d') : d'.knownTypes = d.knownTypes :=
  (knownTypes_pushItem h).trans rfl

variable [NumOps α]

theorem knownTypes_fillKeyList (keys : List String) (i : ℕ) (properties : ZMap (Reg α)) (d : Data α) :
    (Data.fillKeyList keys i properties d).2.knownTypes = d.knownTypes := by
  induction keys generalizing i properties d with
  | nil => rfl
  | cons key keys ih => exact ih _ _ _

theorem knownTypes_nativeKeyList {address list : Addr}
    (h : d.nativeKeyList address = some (d', list)) : d'.knownTypes = d.knownTypes := by
  unfold Data.nativeKeyList at h
  obtain ⟨⟨properties, cache⟩, -, h⟩ := Option.bind_eq_some_iff.mp h
  dsimp only at h
  split at h
  · cases h
    rfl
  · obtain ⟨o, -, h⟩ := Option.bind_eq_some_iff.mp h
    cases o with
    | json empty _ =>
      cases h
      have hcache : ∀ (d : Data α) (address cache : Addr),
          (d.setCache address cache).knownTypes = d.knownTypes := by
        intro d address cache
        unfold Data.setCache
        split <;> rfl
      rw [hcache]
      exact knownTypes_fillKeyList _ _ _ _
    | string | functionRef | instanceObject | classRef => cases h

theorem knownTypes_callNative {f : Native} {argument : Reg α} {receiver : Addr} {c : ContextId}
    {register : ℕ} {result : NativeReturn}
    (h : d.callNative f argument receiver c register = some (d', result)) :
    d'.knownTypes = d.knownTypes := by
  unfold Data.callNative at h
  cases f with
  | print =>
    obtain ⟨d₁, hprint, h⟩ := Option.bind_eq_some_iff.mp h
    cases h
    unfold Data.nativePrint at hprint
    split at hprint
    · cases hprint
      rfl
    · obtain ⟨text, -, rfl⟩ := Option.map_eq_some_iff.mp hprint
      rfl
  | keyList =>
    obtain ⟨⟨d₁, list⟩, hlist, h⟩ := Option.bind_eq_some_iff.mp h
    have htypes := knownTypes_nativeKeyList hlist
    cases h
    exact htypes
  | number =>
    dsimp only at h
    split at h
    · cases h
      rfl
    · obtain ⟨_, -, h⟩ := Option.bind_eq_some_iff.mp h
      cases h
      rfl
  | assert =>
    dsimp only at h
    split at h <;>
    · cases h
      rfl
  | strlen | keySize =>
    obtain ⟨_, -, h⟩ := Option.bind_eq_some_iff.mp h
    cases h
    rfl
  | startsWith | equals =>
    dsimp only at h
    split at h
    · cases h
      rfl
    · obtain ⟨_, -, h⟩ := Option.bind_eq_some_iff.mp h
      obtain ⟨_, -, h⟩ := Option.bind_eq_some_iff.mp h
      cases h
      rfl
  | substring =>
    dsimp only at h
    split at h
    · obtain ⟨_, -, h⟩ := Option.bind_eq_some_iff.mp h
      obtain ⟨_, -, h⟩ := Option.bind_eq_some_iff.mp h
      obtain ⟨_, -, h⟩ := Option.bind_eq_some_iff.mp h
      cases h
      rfl
    · cases h
      rfl
  | object | int | gc | exit | read =>
    cases h
    rfl

variable {k : ControlState} {a : Activation} {i : Instruction} {e : Effect α}

omit [NumOps α] in
theorem knownTypes_refused {target : StateId} {message : String} {refused : Data α × String}
    (h : (match k.handler target with
      | some _ =>
        (d.pushException (k.states target).stackStart ((k.states target).stackPtr + 1) message).map
          (·, message)
      | none => some (d.setDetails target (d.detailedMessage target message),
          d.detailedMessage target message)) = some refused) :
    refused.1.knownTypes = d.knownTypes := by
  split at h
  · obtain ⟨d', hpush, rfl⟩ := Option.map_eq_some_iff.mp h
    exact knownTypes_pushException hpush
  · cases h
    rfl

theorem setFieldVirtual_known {searched : Addr} {target : StateId} {name : String} {value : Reg α}
    (h : setFieldVirtual d k a searched target name value = some e) :
    e.data.knownTypes = d.knownTypes := by
  unfold setFieldVirtual at h
  dsimp only at h
  split at h
  · cases h
  · split at h
    · split at h
      · obtain ⟨refused, hrefused, h⟩ := Option.bind_eq_some_iff.mp h
        cases h
        exact knownTypes_refused hrefused
      · cases h
        rfl
    · obtain ⟨refused, hrefused, h⟩ := Option.bind_eq_some_iff.mp h
      cases h
      exact knownTypes_refused hrefused

section

variable (hd : d.Known classes)

include hd

theorem loadClass_known {searched : Addr} {className : String} {importsTable : ZMap String}
    (h : loadClass classes d k searched className importsTable = some e) : e.data.Known classes := by
  unfold loadClass at h
  dsimp only at h
  split at h
  · cases h
    exact hd
  · rename_i code hcode
    obtain ⟨start, -, h⟩ := Option.bind_eq_some_iff.mp h
    obtain ⟨⟨entry, symbols⟩, -, h⟩ := Option.bind_eq_some_iff.mp h
    cases h
    have htypes : (d.setTypeInfo className { bytecodeStream := code }).Known classes :=
      hd.setTypeInfo ⟨⟨_, hcode⟩, fun entry hentry => absurd hentry List.not_mem_nil⟩
    exact htypes.same rfl

theorem searchThis_known {name : String} {register : ℕ} (h : searchThis d a name register = some e) :
    e.data.Known classes := by
  unfold searchThis at h
  obtain ⟨slot, -, h⟩ := Option.bind_eq_some_iff.mp h
  dsimp only at h
  split at h
  · cases h
    exact hd.same rfl
  · split at h
    · cases h
      exact hd.same rfl
    · split at h <;>
      · cases h
        exact hd.same rfl

theorem getField_known {object : ℕ} {name : String} {register : ℕ}
    (h : getField classes d k a object name register = some e) : e.data.Known classes := by
  unfold getField at h
  dsimp only at h
  split at h
  · cases h
    exact hd.same rfl
  · split at h
    · exact searchThis_known hd h
    · split at h
      · split at h
        · exact searchThis_known hd h
        · cases h
          exact hd
      · obtain ⟨o, -, h⟩ := Option.bind_eq_some_iff.mp h
        cases o with
        | classRef className =>
          dsimp only at h
          split at h
          · split at h <;>
            · cases h
              exact hd.same rfl
          · obtain ⟨own, -, h⟩ := Option.bind_eq_some_iff.mp h
            exact loadClass_known hd h
        | instanceObject target =>
          obtain ⟨value, -, h⟩ := Option.bind_eq_some_iff.mp h
          cases value <;>
          · cases h
            exact hd.same rfl
        | json | string =>
          obtain ⟨properties, -, h⟩ := Option.bind_eq_some_iff.mp h
          split at h <;>
          · cases h
            exact hd.same rfl
        | functionRef => cases h
      · cases h

theorem setField_known {object : ℕ} {name : String} {value : Reg α}
    (h : setField classes d k a object name value = some e) : e.data.Known classes := by
  unfold setField at h
  dsimp only at h
  split at h
  · obtain ⟨slot, -, h⟩ := Option.bind_eq_some_iff.mp h
    split at h <;>
    · cases h
      exact hd.same rfl
  · split at h
    · cases h
      exact hd
    · obtain ⟨o, -, h⟩ := Option.bind_eq_some_iff.mp h
      cases o with
      | classRef className =>
        dsimp only at h
        split at h
        · cases h
          exact hd.setStatic _ _ _
        · split at h
          · cases h
            exact hd.setStatic _ _ _
          · obtain ⟨own, -, h⟩ := Option.bind_eq_some_iff.mp h
            exact loadClass_known hd h
      | instanceObject target => exact hd.same (setFieldVirtual_known h)
      | json | string =>
        cases h
        exact hd.same rfl
      | functionRef => cases h
    · cases h

theorem callFunction_known {start : ℕ} {isAsync : Bool} {parent : ContextId} {target : StateId}
    {register n : ℕ} (h : callFunction d k a start isAsync parent target register n = some e) :
    e.data.Known classes := by
  unfold callFunction at h
  obtain ⟨arguments, -, h⟩ := Option.bind_eq_some_iff.mp h
  obtain ⟨d₁, hpush, h⟩ := Option.bind_eq_some_iff.mp h
  have htypes := knownTypes_pushItem hpush
  dsimp only at h
  obtain ⟨⟨entry, symbols⟩, -, h⟩ := Option.bind_eq_some_iff.mp h
  dsimp only at h
  split at h <;> split at h <;>
  · cases h
    exact hd.same htypes

theorem construct_known {className : String} {register : ℕ}
    (h : construct classes d k a className register = some e) : e.data.Known classes := by
  unfold construct at h
  obtain ⟨own, -, h⟩ := Option.bind_eq_some_iff.mp h
  split at h
  · exact loadClass_known hd h
  · dsimp only at h
    obtain ⟨d₁, hpush, h⟩ := Option.bind_eq_some_iff.mp h
    have htypes := knownTypes_pushItem hpush
    obtain ⟨⟨entry, symbols⟩, -, h⟩ := Option.bind_eq_some_iff.mp h
    cases h
    exact hd.same htypes

theorem call_known {callee register n : ℕ} (h : call classes d k a callee register n = some e) :
    e.data.Known classes := by
  unfold call at h
  dsimp only at h
  split at h
  · rename_i f htype hval
    split at h <;>
    · obtain ⟨argument, -, h⟩ := Option.bind_eq_some_iff.mp h
      obtain ⟨⟨d₁, result⟩, hresult, h⟩ := Option.bind_eq_some_iff.mp h
      have htypes := knownTypes_callNative hresult
      cases result <;>
      · cases h
        exact hd.same htypes
  · obtain ⟨o, -, h⟩ := Option.bind_eq_some_iff.mp h
    split at h
    · exact callFunction_known hd h
    · cases h
  · obtain ⟨o, -, h⟩ := Option.bind_eq_some_iff.mp h
    split at h
    · exact construct_known hd h
    · cases h
  · cases h
  · cases h
    exact hd

theorem returnValue_known (rest : List Activation) (value : Reg α) :
    (returnValue d k a rest value).data.Known classes := by
  unfold returnValue
  dsimp only
  split
  · split
    · exact hd.same rfl
    · have hreturned : Data.Known classes
          { d with returnValues := Function.update d.returnValues a.state value } := hd.same rfl
      exact hreturned.finishLoad _
  · exact hd.same rfl

theorem effectOther_known {rest : List Activation} (h : effectOther classes d k a rest i = some e) :
    e.data.Known classes := by
  unfold effectOther at h
  dsimp only at h
  split at h
  case h_2 =>
    obtain ⟨start, -, h⟩ := Option.bind_eq_some_iff.mp h
    cases h
    exact hd.same rfl
  case h_3 =>
    obtain ⟨left, -, h⟩ := Option.bind_eq_some_iff.mp h
    obtain ⟨right, -, h⟩ := Option.bind_eq_some_iff.mp h
    cases h
    exact hd.same rfl
  case h_5 => exact getField_known hd h
  case h_6 =>
    obtain ⟨name, -, h⟩ := Option.bind_eq_some_iff.mp h
    exact getField_known hd h
  case h_7 =>
    obtain ⟨name, -, h⟩ := Option.bind_eq_some_iff.mp h
    exact setField_known hd h
  case h_8 => exact call_known hd h
  case h_9 =>
    obtain ⟨d₁, hpush, h⟩ := Option.bind_eq_some_iff.mp h
    cases h
    exact hd.same (knownTypes_pushItem hpush)
  case h_11 =>
    cases h
    exact returnValue_known hd _ _
  case h_12 =>
    cases h
    exact hd.addImport _ _ _
  case h_15 =>
    split at h
    · cases h
    · cases h
      exact hd
  case h_10 | h_13 | h_14 =>
    obtain ⟨_, -, h⟩ := Option.bind_eq_some_iff.mp h
    cases h
    exact hd.same rfl
  case h_1 | h_4 | h_16 | h_17 =>
    cases h
    exact hd.same rfl
  case h_18 => cases h

theorem effect_known {rest : List Activation} (h : effect classes d k a rest i = some e) :
    e.data.Known classes := by
  unfold effect at h
  split at h
  · cases h
    exact hd.same rfl
  · obtain ⟨address, -, rfl⟩ := Option.map_eq_some_iff.mp h
    exact hd.same rfl
  · cases h
  · exact effectOther_known hd h

omit [NumOps α] in
theorem deliver_known {outcome : Outcome} {message details : String} {left : List (StateId × Resume)}
    (h : d.deliver outcome message left = some (d', details)) : d'.Known classes := by
  refine deliver_keeps (P := (·.Known classes)) ?_ ?_ ?_ hd h
  · intro d₁ d₂ stack index message hd hpush
    exact hd.same (knownTypes_pushException hpush)
  · intro d₁ s details hd
    exact hd.same rfl
  · intro d₁ s resume _ hd
    exact hd.finishLoad resume

end

structure CodesOf (classes : String → Option Code) (m : Machine α) : Prop where
  known : m.data.Known classes
  stream : ∀ s, (m.data.states s).byteStream = [] ∨
    ∃ path, classes path = some (m.data.states s).byteStream

theorem Asks.stream {action : Action} (h : Asks classes d k a i d' action) (hd : d.Known classes)
    (s : StateId) : (∃ t, (d'.states s).byteStream = (d.states t).byteStream) ∨
      ∃ path, classes path = some (d'.states s).byteStream := by
  have hsame : d'.states = d.states → ∃ t, (d'.states s).byteStream = (d.states t).byteStream :=
    fun hs => ⟨s, by rw [hs]⟩
  have hupdate : ∀ {info : StateInfo}, d'.states = Function.update d.states k.nextState info →
      ((∃ t, info.byteStream = (d.states t).byteStream) ∨
        ∃ path, classes path = some info.byteStream) →
      (∃ t, (d'.states s).byteStream = (d.states t).byteStream) ∨
        ∃ path, classes path = some (d'.states s).byteStream := by
    intro info hs hinfo
    rw [hs]
    by_cases hnew : s = k.nextState
    · subst hnew
      simpa using hinfo
    · exact Or.inl ⟨s, by rw [Function.update_of_ne hnew]⟩
  cases h with
  | next _ hs | jump hs | push _ hs | pop _ hs | native _ _ hs | ret _ hs | callOwn _ hs
  | callOther _ _ _ hs | write _ _ hs | reject _ _ hs | exit hs => exact Or.inl (hsame hs)
  | raise | throwing | setCatch | clearCatch => exact Or.inl (hsame rfl)
  | callAsync _ hs => exact hupdate hs (Or.inl ⟨a.state, rfl⟩)
  | callClone _ _ _ hs hinfo => exact hupdate hs (Or.inl ⟨_, hinfo⟩)
  | construct _ htype hs hinfo =>
    obtain ⟨path, hcode⟩ := (hd.typeInfo htype).code
    exact hupdate hs (Or.inr ⟨path, by rw [hinfo, hcode]⟩)
  | @load _ _ path _ _ _ _ _ _ hclass hs hinfo =>
    exact hupdate hs (Or.inr ⟨path, by rw [hinfo, hclass]⟩)

theorem step_codes {m m' : Machine α} {thread : ℕ} (hstep : m.step classes thread = some m')
    (h : CodesOf classes m) : CodesOf classes m' := by
  obtain ⟨a, rest, i, e, outcome, hs⟩ := Machine.step_cases hstep
  have heffect := effect_known h.known hs.effect
  constructor
  · rcases hs.delivered with ⟨-, hdata⟩ | ⟨message, details, -, hdeliver⟩
    · rw [hdata]
      exact heffect
    · exact deliver_known heffect hdeliver
  · intro s
    rw [hs.states]
    rcases (effect_asks hs.effect).stream h.known s with ⟨t, ht⟩ | hclass
    · rw [ht]
      exact h.stream t
    · exact Or.inr hclass

theorem boot_codes {className : String} {code : Code} {input : List String} {m : Machine α}
    (hcode : classes className = some code) (h : boot className code input = some m) :
    CodesOf classes m := by
  unfold boot at h
  obtain ⟨⟨entry, symbols⟩, -, h⟩ := Option.bind_eq_some_iff.mp h
  obtain ⟨start, -, h⟩ := Option.bind_eq_some_iff.mp h
  obtain ⟨⟨staticEntry, staticSymbols⟩, -, h⟩ := Option.bind_eq_some_iff.mp h
  cases h
  constructor
  · intro t ht
    rw [List.mem_singleton.mp ht]
    exact ⟨⟨className, hcode⟩, fun entry hentry => absurd hentry List.not_mem_nil⟩
  · intro s
    simp only [states_enterFrame, states_newOwnState]
    by_cases hone : s = 1
    · subst hone
      exact Or.inr ⟨className, by simpa using hcode⟩
    · rw [Function.update_of_ne hone]
      by_cases hzero : s = 0
      · subst hzero
        exact Or.inr ⟨className, by simpa using hcode⟩
      · rw [Function.update_of_ne hzero]
        exact Or.inl rfl

theorem reachable_codes {m : Machine α} (h : m.Reachable classes) : CodesOf classes m := by
  obtain ⟨className, code, input, m₀, hcode, hboot, hpath⟩ := h
  induction hpath with
  | refl => exact boot_codes hcode hboot
  | tail _ hstep ih =>
    obtain ⟨thread, hstep⟩ := hstep
    exact step_codes hstep ih

end

def Opcode.heads : Opcode → Bool
  | .LABEL | .FFRAME | .CREATE_THIS => true
  | _ => false

theorem append_heads {heads code before after : Code} {current : Instruction}
    (hheads : ∀ i ∈ heads, i.opcode.heads = true) (hcurrent : current.opcode.heads = false)
    (h : before ++ current :: after = heads ++ code) : ∃ before', before = heads ++ before' := by
  induction heads generalizing before with
  | nil => exact ⟨before, rfl⟩
  | cons i heads ih =>
    cases before with
    | nil =>
      obtain ⟨rfl, -⟩ := List.cons.inj h
      rw [hheads current List.mem_cons_self] at hcurrent
      cases hcurrent
    | cons j before =>
      obtain ⟨rfl, hrest⟩ := List.cons.inj h
      obtain ⟨before', rfl⟩ := ih (fun i hi => hheads i (List.mem_cons_of_mem _ hi)) hrest
      exact ⟨before', rfl⟩

theorem rewriteStep_heads {heads code code' : Code} (hheads : ∀ i ∈ heads, i.opcode.heads = true)
    (hstep : RewriteStep (heads ++ code) code') : ∃ rest, code' = heads ++ rest ∧ RewriteStep code rest := by
  have hcompare : ∀ opcode : Opcode, opcode.isCompare = true → opcode.heads = false := by
    intro opcode
    cases opcode <;> decide
  generalize hlist : heads ++ code = list at hstep
  have hafter : ∀ {before' after : Code}, heads ++ code = heads ++ before' ++ after → code = before' ++ after :=
    fun heq => List.append_cancel_left (heq.trans (List.append_assoc _ _ _))
  cases hstep with
  | returns hc hn =>
    obtain ⟨before', rfl⟩ := append_heads hheads (by rw [hc]; rfl) hlist.symm
    obtain rfl := hafter hlist
    exact ⟨_, List.append_assoc _ _ _, .returns hc hn⟩
  | mov hc hr =>
    obtain ⟨before', rfl⟩ := append_heads hheads (by rw [hc]; rfl) hlist.symm
    obtain rfl := hafter hlist
    exact ⟨_, List.append_assoc _ _ _, .mov hc hr⟩
  | immediate hc hf =>
    obtain ⟨before', rfl⟩ := append_heads hheads (by rw [hc]; rfl) hlist.symm
    obtain rfl := hafter hlist
    exact ⟨_, List.append_assoc _ _ _, .immediate hc hf⟩
  | collapsed hc hf =>
    obtain ⟨before', rfl⟩ := append_heads hheads (hcompare _ hc) hlist.symm
    obtain rfl := hafter hlist
    exact ⟨_, List.append_assoc _ _ _, .collapsed hc hf⟩
  | jump hc hf =>
    obtain ⟨before', rfl⟩ := append_heads hheads (hcompare _ hc) hlist.symm
    obtain rfl := hafter hlist
    exact ⟨_, List.append_assoc _ _ _, .jump hc hf⟩

theorem optimize_heads {heads code code' : Code} (hheads : ∀ i ∈ heads, i.opcode.heads = true)
    (h : optimize (heads ++ code) = some code') :
    ∃ rest, code' = heads ++ rest ∧ Relation.ReflTransGen RewriteStep code rest := by
  have hchain : ∀ {list : Code}, Relation.ReflTransGen RewriteStep (heads ++ code) list →
      ∃ rest, list = heads ++ rest ∧ Relation.ReflTransGen RewriteStep code rest := by
    intro list hchain
    induction hchain with
    | refl => exact ⟨code, rfl, .refl⟩
    | tail _ hstep ih =>
      obtain ⟨rest, rfl, hbefore⟩ := ih
      obtain ⟨rest', rfl, hlast⟩ := rewriteStep_heads hheads hstep
      exact ⟨rest', rfl, hbefore.tail hlast⟩
  exact hchain (optimize_rewrites h)

/-- An image begins with the label of the class, its frame and `CREATE_THIS`, which comes nowhere else. -/
structure Headed (label frame first : Instruction) (rest : Code) : Prop where
  label : label.opcode = .LABEL
  frame : frame.opcode = .FFRAME
  first : first.opcode = .CREATE_THIS
  only : ∀ i ∈ rest, i.opcode ≠ .CREATE_THIS

theorem image_headed {fuel : ℕ} {cls : ClassDeclaration} {code : Code} (h : image fuel cls = some code) :
    ∃ label frame first rest, code = [label, frame, first] ++ rest ∧ Headed label frame first rest := by
  unfold image at h
  split at h
  · rename_i code₀ hcompile
    obtain ⟨label, frame, first, rest, rfl, hlabel, hframe, hfirst, -, hrest⟩ :=
      InstructionShapes.compileClass_starts hcompile
    have hheads : ∀ i ∈ [label, frame, first], i.opcode.heads = true := by
      simp [hlabel, hframe, hfirst, Opcode.heads]
    obtain ⟨rest', rfl, hchain⟩ := optimize_heads hheads h
    refine ⟨label, frame, first, rest', rfl, hlabel, hframe, hfirst, ?_⟩
    clear h
    induction hchain with
    | refl => exact fun i hi => (hrest i hi).2
    | tail _ hstep ih =>
      intro i hi hthis
      exact ih i (InstructionShapes.rewriteStep_new hstep hi (by rw [hthis]; rfl)) hthis
  · cases h

theorem image_starts {fuel : ℕ} {cls : ClassDeclaration} {code : Code} {entry : ℕ}
    {symbols : SymbolInfo} (h : image fuel cls = some code)
    (hentry : frameAt code 0 = some (entry, symbols)) :
    ∃ i, code[entry]? = some i ∧ i.opcode = .CREATE_THIS := by
  obtain ⟨label, frame, first, rest, rfl, hheaded⟩ := image_headed h
  refine ⟨first, ?_, hheaded.first⟩
  unfold frameAt at hentry
  simp only [List.drop_zero, List.cons_append, List.nil_append, List.takeWhile_cons, hheaded.label,
    hheaded.frame, decide_true, if_true, reduceCtorEq, decide_false, Bool.false_eq_true, if_false,
    List.length_singleton, Nat.zero_add, List.getElem?_cons_succ, List.getElem?_cons_zero] at hentry
  split at hentry
  · cases hentry
    rfl
  · cases hentry

theorem imagesOf_starts {fuel : ℕ} {program : List ClassDeclaration} {path : String} {code : Code}
    {entry : ℕ} {symbols : SymbolInfo} (h : imagesOf fuel program path = some code)
    (hentry : frameAt code 0 = some (entry, symbols)) :
    ∃ i, code[entry]? = some i ∧ i.opcode = .CREATE_THIS := by
  obtain ⟨cls, -, hcls⟩ := Option.bind_eq_some_iff.mp h
  exact image_starts hcls hentry

end Zeroscript
