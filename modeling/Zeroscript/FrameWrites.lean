import Mathlib.Data.List.Chain
import Zeroscript.ControlIntegrity
import Zeroscript.FrameMachine
import Zeroscript.Locations

/-! # No write outside of a frame

An instruction writes registers that it names, slots that names lead to, and the register that a caller has
asked for. All of them are slots of a frame, of the size that its `FFRAME` says. Other threads come in between
two instructions only. -/
namespace Zeroscript.FrameWrites

open ControlIntegrity
open FrameBounds (Fits)
open FrameEntry (symbol_index_le)
open Relation (ReflTransGen)
open Resolution (IsIdentifier)
open LabelNames (functionsOf)
open Outline (outlineClass)

section

variable {α : Type} [NumOps α] {W : ContextId → ℕ → Prop} {d d' d₁ d₂ : Data α}

/-- The registers outside of `W` keep their values. -/
def OnlyIn (W : ContextId → ℕ → Prop) (d d' : Data α) : Prop := ∀ c r, ¬W c r → d'.regs c r = d.regs c r

theorem onlyIn_of (h : d'.contexts = d.contexts) : OnlyIn W d d' := by
  intro c r _
  unfold Data.regs
  rw [h]

theorem OnlyIn.trans (h : OnlyIn W d d₁) (h' : OnlyIn W d₁ d₂) : OnlyIn W d d₂ := by
  intro c r hr
  rw [h' c r hr, h c r hr]

theorem onlyIn_setRegs {c : ContextId} {regs : Regs α} (h : ∀ r, ¬W c r → regs r = d.regs c r) :
    OnlyIn W d (d.setRegs c regs) := by
  intro c' r hr
  unfold Data.regs
  rw [Data.contexts_setRegs]
  split
  · subst_vars
    exact h r hr
  · rfl

theorem onlyIn_setReg {c : ContextId} {r : ℕ} (hcontexts : d₁.contexts = d.contexts) (hw : W c r)
    (v : Reg α) : OnlyIn W d (d₁.setReg c r v) := by
  refine (onlyIn_of hcontexts).trans (onlyIn_setRegs fun r' hr' => ?_)
  refine Function.update_of_ne ?_ _ _
  rintro rfl
  exact hr' hw

theorem onlyIn_callNative {f : Native} {argument : Reg α} {receiver : Addr} {c : ContextId}
    {register : ℕ} {result : NativeReturn} (hw : W c register)
    (h : d.callNative f argument receiver c register = some (d', result)) : OnlyIn W d d' := by
  unfold Data.callNative at h
  cases f with
  | print =>
    obtain ⟨d₁, hprint, h⟩ := Option.bind_eq_some_iff.mp h
    cases h
    unfold Data.nativePrint at hprint
    split at hprint
    · cases hprint
      exact onlyIn_of rfl
    · obtain ⟨text, -, rfl⟩ := Option.map_eq_some_iff.mp hprint
      exact onlyIn_of rfl
  | keyList =>
    obtain ⟨⟨d₁, list⟩, hlist, h⟩ := Option.bind_eq_some_iff.mp h
    cases h
    exact onlyIn_setReg (contexts_nativeKeyList hlist) hw _
  | number =>
    dsimp only at h
    split at h
    · cases h
      exact onlyIn_setReg rfl hw _
    · obtain ⟨_, -, h⟩ := Option.bind_eq_some_iff.mp h
      cases h
      exact onlyIn_setReg rfl hw _
  | assert =>
    dsimp only at h
    split at h <;>
    · cases h
      exact onlyIn_of rfl
  | strlen | keySize =>
    obtain ⟨_, -, h⟩ := Option.bind_eq_some_iff.mp h
    cases h
    exact onlyIn_setReg rfl hw _
  | startsWith | equals =>
    dsimp only at h
    split at h
    · cases h
      exact onlyIn_setReg rfl hw _
    · obtain ⟨_, -, h⟩ := Option.bind_eq_some_iff.mp h
      obtain ⟨_, -, h⟩ := Option.bind_eq_some_iff.mp h
      cases h
      exact onlyIn_setReg rfl hw _
  | substring =>
    dsimp only at h
    split at h
    · obtain ⟨_, -, h⟩ := Option.bind_eq_some_iff.mp h
      obtain ⟨_, -, h⟩ := Option.bind_eq_some_iff.mp h
      obtain ⟨_, -, h⟩ := Option.bind_eq_some_iff.mp h
      cases h
      exact onlyIn_setReg rfl hw _
    · cases h
      exact onlyIn_setReg rfl hw _
  | int =>
    cases h
    exact onlyIn_setReg rfl hw _
  | object | read =>
    cases h
    exact onlyIn_setReg rfl hw _
  | gc | exit =>
    cases h
    exact onlyIn_of rfl

def Named (W : ContextId → ℕ → Prop) (d : Data α) : Prop :=
  ∀ c name index, d.slotOf c name = some index → W c index

/-- What an effect does to the registers that are there, and the symbols of a frame that it enters. -/
structure Acts (W : ContextId → ℕ → Prop) (d : Data α) (k : ControlState) (a : Activation) (e : Effect α) :
    Prop where
  writes : ∀ c, c ≠ k.nextContext → ∀ r, ¬W c r → e.data.regs c r = d.regs c r
  enters : ∀ entry, entryOf e.action = some entry →
    ∃ start, frameAt (e.data.states (e.action.entering k a)).byteStream start =
      some (entry, (e.data.contexts k.nextContext).symbols)

variable {classes : String → Option Code} {k : ControlState} {a : Activation} {rest : List Activation}
  {i : Instruction} {e : Effect α}

theorem acts_of {searched : Addr} {action : Action} (h : OnlyIn W d d') (haction : entryOf action = none) :
    Acts W d k a ⟨d', searched, action⟩ where
  writes c _ r hr := h c r hr
  enters entry hentry := by
    rw [haction] at hentry
    cases hentry

theorem acts_enterFrame {searched : Addr} {action : Action} {entry start : ℕ} {symbols : SymbolInfo} {code : Code}
    {parent root : ContextId} {arguments : List (Reg α)} (h : OnlyIn W d d₁) (haction : entryOf action = some entry)
    (hcode : (d₁.states (action.entering k a)).byteStream = code) (hframe : frameAt code start = some (entry, symbols)) :
    Acts W d k a ⟨d₁.enterFrame k.nextContext parent root symbols arguments, searched, action⟩ where
  writes c hc r hr := by
    unfold Data.enterFrame Data.regs
    simp only [Function.update_of_ne hc]
    exact h c r hr
  enters entry' hentry := by
    rw [haction] at hentry
    cases hentry
    refine ⟨start, ?_⟩
    unfold Data.enterFrame
    simp only [Function.update_self]
    rw [hcode]
    exact hframe

theorem loadClass_acts {searched : Addr} {className : String} {importsTable : ZMap String}
    (h : loadClass classes d k searched className importsTable = some e) : Acts W d k a e := by
  unfold loadClass at h
  dsimp only at h
  split at h
  · cases h
    exact acts_of (onlyIn_of rfl) rfl
  · obtain ⟨start, -, h⟩ := Option.bind_eq_some_iff.mp h
    obtain ⟨⟨entry, symbols⟩, hframe, h⟩ := Option.bind_eq_some_iff.mp h
    cases h
    refine acts_enterFrame (onlyIn_of rfl) rfl ?_ hframe
    simp [Action.entering, Action.starting, Data.newOwnState, Data.newState]

theorem searchThis_acts {name : String} {register : ℕ} (hw : W a.currentContext register)
    (h : searchThis d a name register = some e) : Acts W d k a e := by
  unfold searchThis at h
  obtain ⟨slot, -, h⟩ := Option.bind_eq_some_iff.mp h
  dsimp only at h
  split at h
  · cases h
    exact acts_of (onlyIn_setReg rfl hw _) rfl
  · split at h
    · cases h
      exact acts_of (onlyIn_setReg rfl hw _) rfl
    · split at h
      · cases h
        exact acts_of (onlyIn_setReg rfl hw _) rfl
      · cases h
        exact acts_of (onlyIn_setReg rfl hw _) rfl

theorem getField_acts {object : ℕ} {name : String} {register : ℕ} (hw : W a.currentContext register)
    (h : getField classes d k a object name register = some e) : Acts W d k a e := by
  unfold getField at h
  dsimp only at h
  split at h
  · cases h
    exact acts_of (onlyIn_setReg rfl hw _) rfl
  · split at h
    · exact searchThis_acts hw h
    · split at h
      · split at h
        · exact searchThis_acts hw h
        · cases h
          exact acts_of (onlyIn_of rfl) rfl
      · obtain ⟨o, -, h⟩ := Option.bind_eq_some_iff.mp h
        cases o with
        | classRef className =>
          dsimp only at h
          split at h
          · split at h
            · cases h
              exact acts_of (onlyIn_setReg rfl hw _) rfl
            · cases h
              exact acts_of (onlyIn_of rfl) rfl
          · obtain ⟨own, -, h⟩ := Option.bind_eq_some_iff.mp h
            exact loadClass_acts h
        | instanceObject target =>
          obtain ⟨value, -, h⟩ := Option.bind_eq_some_iff.mp h
          cases value with
          | none =>
            cases h
            exact acts_of (onlyIn_of rfl) rfl
          | some value =>
            cases h
            exact acts_of (onlyIn_setReg rfl hw _) rfl
        | json | string =>
          obtain ⟨properties, -, h⟩ := Option.bind_eq_some_iff.mp h
          split at h
          · cases h
            exact acts_of (onlyIn_setReg rfl hw _) rfl
          · cases h
            exact acts_of (onlyIn_of rfl) rfl
        | functionRef => cases h
      · cases h

omit [NumOps α] in
theorem slotOf_flags {c : ContextId} {name : String} {index : ℕ} {flags : MapFlags}
    (h : (buildSymbolTable (d.contexts c).symbols).getFlags name = some (index, flags)) :
    d.slotOf c name = some index := by
  unfold Data.slotOf ZMap.get
  rw [h]
  rfl

theorem setFieldVirtual_acts {searched : Addr} {target : StateId} {name : String} {value : Reg α}
    (hw : Named W d) (h : setFieldVirtual d k a searched target name value = some e) : Acts W d k a e := by
  unfold setFieldVirtual at h
  dsimp only at h
  split at h
  · cases h
  · split at h
    · rename_i hslot
      have hroot := hw _ _ _ (slotOf_flags hslot)
      split at h
      · obtain ⟨refused, hrefused, h⟩ := Option.bind_eq_some_iff.mp h
        cases h
        exact acts_of (onlyIn_setReg (contexts_refused hrefused) hroot _) rfl
      · cases h
        exact acts_of (onlyIn_setReg rfl hroot _) rfl
    · obtain ⟨refused, hrefused, h⟩ := Option.bind_eq_some_iff.mp h
      cases h
      exact acts_of (onlyIn_of (contexts_refused hrefused)) rfl

omit [NumOps α] in
theorem findSlot_slotOf {name : String} {bound : ℕ} {c c' : ContextId} {index : ℕ}
    (h : d.findSlot name bound c = some (some (c', index))) : d.slotOf c' name = some index := by
  induction bound generalizing c with
  | zero => cases h
  | succ bound ih =>
    rw [Data.findSlot] at h
    dsimp only at h
    split at h
    · cases h
    · split at h
      · cases h
      · split at h
        · rename_i hslot
          cases h
          exact hslot
        · exact ih h

theorem setField_acts {object : ℕ} {name : String} {value : Reg α} (hw : Named W d)
    (h : setField classes d k a object name value = some e) : Acts W d k a e := by
  unfold setField at h
  dsimp only at h
  split at h
  · obtain ⟨slot, hslot, h⟩ := Option.bind_eq_some_iff.mp h
    split at h
    · cases h
      exact acts_of (onlyIn_setReg rfl (hw _ _ _ (findSlot_slotOf hslot)) _) rfl
    · cases h
      exact acts_of (onlyIn_of rfl) rfl
  · split at h
    · cases h
      exact acts_of (onlyIn_of rfl) rfl
    · obtain ⟨o, -, h⟩ := Option.bind_eq_some_iff.mp h
      cases o with
      | classRef className =>
        dsimp only at h
        split at h
        · cases h
          exact acts_of (onlyIn_of (contexts_setStatic _ _ _ _)) rfl
        · split at h
          · cases h
            exact acts_of (onlyIn_of (contexts_setStatic _ _ _ _)) rfl
          · obtain ⟨own, -, h⟩ := Option.bind_eq_some_iff.mp h
            exact loadClass_acts h
      | instanceObject target => exact setFieldVirtual_acts hw h
      | json | string =>
        cases h
        exact acts_of (onlyIn_of rfl) rfl
      | functionRef => cases h
    · cases h

theorem callFunction_acts {start : ℕ} {isAsync : Bool} {parent : ContextId} {target : StateId}
    {register n : ℕ} (h : callFunction d k a start isAsync parent target register n = some e) : Acts W d k a e := by
  unfold callFunction at h
  obtain ⟨arguments, -, h⟩ := Option.bind_eq_some_iff.mp h
  obtain ⟨d₁, hpush, h⟩ := Option.bind_eq_some_iff.mp h
  have hcontexts := contexts_pushItem hpush
  dsimp only at h
  obtain ⟨⟨entry, symbols⟩, hframe, h⟩ := Option.bind_eq_some_iff.mp h
  dsimp only at h
  split at h
  · split at h
    · cases h
      refine acts_enterFrame (onlyIn_of hcontexts) rfl ?_ hframe
      simp [Action.entering, Action.starting, Data.newOwnState, Data.newState]
    · cases h
      exact acts_enterFrame (onlyIn_of hcontexts) rfl rfl hframe
  · rename_i hown
    obtain rfl := not_not.mp hown
    split at h
    · cases h
      refine acts_enterFrame (onlyIn_of hcontexts) rfl ?_ hframe
      simp [Action.entering, Action.starting, Data.newState]
    · cases h
      exact acts_enterFrame (onlyIn_of hcontexts) rfl rfl hframe

theorem construct_acts {className : String} {register : ℕ} (hw : W a.currentContext register)
    (h : construct classes d k a className register = some e) : Acts W d k a e := by
  unfold construct at h
  obtain ⟨own, -, h⟩ := Option.bind_eq_some_iff.mp h
  split at h
  · exact loadClass_acts h
  · dsimp only at h
    obtain ⟨d₁, hpush, h⟩ := Option.bind_eq_some_iff.mp h
    have hcontexts := contexts_pushItem hpush
    have hstates := states_pushItem _ hpush
    obtain ⟨⟨entry, symbols⟩, hframe, h⟩ := Option.bind_eq_some_iff.mp h
    cases h
    refine acts_enterFrame ((onlyIn_setReg rfl hw _).trans (onlyIn_of hcontexts)) rfl ?_ hframe
    rw [hstates]
    simp [Action.entering, Action.starting, Data.newOwnState, Data.newState]

theorem call_acts {callee register n : ℕ} (hw : W a.currentContext register)
    (h : call classes d k a callee register n = some e) : Acts W d k a e := by
  unfold call at h
  dsimp only at h
  split at h
  · split at h <;>
    · obtain ⟨argument, -, h⟩ := Option.bind_eq_some_iff.mp h
      obtain ⟨⟨d₁, result⟩, hresult, h⟩ := Option.bind_eq_some_iff.mp h
      cases result <;>
      · cases h
        exact acts_of (onlyIn_callNative hw hresult) rfl
  · obtain ⟨o, -, h⟩ := Option.bind_eq_some_iff.mp h
    split at h
    · exact callFunction_acts h
    · cases h
  · obtain ⟨o, -, h⟩ := Option.bind_eq_some_iff.mp h
    split at h
    · exact construct_acts hw h
    · cases h
  · cases h
  · cases h
    exact acts_of (onlyIn_of rfl) rfl

inductive Writes (d : Data α) (k : ControlState) (a : Activation) (rest : List Activation) (i : Instruction) :
    ContextId → ℕ → Prop where
  | own {r : ℕ} (hr : r ∈ i.writes) : Writes d k a rest i a.currentContext r
  | named {c : ContextId} {name : String} {index : ℕ} (h : d.slotOf c name = some index) : Writes d k a rest i c index
  | returned (hne : (k.links a.currentContext).returnContext ≠ 0) :
      Writes d k a rest i (k.links a.currentContext).returnContext (k.links a.currentContext).requestedReturnRegister
  | delivered {register : ℕ} {caller : Activation} {below : List Activation} (hresume : a.resume = .method register)
      (hrest : rest = caller :: below) : Writes d k a rest i caller.currentContext register

theorem returnValue_acts (value : Reg α) :
    Acts (Writes d k a rest i) d k a (returnValue d k a rest value) := by
  unfold returnValue
  dsimp only
  split
  · split
    · rename_i hresume
      exact acts_of (onlyIn_setReg rfl (.delivered hresume rfl) _) rfl
    · exact acts_of (onlyIn_of (contexts_finishLoad _ _)) rfl
  · rename_i hne
    exact acts_of (onlyIn_setReg rfl (.returned hne) _) rfl

theorem effectOther_acts (h : effectOther classes d k a rest i = some e) :
    Acts (Writes d k a rest i) d k a e := by
  have hnamed : Named (Writes d k a rest i) d := fun c name index hslot => .named hslot
  obtain ⟨opcode, r0, r1, r2⟩ := i
  unfold effectOther at h
  dsimp only at h
  split at h
  case h_1 | h_16 =>
    cases h
    exact acts_of (onlyIn_setReg rfl (.own (List.mem_singleton.mpr rfl)) _) rfl
  case h_2 =>
    obtain ⟨start, -, h⟩ := Option.bind_eq_some_iff.mp h
    cases h
    exact acts_of (onlyIn_setReg rfl (.own (List.mem_singleton.mpr rfl)) _) rfl
  case h_3 =>
    obtain ⟨left, -, h⟩ := Option.bind_eq_some_iff.mp h
    obtain ⟨right, -, h⟩ := Option.bind_eq_some_iff.mp h
    cases h
    exact acts_of (onlyIn_setReg rfl (.own (List.mem_singleton.mpr rfl)) _) rfl
  case h_5 => exact getField_acts (.own (List.mem_singleton.mpr rfl)) h
  case h_6 =>
    obtain ⟨name, -, h⟩ := Option.bind_eq_some_iff.mp h
    exact getField_acts (.own (List.mem_singleton.mpr rfl)) h
  case h_7 =>
    obtain ⟨name, -, h⟩ := Option.bind_eq_some_iff.mp h
    exact setField_acts hnamed h
  case h_8 => exact call_acts (.own (List.mem_singleton.mpr rfl)) h
  case h_9 =>
    obtain ⟨d₁, hpush, h⟩ := Option.bind_eq_some_iff.mp h
    cases h
    exact acts_of (onlyIn_of (contexts_pushItem hpush)) rfl
  case h_10 =>
    obtain ⟨value, -, h⟩ := Option.bind_eq_some_iff.mp h
    cases h
    exact acts_of (onlyIn_setReg rfl (.own (List.mem_singleton.mpr rfl)) _) rfl
  case h_11 =>
    cases h
    exact returnValue_acts _
  case h_12 =>
    cases h
    refine acts_of (onlyIn_of ?_) rfl
    unfold Data.addImport
    split <;> rfl
  case h_13 | h_14 =>
    obtain ⟨_, -, h⟩ := Option.bind_eq_some_iff.mp h
    cases h
    exact acts_of (onlyIn_of rfl) rfl
  case h_15 =>
    split at h
    · cases h
    · cases h
      exact acts_of (onlyIn_of rfl) rfl
  case h_4 | h_17 =>
    cases h
    exact acts_of (onlyIn_of rfl) rfl
  case h_18 => cases h

theorem effect_acts (h : effect classes d k a rest i = some e) : Acts (Writes d k a rest i) d k a e := by
  have hlocal : ∀ {regs : Regs α} {control : Control},
      execLocal i (d.regs a.currentContext) = some (regs, control) →
      OnlyIn (Writes d k a rest i) d (d.setRegs a.currentContext regs) := by
    intro regs control hexec
    refine onlyIn_setRegs fun r hr => execLocal_unwritten hexec fun hwrites => ?_
    exact hr (.own hwrites)
  unfold effect at h
  split at h
  · rename_i hexec
    cases h
    exact acts_of (hlocal hexec) rfl
  · rename_i hexec
    obtain ⟨address, -, rfl⟩ := Option.map_eq_some_iff.mp h
    exact acts_of (hlocal hexec) rfl
  · cases h
  · exact effectOther_acts h

end

section

variable {k : ControlState} {a : Activation} {rest : List Activation}

inductive Stacked (k : ControlState) (a : Activation) (rest : List Activation) :
    Action → List Activation → Prop where
  | done {action : Action} : Stacked k a rest action []
  | moved {action : Action} {b x : Activation} {below : List Activation} (hsuffix : b :: below <:+ a :: rest)
      (hx : x.resume = b.resume) : Stacked k a rest action (x :: below)
  | pushed {action : Action} {x : Activation} (hregister : ∀ register, x.resume = .method register →
      ∃ target cloned entry n, action = .callOther target cloned entry register n)
      (hload : ∀ className path, x.resume = .load className path → ∃ entry, action = .load className path entry)
      (hstartup : x.resume ≠ .startup) : Stacked k a rest action (x :: a :: rest)

theorem stacked_suffix {action : Action} {activations : List Activation} (h : activations <:+ a :: rest) :
    Stacked k a rest action activations := by
  cases activations with
  | nil => exact .done
  | cons b below => exact .moved h rfl

theorem resumeCaller_stacked {action : Action} {activations : List Activation} (resume : Resume)
    (h : activations <:+ a :: rest) : Stacked k a rest action (resumeCaller resume activations) := by
  have hadvance : Stacked k a rest action (advance activations) := by
    cases activations with
    | nil => exact .done
    | cons b below => exact .moved h rfl
  cases resume with
  | method | construct => exact hadvance
  | load | startup => exact stacked_suffix h
  | root => exact .done

theorem raise_stacked {k' : ControlState} {action : Action} (message : String) {activations : List Activation}
    (h : activations <:+ a :: rest) : Stacked k a rest action (k'.raise message activations).activations := by
  induction activations generalizing k' with
  | nil => exact .done
  | cons b below ih =>
    have hbelow : below <:+ a :: rest := (List.suffix_cons b below).trans h
    rw [ControlState.raise]
    split
    · exact .moved h rfl
    · split
      · exact ih hbelow
      · exact resumeCaller_stacked _ hbelow

theorem perform_stacked (action : Action) :
    Stacked k a rest action (k.perform (a :: rest) action).activations := by
  have hraise : ∀ {action : Action} {k' : ControlState} (message : String),
      Stacked k a rest action (k'.raise message (a :: rest)).activations :=
    fun message => raise_stacked message (List.suffix_refl _)
  have hmoved : ∀ {action : Action} {x : Activation}, x.resume = a.resume → Stacked k a rest action (x :: rest) :=
    fun hx => .moved (List.suffix_refl _) hx
  cases action with
  | next | jump | push | pop | setCatch | clearCatch | callOwn | callAsync | write => exact hmoved rfl
  | native pops error =>
    cases error with
    | none => exact hmoved rfl
    | some message => exact hraise message
  | raise message => exact hraise message
  | throwing message => exact hraise message
  | ret =>
    rw [ControlState.perform]
    dsimp only
    split
    · exact resumeCaller_stacked _ (List.suffix_cons a rest)
    · exact hmoved rfl
  | callOther target cloned entry register n =>
    refine .pushed (fun register' hresume => ?_) (fun className path hresume => ?_) (by simp)
    · cases hresume
      exact ⟨target, cloned, entry, n, rfl⟩
    · cases hresume
  | construct entry =>
    refine .pushed (fun register hresume => ?_) (fun className path hresume => ?_) (by simp)
    · cases hresume
    · cases hresume
  | load className path entry =>
    refine .pushed (fun register hresume => ?_) (fun className' path' hresume => ?_) (by simp)
    · cases hresume
    · cases hresume
      exact ⟨entry, rfl⟩
  | reject target again =>
    unfold ControlState.perform
    dsimp only
    split
    · exact hraise _
    · exact hmoved rfl
  | exit message => exact .done

end

section

variable {α : Type} [NumOps α] {classes : String → Option Code} {m m' : Machine α} {origin : ContextId → Origin}
  {thread : ℕ} {a : Activation} {rest : List Activation} {i : Instruction} {e : Effect α} {outcome : Outcome}

def HasSlot (origin : ContextId → Origin) (b caller : Activation) : Prop :=
  ∀ register, b.resume = .method register → register ≤ (origin caller.currentContext).size

/-- The frames are as large as the registers that are written from outside. -/
structure Sized (m : Machine α) (origin : ContextId → Origin) : Prop where
  symbols : ∀ c, c ≠ 0 → c < m.control.nextContext → ∃ r0 r2,
    (origin c).code[(origin c).position]? = some ⟨.FFRAME, r0, .symbols (m.data.contexts c).symbols, r2⟩
  requested : ∀ c, (m.control.links c).returnContext ≠ 0 →
    (m.control.links c).requestedReturnRegister ≤ (origin (m.control.links c).returnContext).size
  waiting : ∀ list ∈ m.threads, list.IsChain (HasSlot origin)

section

variable (hl : Linked m.control (frames m.activations))
  (hsound : ∀ path code, classes path = some code → Sound code) (hk : Kept classes m origin) (h : Sized m origin)
  (hs : StepOf classes m m' thread a rest i e outcome)

include hl hsound hk hs in
theorem executing_fits : Fits (origin a.currentContext).size i := by
  have hmem := mem_activations hs List.mem_cons_self
  exact (hk.made_closed hl hsound hmem).fits i ((hk.executing a hmem).pointer.mem (hk.fetched hs))

/-- The register for the result of a call is one that the call writes. -/
theorem Asks.register {d d' : Data α} {k : ControlState} {action : Action} {entry register n : ℕ}
    (h : Asks classes d k a i d' action) (haction : action = .callOwn entry register n ∨
      ∃ target cloned, action = .callOther target cloned entry register n) : register ∈ i.writes := by
  have hcall : i.opcode = .CALL → i.r1.reg ∈ i.writes := by
    obtain ⟨opcode, r0, r1, r2⟩ := i
    rintro rfl
    exact List.mem_singleton.mpr rfl
  rcases haction with rfl | ⟨target, cloned, rfl⟩
  · cases h with
    | callOwn hi => exact hcall hi
  · cases h with
    | callOther hi | callClone hi => exact hcall hi

include h hs in
theorem Sized.symbols_step (c : ContextId) (hne : c ≠ 0) (hlt : c < m'.control.nextContext) : ∃ r0 r2,
    (origins m'.data m.control a e.action origin c).code[(origins m'.data m.control a e.action origin c).position]? =
      some ⟨.FFRAME, r0, .symbols (m'.data.contexts c).symbols, r2⟩ := by
  have hnext : m'.control.nextContext = m.control.nextContext + (if e.action.enters then 1 else 0) := by
    rw [hs.control, ← hs.perform]
    exact perform_nextContext
  by_cases hold : c < m.control.nextContext
  · have hsymbols : (m'.data.contexts c).symbols = (m.data.contexts c).symbols := by
      rw [hs.contexts]
      rcases effect_scoped hs.effect with ⟨-, hsame⟩ | ⟨-, hone⟩
      · exact hsame.symbols c
      · exact hone.symbols c (Nat.ne_of_lt hold)
    rw [origins_old hold, hsymbols]
    exact h.symbols c hne hold
  · rw [hnext, entryOf_enters] at hlt
    cases hentry : entryOf e.action with
    | none =>
      rw [hentry] at hlt
      exact absurd hlt hold
    | some entry =>
      rw [hentry] at hlt
      obtain rfl : c = m.control.nextContext := Nat.le_antisymm (Nat.lt_succ_iff.mp hlt) (Nat.not_lt.mp hold)
      obtain ⟨start, hframe⟩ := (effect_acts hs.effect).enters entry hentry
      obtain ⟨-, r0, r2, hat⟩ := frameAt_made hframe
      rw [origins_entered hentry, hs.states, hs.contexts]
      exact ⟨r0, r2, hat⟩

include hl hsound hk h hs in
theorem Sized.requested_step (c : ContextId) (hne : (m'.control.links c).returnContext ≠ 0) :
    (m'.control.links c).requestedReturnRegister ≤
      (origins m'.data m.control a e.action origin (m'.control.links c).returnContext).size := by
  have hframe : (a.state, a.currentContext) ∈ frames m.activations :=
    List.mem_map_of_mem (mem_activations hs List.mem_cons_self)
  have hcurrent : origins m'.data m.control a e.action origin a.currentContext = origin a.currentContext :=
    origins_old (hl.context_lt _ hframe)
  have hsame : ∀ c, (m.control.links c).returnContext ≠ 0 → (m.control.links c).requestedReturnRegister ≤
      (origins m'.data m.control a e.action origin (m.control.links c).returnContext).size := by
    intro c hne
    have hbound : ¬(c = 0 ∨ m.control.nextContext ≤ c) := by
      intro hc
      rw [hk.blank c hc] at hne
      exact hne rfl
    obtain ⟨hzero, hlt⟩ := not_or.mp hbound
    rw [origins_old (Nat.lt_trans (hl.older c hzero) (Nat.not_le.mp hlt))]
    exact h.requested c hne
  have hrelinks : Relinks m.control { a with objectToSearchOn := e.objectToSearchOn } e.action c
      (m'.control.links c) := by
    rw [hs.control, ← hs.perform]
    exact perform_relinks _ c
  have hasks := effect_asks hs.effect
  generalize m'.control.links c = link at hrelinks hne ⊢
  generalize e.action = action at hrelinks hasks hcurrent hsame ⊢
  cases hrelinks with
  | same => exact hsame c hne
  | armed | cleared => exact hsame a.currentContext hne
  | enters =>
    rw [hcurrent]
    refine executing_fits hl hsound hk hs _ (List.mem_append_right _ ?_)
    exact Asks.register hasks (Or.inl rfl)
  | starts hstart => exact absurd rfl hne

include hl hsound hk h hs in
theorem Sized.waiting_step : ∀ list ∈ m'.threads, list.IsChain (HasSlot (origins m'.data m.control a e.action origin)) := by
  have hcontext : ∀ b ∈ m.activations,
      origins m'.data m.control a e.action origin b.currentContext = origin b.currentContext := by
    intro b hb
    have hframe : (b.state, b.currentContext) ∈ frames m.activations := List.mem_map_of_mem hb
    exact origins_old (hl.context_lt _ hframe)
  have hold : ∀ list ∈ m.threads, list.IsChain (HasSlot (origins m'.data m.control a e.action origin)) := by
    intro list hlist
    refine List.IsChain.imp_of_mem_imp ?_ (h.waiting list hlist)
    intro b caller hb hcaller hslot register hresume
    rw [hcontext caller (List.mem_flatten.mpr ⟨list, hlist, hcaller⟩)]
    exact hslot register hresume
  have hhead : ∀ {x y : Activation} {below : List Activation}, x.resume = y.resume →
      (y :: below).IsChain (HasSlot (origins m'.data m.control a e.action origin)) →
      (x :: below).IsChain (HasSlot (origins m'.data m.control a e.action origin)) := by
    intro x y below hx hchain
    refine hchain.imp_head fun hslot register hresume => hslot register ?_
    rw [← hx, hresume]
  have hthis : (({ a with objectToSearchOn := e.objectToSearchOn } : Activation) :: rest).IsChain
      (HasSlot (origins m'.data m.control a e.action origin)) := by
    have hbefore := hold _ (List.mem_of_getElem? hs.activations)
    exact hhead (y := a) rfl hbefore
  intro list hlist
  rw [hs.threads, List.mem_append] at hlist
  rcases hlist with hlist | hlist
  · rcases List.mem_or_eq_of_mem_set hlist with hlist | rfl
    · exact hold list hlist
    · rw [← hs.perform]
      have hstacked : Stacked m.control { a with objectToSearchOn := e.objectToSearchOn } rest e.action
          (m.control.perform ({ a with objectToSearchOn := e.objectToSearchOn } :: rest) e.action).activations :=
        perform_stacked e.action
      generalize (m.control.perform ({ a with objectToSearchOn := e.objectToSearchOn } :: rest) e.action).activations =
        activations at hstacked
      cases hstacked with
      | done => exact .nil
      | moved hsuffix hx =>
        exact hhead hx (hthis.suffix hsuffix)
      | pushed hregister _ _ =>
        refine hthis.cons ?_
        rintro caller hcaller register hresume
        cases hcaller
        obtain ⟨target, cloned, entry, n, haction⟩ := hregister register hresume
        rw [hcontext a (mem_activations hs List.mem_cons_self)]
        refine executing_fits hl hsound hk hs register (List.mem_append_right _ ?_)
        exact Asks.register (effect_asks hs.effect) (Or.inr ⟨target, cloned, haction⟩)
  · obtain ⟨b, -, rfl⟩ := List.mem_map.mp hlist
    exact .singleton b

include hl hsound hk h hs in
theorem Sized.step : Sized m' (origins m'.data m.control a e.action origin) :=
  ⟨h.symbols_step hs, h.requested_step hl hsound hk hs, h.waiting_step hl hsound hk hs⟩

end

theorem boot_sized {className : String} {code : Code} {input : List String} {staticEntry entry : ℕ}
    (hboot : boot className code input = some m) (hentries : BootOf className code m staticEntry entry) :
    Sized m fun c => ⟨code, if c = 1 then entry - 1 else staticEntry - 1⟩ := by
  have hlinks : ∀ c, m.control.links c = {} := by
    intro c
    rw [hentries.control]
    simp [ControlState.start]
  have hthreads := hentries.threads
  unfold boot at hboot
  obtain ⟨⟨entry', symbols⟩, hentry, hboot⟩ := Option.bind_eq_some_iff.mp hboot
  obtain ⟨start, -, hboot⟩ := Option.bind_eq_some_iff.mp hboot
  obtain ⟨⟨staticEntry', staticSymbols⟩, hstatic, hboot⟩ := Option.bind_eq_some_iff.mp hboot
  obtain ⟨-, r0, r2, hframe⟩ := frameAt_made hentry
  obtain ⟨-, r0', r2', hstaticFrame⟩ := frameAt_made hstatic
  cases hboot
  obtain ⟨hfirst, -⟩ := List.cons.inj hthreads
  obtain ⟨hstaticEntry, hrest⟩ := List.cons.inj hfirst
  obtain ⟨hentry', -⟩ := List.cons.inj hrest
  cases hstaticEntry
  cases hentry'
  refine ⟨fun c hne hlt => ?_, fun c hne => ?_, ?_⟩
  · by_cases hone : c = 1
    · subst hone
      exact ⟨r0, r2, hframe⟩
    · have htwo : ∀ c : ℕ, c ≠ 0 → c ≠ 1 → c < 3 → c = 2 := by omega
      obtain rfl := htwo c hne hone hlt
      exact ⟨r0', r2', hstaticFrame⟩
  · rw [hlinks] at hne
    exact absurd rfl hne
  · refine List.forall_mem_cons.mpr
      ⟨List.isChain_pair.mpr fun register hresume => ?_, List.forall_mem_nil _⟩
    cases hresume

theorem traced_sized (hsound : ∀ path code, classes path = some code → Sound code) (h : Traced classes m origin) :
    Sized m origin := by
  induction h with
  | boot hcode hboot hentries => exact boot_sized hboot hentries
  | step h hstep ih => exact ih.step (reachable_linked h.reachable) hsound (traced_kept hsound h) hstep

theorem slot_inside (hsound : ∀ path code, classes path = some code → Sound code) (h : Traced classes m origin)
    {c : ContextId} (hne : c ≠ 0) (hlt : c < m.control.nextContext) {name : String} {index : ℕ}
    (hslot : m.data.slotOf c name = some index) : index ≤ (origin c).size := by
  obtain ⟨r0, r2, hframe⟩ := (traced_sized hsound h).symbols c hne hlt
  obtain ⟨path, hpath⟩ := ((traced_kept hsound h).made c hne hlt).code
  have hsize := (hsound path _ hpath).symbols _ (List.mem_of_getElem? hframe) rfl _ rfl
  unfold Origin.size
  rw [hframe]
  exact Nat.le_trans (symbol_index_le hslot) hsize

/-- One step writes no register outside of a frame that is there. -/
theorem step_inside (hsound : ∀ path code, classes path = some code → Sound code) (h : Traced classes m origin)
    (hs : StepOf classes m m' thread a rest i e outcome) {c : ContextId} (hne : c ≠ 0)
    (hlt : c < m.control.nextContext) {r : ℕ} (hr : (origin c).size < r) : m'.data.regs c r = m.data.regs c r := by
  have hl := reachable_linked h.reachable
  have hk := traced_kept hsound h
  have hsized := traced_sized hsound h
  have hregs : m'.data.regs c r = e.data.regs c r := by
    unfold Data.regs
    rw [hs.contexts]
  rw [hregs]
  refine (effect_acts hs.effect).writes c (Nat.ne_of_lt hlt) r fun hwrites => Nat.not_le.mpr hr ?_
  cases hwrites with
  | own hwrites => exact executing_fits hl hsound hk hs r (List.mem_append_right _ hwrites)
  | named hslot => exact slot_inside hsound h hne hlt hslot
  | returned hreturn => exact hsized.requested _ hreturn
  | delivered hresume hrest =>
    have hchain := hsized.waiting _ (List.mem_of_getElem? hs.activations)
    rw [hrest] at hchain
    exact hchain.rel_head? rfl _ hresume

/-- However a run goes on, by instructions of any thread, no register outside of a frame is written: not by an
instruction of its function, nor by name from an inner function or another object, nor with the result of a
call. -/
theorem outside_unchanged {fuel : ℕ} {program : List ClassDeclaration}
    (hidents : ∀ cls ∈ program, ∀ g ∈ functionsOf cls, IsIdentifier g.2)
    (hcount : ∀ cls ∈ program, ∀ t marks, outlineClass fuel cls {} = .ok ((), t, marks) → t.labelCount < 2 ^ 31)
    (h : Traced (imagesOf fuel program) m origin) (hrun : ReflTransGen (Machine.Steps (imagesOf fuel program)) m m')
    {c : ContextId} (hne : c ≠ 0) (hlt : c < m.control.nextContext) {r : ℕ} (hr : (origin c).size < r) :
    m'.data.regs c r = m.data.regs c r := by
  have hsound : ∀ path code, imagesOf fuel program path = some code → Sound code :=
    fun path code hcode => imagesOf_sound hidents hcount hcode
  have hall : m'.data.regs c r = m.data.regs c r ∧
      ∃ origin', Traced (imagesOf fuel program) m' origin' ∧ origin' c = origin c ∧ c < m'.control.nextContext := by
    induction hrun with
    | refl => exact ⟨rfl, origin, h, rfl, hlt⟩
    | tail hpath hstep ih =>
      obtain ⟨hregs, origin', htraced, horigin, hlt'⟩ := ih
      obtain ⟨thread, hstep⟩ := hstep
      obtain ⟨a, rest, i, e, outcome, hs⟩ := Machine.step_cases hstep
      refine ⟨?_, _, .step htraced hs, ?_, ?_⟩
      · rw [step_inside hsound htraced hs hne hlt' (horigin ▸ hr), hregs]
      · rw [origins_old hlt', horigin]
      · rw [hs.control, ← hs.perform, perform_nextContext]
        exact Nat.lt_of_lt_of_le hlt' (Nat.le_add_right _ _)
  exact hall.1

omit [NumOps α] in
theorem encloses_lt (hm : Scoping m) {c c' : ContextId} (h : Encloses m.data c c') (hc : c < m.control.nextContext) :
    c' ≠ 0 ∧ c' < m.control.nextContext := by
  induction h with
  | self hne => exact ⟨hne, hc⟩
  | outer hne h ih => exact ih (Nat.lt_trans (hm.older _ hne hc) hc)

/-- In every state of a run and in every activation of every thread, the search for a name along the scopes ends:
at the innermost scope around that declares the name, in a slot of its frame, or past the outermost scope when
none declares it. -/
theorem name_resolves {fuel : ℕ} {program : List ClassDeclaration}
    (hidents : ∀ cls ∈ program, ∀ g ∈ functionsOf cls, IsIdentifier g.2)
    (hcount : ∀ cls ∈ program, ∀ t marks, outlineClass fuel cls {} = .ok ((), t, marks) → t.labelCount < 2 ^ 31)
    (h : Traced (imagesOf fuel program) m origin) {b : Activation} (hb : b ∈ m.activations) (name : String) :
    (∃ c index, m.data.findSlot name (b.currentContext + 1) b.currentContext = some (some (c, index)) ∧
      Innermost m.data name b.currentContext c index ∧ index ≤ (origin c).size) ∨
    m.data.findSlot name (b.currentContext + 1) b.currentContext = some none ∧
      ∀ c, Encloses m.data b.currentContext c → ¬Declares m.data c name := by
  have hsound : ∀ path code, imagesOf fuel program path = some code → Sound code :=
    fun path code hcode => imagesOf_sound hidents hcount hcode
  have hframe : (b.state, b.currentContext) ∈ frames m.activations := List.mem_map_of_mem hb
  have hlt := (reachable_linked h.reachable).context_lt _ hframe
  have hscoping := reachable_scoping h.reachable
  rcases @findSlot_some _ name _ _ hscoping _ hlt (Nat.lt_succ_self _) with ⟨c, index, hfind, hinnermost⟩ | hnone
  · obtain ⟨hne, hc⟩ := encloses_lt hscoping hinnermost.encloses hlt
    exact Or.inl ⟨c, index, hfind, hinnermost, slot_inside hsound h hne hc hinnermost.slot⟩
  · exact Or.inr hnone

theorem runProgram_boot {fuel : ℕ} {program : List ClassDeclaration} {input : List String} {schedule : List ℕ}
    (h : runProgram fuel program input schedule = some m) :
    ∃ code m₀, imagesOf fuel program "Main" = some code ∧ boot "Main" code input = some m₀ ∧
      ReflTransGen (Machine.Steps (imagesOf fuel program)) m₀ m := by
  obtain ⟨code, hcode, hrest⟩ := Option.bind_eq_some_iff.mp h
  obtain ⟨m₀, hboot, hrun⟩ := Option.bind_eq_some_iff.mp hrest
  exact ⟨code, m₀, hcode, hboot, Machine.run_path hrun⟩

end

/-- The frame of the main class has registers 0 to 6; behind them the call of `s.f(1)` changes nothing. -/
theorem main_frame_unchanged : ∃ (m₀ m : Machine ℚ) (origin : ContextId → Origin),
    Traced (imagesOf 9 sampleProgram) m₀ origin ∧ ReflTransGen (Machine.Steps (imagesOf 9 sampleProgram)) m₀ m ∧
    m.control.nextContext = 6 ∧ (origin 1).size = 6 ∧ m.data.regs 1 7 = m₀.data.regs 1 7 := by
  have hrun : (runProgram (α := ℚ) 9 sampleProgram [] (List.replicate 26 0)).map (·.control.nextContext) = some 6 := by
    decide +kernel
  have hsize : (imagesOf 9 sampleProgram "Main").bind
      (fun code => (frameAt code 0).map fun p => (⟨code, p.1 - 1⟩ : Origin).size) = some 6 := by decide +kernel
  obtain ⟨m, hm, hnext⟩ := Option.map_eq_some_iff.mp hrun
  obtain ⟨code, m₀, hcode, hboot, hpath⟩ := runProgram_boot hm
  obtain ⟨staticEntry, entry, hentries⟩ := boot_of hboot
  obtain ⟨symbols, hentry⟩ := hentries.entry
  rw [hcode, Option.bind_some, hentry] at hsize
  have horigin : (⟨code, entry - 1⟩ : Origin).size = 6 := Option.some.inj hsize
  have hlt : 1 < m₀.control.nextContext := by
    rw [hentries.control]
    decide
  have htraced : Traced (imagesOf 9 sampleProgram) m₀ fun c => ⟨code, if c = 1 then entry - 1 else staticEntry - 1⟩ :=
    .boot hcode hboot hentries
  have hoverflow : (⟨code, entry - 1⟩ : Origin).size < 7 := by
    rw [horigin]
    exact Nat.lt_succ_self 6
  exact ⟨m₀, m, _, htraced, hpath, hnext, horigin, outside_unchanged sampleProgram_identifiers sampleProgram_labels
    htraced hpath Nat.one_ne_zero hlt hoverflow⟩

/-- For the function `f` and the main class that waits for it. -/
theorem both_resolve : ∃ (m : Machine ℚ) (origin : ContextId → Origin),
    Traced (imagesOf 9 sampleProgram) m origin ∧ m.activations.length = 2 ∧
    ∀ b ∈ m.activations,
      (∃ c index, m.data.findSlot "s" (b.currentContext + 1) b.currentContext = some (some (c, index)) ∧
        Innermost m.data "s" b.currentContext c index ∧ index ≤ (origin c).size) ∨
      m.data.findSlot "s" (b.currentContext + 1) b.currentContext = some none ∧
        ∀ c, Encloses m.data b.currentContext c → ¬Declares m.data c "s" := by
  obtain ⟨m, origin, htraced, hlength⟩ := sampleProgram_handles
  exact ⟨m, origin, htraced, hlength, fun b hb =>
    name_resolves sampleProgram_identifiers sampleProgram_labels htraced hb "s"⟩

end Zeroscript.FrameWrites
