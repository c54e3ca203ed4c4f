import Zeroscript.ClassCode
import Zeroscript.Edits
import Zeroscript.InstructionShapes
import Zeroscript.Number

/-! # Names of classes

A class that is not known yet is looked up in the imports of the class that names it. From then on the
name alone decides, in every class. -/
namespace Zeroscript.Imports

open InstructionShapes
open Relation (ReflTransGen)

section

variable {α : Type} [NumOps α] {classes : String → Option Code} {d d' : Data α} {k : ControlState}
  {a : Activation} {rest : List Activation} {i : Instruction} {e : Effect α} {n path : String}

/-- An instruction that needs the class `n`: `new`, or access to a static variable. -/
inductive UsesClass (d : Data α) (a : Activation) (i : Instruction) (n : String) : Prop where
  | construct (hi : i.opcode = .CALL) (htag : (d.regs a.currentContext i.r0.reg).type = .classRef)
      (hobject : d.object (d.regs a.currentContext i.r0.reg) = some (.classRef n)) : UsesClass d a i n
  | read {name : String}
      (hi : i.opcode = .GET_FIELD_IMMEDIATE ∧ i.r1.text = name ∨
        i.opcode = .GET_FIELD ∧ d.fieldName (d.regs a.currentContext i.r1.reg) = some name)
      (hnative : nativeFunctions.lookup name = none) (hother : i.r0.reg ≠ 1)
      (htag : (d.regs a.currentContext i.r0.reg).type ≠ .number)
      (hobject : d.object (d.regs a.currentContext i.r0.reg) = some (.classRef n)) : UsesClass d a i n
  | write {name : String} (hi : i.opcode = .SET_FIELD)
      (hkey : d.fieldName (d.regs a.currentContext i.r1.reg) = some name) (hother : i.r0.reg ≠ 1)
      (htag : (d.regs a.currentContext i.r0.reg).type ≠ .number) (hown : n ≠ "__static__")
      (hobject : d.object (d.regs a.currentContext i.r0.reg) = some (.classRef n)) : UsesClass d a i n

/-- The class at `path` is what the instruction gets for `n`, which it loads when it is not known. -/
def Denotes (classes : String → Option Code) (d : Data α) (e : Effect α) (n path : String) : Prop :=
  match d.typeInfo n with
  | some info => classes path = some info.bytecodeStream
  | none => (∃ entry, e.action = .load n path entry) ∨
      classes path = none ∧ e.action = .exit (some ("cannot find class or variable " ++ path))

theorem loadClass_cases {searched : Addr} {importsTable : ZMap String}
    (h : loadClass classes d k searched n importsTable = some e) :
    (∃ code entry, classes ((importsTable.get n).getD n) = some code ∧
      e.action = .load n ((importsTable.get n).getD n) entry ∧ e.data.typeInfo n ≠ none) ∨
    classes ((importsTable.get n).getD n) = none ∧
      e.action = .exit (some ("cannot find class or variable " ++ (importsTable.get n).getD n)) := by
  unfold loadClass at h
  dsimp only at h
  split at h
  · rename_i hnone
    cases h
    exact Or.inr ⟨hnone, rfl⟩
  · rename_i code hcode
    obtain ⟨address, -, h⟩ := Option.bind_eq_some_iff.mp h
    obtain ⟨⟨entry, symbols⟩, -, h⟩ := Option.bind_eq_some_iff.mp h
    cases h
    refine Or.inl ⟨code, entry, hcode, rfl, ?_⟩
    have hknown : (d.setTypeInfo n { bytecodeStream := code }).typeInfo n ≠ none := by
      rw [typeInfo_setTypeInfo, if_pos rfl]
      exact Option.some_ne_none _
    exact hknown

omit [NumOps α] in
theorem object_raw {r : Reg α} {o : Object α} (h : d.object r = some o) :
    ∃ address, r.val = .raw address := by
  unfold Data.object at h
  split at h
  · exact ⟨_, ‹_›⟩
  · cases h

theorem getField_class {object register : ℕ} {name : String} (hnative : nativeFunctions.lookup name = none)
    (hother : object ≠ 1) (htag : (d.regs a.currentContext object).type ≠ .number)
    (hobject : d.object (d.regs a.currentContext object) = some (.classRef n)) (hnew : d.typeInfo n = none)
    (h : getField classes d k a object name register = some e) :
    ∃ searched info, d.typeInfo (d.states a.state).className = some info ∧
      loadClass classes d k searched n info.importsTable = some e := by
  obtain ⟨address, haddress⟩ := object_raw hobject
  unfold getField at h
  dsimp only at h
  rw [hnative] at h
  dsimp only at h
  rw [if_neg hother, haddress] at h
  split at h
  · exact absurd ‹_› htag
  · rename_i address' hval
    rw [hobject] at h
    dsimp only [Option.bind_eq_bind, Option.bind_some] at h
    rw [hnew] at h
    obtain ⟨info, hown, h⟩ := Option.bind_eq_some_iff.mp h
    exact ⟨_, info, hown, h⟩
  · contradiction

theorem UsesClass.loads (h : UsesClass d a i n) (hnew : d.typeInfo n = none)
    (he : effect classes d k a rest i = some e) :
    ∃ searched info, d.typeInfo (d.states a.state).className = some info ∧
      loadClass classes d k searched n info.importsTable = some e := by
  obtain ⟨opcode, r0, r1, r2⟩ := i
  cases h with
  | construct hi htag hobject =>
    obtain rfl : opcode = .CALL := hi
    change call classes d k a r0.reg r1.reg r2.reg = some e at he
    dsimp only at htag hobject
    unfold call at he
    dsimp only at he
    rw [htag, hobject] at he
    dsimp only [Option.bind_eq_bind, Option.bind_some] at he
    unfold Zeroscript.construct at he
    obtain ⟨info, hown, he⟩ := Option.bind_eq_some_iff.mp he
    rw [hnew] at he
    exact ⟨_, info, hown, he⟩
  | read hi hnative hother htag hobject =>
    rcases hi with ⟨hi, rfl⟩ | ⟨hi, hkey⟩
    · obtain rfl : opcode = .GET_FIELD_IMMEDIATE := hi
      exact getField_class hnative hother htag hobject hnew he
    · obtain rfl : opcode = .GET_FIELD := hi
      change ((d.fieldName (d.regs a.currentContext r1.reg)).bind fun name =>
        getField classes d k a r0.reg name r2.reg) = some e at he
      dsimp only at hkey
      rw [hkey] at he
      exact getField_class hnative hother htag hobject hnew he
  | write hi hkey hother htag hown hobject =>
    obtain rfl : opcode = .SET_FIELD := hi
    obtain ⟨address, haddress⟩ := object_raw hobject
    change ((d.fieldName (d.regs a.currentContext r1.reg)).bind fun name =>
      setField classes d k a r0.reg name (d.regs a.currentContext r2.reg)) = some e at he
    dsimp only at hkey hother htag hobject haddress
    rw [hkey] at he
    dsimp only [Option.bind_eq_bind, Option.bind_some] at he
    unfold setField at he
    dsimp only at he
    rw [if_neg hother, haddress] at he
    split at he
    · exact absurd ‹_› htag
    · rw [hobject] at he
      dsimp only [Option.bind_eq_bind, Option.bind_some] at he
      rw [if_neg hown, hnew] at he
      obtain ⟨info, hown, he⟩ := Option.bind_eq_some_iff.mp he
      exact ⟨_, info, hown, he⟩
    · contradiction

theorem loadClass_loading {searched : Addr} {className : String} {importsTable : ZMap String}
    (h : loadClass classes d k searched className importsTable = some e)
    (hload : e.action.loading = some n) : className = n := by
  rcases loadClass_cases h with ⟨code, entry, -, haction, -⟩ | ⟨-, haction⟩
  · rw [haction] at hload
    exact Option.some.inj hload
  · rw [haction] at hload
    cases hload

theorem searchThis_action {name : String} {register : ℕ} (h : searchThis d a name register = some e) :
    e.action = .next := by
  unfold searchThis at h
  obtain ⟨slot, -, h⟩ := Option.bind_eq_some_iff.mp h
  dsimp only at h
  split at h
  · cases h
    rfl
  · split at h
    · cases h
      rfl
    · split at h <;>
      · cases h
        rfl

theorem getField_loading {object register : ℕ} {name : String}
    (h : getField classes d k a object name register = some e) (hload : e.action.loading = some n) :
    nativeFunctions.lookup name = none ∧ object ≠ 1 ∧
      (d.regs a.currentContext object).type ≠ .number ∧
      d.object (d.regs a.currentContext object) = some (.classRef n) ∧ d.typeInfo n = none := by
  unfold getField at h
  dsimp only at h
  split at h
  · cases h
    cases hload
  · rename_i hnative
    split at h
    · rw [searchThis_action h] at hload
      cases hload
    · rename_i hother
      split at h
      · split at h
        · rw [searchThis_action h] at hload
          cases hload
        · cases h
          cases hload
      · rename_i htag
        obtain ⟨o, hobject, h⟩ := Option.bind_eq_some_iff.mp h
        cases o with
        | classRef className =>
          dsimp only at h
          split at h
          · split at h <;>
            · cases h
              cases hload
          · rename_i hnew
            obtain ⟨info, -, h⟩ := Option.bind_eq_some_iff.mp h
            obtain rfl := loadClass_loading h hload
            exact ⟨hnative, hother, htag, hobject, hnew⟩
        | instanceObject target =>
          obtain ⟨value, -, h⟩ := Option.bind_eq_some_iff.mp h
          cases value <;>
          · cases h
            cases hload
        | json | string =>
          obtain ⟨properties, -, h⟩ := Option.bind_eq_some_iff.mp h
          split at h <;>
          · cases h
            cases hload
        | functionRef => cases h
      · cases h

theorem setFieldVirtual_loading {searched : Addr} {target : StateId} {name : String} {value : Reg α}
    (h : setFieldVirtual d k a searched target name value = some e) : e.action.loading = none := by
  unfold setFieldVirtual at h
  dsimp only at h
  split at h
  · cases h
  · split at h
    · split at h
      · obtain ⟨refused, -, h⟩ := Option.bind_eq_some_iff.mp h
        cases h
        rfl
      · cases h
        rfl
    · obtain ⟨refused, -, h⟩ := Option.bind_eq_some_iff.mp h
      cases h
      rfl

theorem setField_loading {object : ℕ} {name : String} {value : Reg α}
    (h : setField classes d k a object name value = some e) (hload : e.action.loading = some n) :
    object ≠ 1 ∧ (d.regs a.currentContext object).type ≠ .number ∧ n ≠ "__static__" ∧
      d.object (d.regs a.currentContext object) = some (.classRef n) ∧ d.typeInfo n = none := by
  unfold setField at h
  dsimp only at h
  split at h
  · obtain ⟨slot, -, h⟩ := Option.bind_eq_some_iff.mp h
    split at h <;>
    · cases h
      cases hload
  · rename_i hother
    split at h
    · cases h
      cases hload
    · rename_i htag
      obtain ⟨o, hobject, h⟩ := Option.bind_eq_some_iff.mp h
      cases o with
      | classRef className =>
        dsimp only at h
        split at h
        · cases h
          cases hload
        · rename_i hown
          split at h
          · cases h
            cases hload
          · rename_i hnew
            obtain ⟨info, -, h⟩ := Option.bind_eq_some_iff.mp h
            obtain rfl := loadClass_loading h hload
            exact ⟨hother, htag, hown, hobject, hnew⟩
      | instanceObject target =>
        rw [setFieldVirtual_loading h] at hload
        cases hload
      | json | string =>
        cases h
        cases hload
      | functionRef => cases h
    · cases h

theorem callFunction_loading {start : ℕ} {isAsync : Bool} {parent : ContextId} {target : StateId}
    {register m : ℕ} (h : callFunction d k a start isAsync parent target register m = some e) :
    e.action.loading = none := by
  unfold callFunction at h
  obtain ⟨arguments, -, h⟩ := Option.bind_eq_some_iff.mp h
  obtain ⟨d₁, -, h⟩ := Option.bind_eq_some_iff.mp h
  obtain ⟨⟨entry, symbols⟩, -, h⟩ := Option.bind_eq_some_iff.mp h
  dsimp only at h
  split at h <;> split at h <;>
  · cases h
    rfl

theorem call_loading {callee register m : ℕ} (h : call classes d k a callee register m = some e)
    (hload : e.action.loading = some n) :
    (d.regs a.currentContext callee).type = .classRef ∧
      d.object (d.regs a.currentContext callee) = some (.classRef n) ∧ d.typeInfo n = none := by
  unfold call at h
  dsimp only at h
  split at h
  · split at h <;>
    · obtain ⟨argument, -, h⟩ := Option.bind_eq_some_iff.mp h
      obtain ⟨⟨d₁, result⟩, -, h⟩ := Option.bind_eq_some_iff.mp h
      cases result <;>
      · cases h
        cases hload
  · obtain ⟨o, -, h⟩ := Option.bind_eq_some_iff.mp h
    split at h
    · rw [callFunction_loading h] at hload
      cases hload
    · cases h
  · rename_i htag
    obtain ⟨o, hobject, h⟩ := Option.bind_eq_some_iff.mp h
    split at h
    · unfold construct at h
      obtain ⟨info, -, h⟩ := Option.bind_eq_some_iff.mp h
      split at h
      · rename_i hnew
        obtain rfl := loadClass_loading h hload
        exact ⟨htag, hobject, hnew⟩
      · obtain ⟨d₁, -, h⟩ := Option.bind_eq_some_iff.mp h
        obtain ⟨⟨entry, symbols⟩, -, h⟩ := Option.bind_eq_some_iff.mp h
        cases h
        cases hload
    · cases h
  · cases h
  · cases h
    cases hload

theorem Asks.loading {action : Action} (h : Asks classes d k a i d' action)
    (hload : action.loading = some n) : i.opcode.loads = true := by
  cases h with
  | load hi => exact hi
  | next | jump | push | pop | native | raise | throwing | setCatch | clearCatch | ret | callOwn | callAsync
  | callOther | callClone | construct | write | reject | exit => cases hload

theorem effect_loading (he : effect classes d k a rest i = some e) (hload : e.action.loading = some n) :
    UsesClass d a i n ∧ d.typeInfo n = none := by
  have hloads := Asks.loading (effect_asks he) hload
  obtain ⟨opcode, r0, r1, r2⟩ := i
  have hopcode : ∀ op : Opcode, op.loads = true →
      op = .CALL ∨ op = .GET_FIELD ∨ op = .GET_FIELD_IMMEDIATE ∨ op = .SET_FIELD := by
    intro op
    cases op <;> decide
  rcases hopcode opcode hloads with rfl | rfl | rfl | rfl
  · change call classes d k a r0.reg r1.reg r2.reg = some e at he
    obtain ⟨htag, hobject, hnew⟩ := call_loading he hload
    exact ⟨.construct rfl htag hobject, hnew⟩
  · change ((d.fieldName (d.regs a.currentContext r1.reg)).bind fun name =>
      getField classes d k a r0.reg name r2.reg) = some e at he
    obtain ⟨name, hkey, he⟩ := Option.bind_eq_some_iff.mp he
    obtain ⟨hnative, hother, htag, hobject, hnew⟩ := getField_loading he hload
    exact ⟨.read (Or.inr ⟨rfl, hkey⟩) hnative hother htag hobject, hnew⟩
  · change getField classes d k a r0.reg r1.text r2.reg = some e at he
    obtain ⟨hnative, hother, htag, hobject, hnew⟩ := getField_loading he hload
    exact ⟨.read (Or.inl ⟨rfl, rfl⟩) hnative hother htag hobject, hnew⟩
  · change ((d.fieldName (d.regs a.currentContext r1.reg)).bind fun name =>
      setField classes d k a r0.reg name (d.regs a.currentContext r2.reg)) = some e at he
    obtain ⟨name, hkey, he⟩ := Option.bind_eq_some_iff.mp he
    obtain ⟨hother, htag, hown, hobject, hnew⟩ := setField_loading he hload
    exact ⟨.write rfl hkey hother htag hown hobject, hnew⟩

inductive Event where
  | started (className : String)
  /-- A state of the class has executed an import. -/
  | imported (className name path : String)
  /-- A state of the class has loaded the class of that name. -/
  | loaded (className name : String)

/-- The path that a class has imported under a name, in a history with the last event first. -/
def importedAs : List Event → String → String → Option String
  | [], _, _ => none
  | .imported className name path :: history, className', name' =>
    if className = className' ∧ name = name' then some path else importedAs history className' name'
  | .started _ :: history, className', name' | .loaded _ _ :: history, className', name' =>
    importedAs history className' name'

/-- The path from which a name has been loaded: the import of the class that used it first. -/
def loadedFrom : List Event → String → Option String
  | [], _ => none
  | .started className :: history, n => if n = className then some className else loadedFrom history n
  | .imported _ _ _ :: history, n => loadedFrom history n
  | .loaded className name :: history, n =>
    match loadedFrom history n with
    | some path => some path
    | none => if n = name then some ((importedAs history className n).getD n) else none

def eventsOf (own : String) (i : Instruction) (loading : Option String) : List Event :=
  if i.opcode = .IMPORT_CLS then [.imported own i.r1.text i.r0.text]
  else loading.toList.map (.loaded own)

/-- A run of a program, with its history. -/
inductive History (classes : String → Option Code) : Machine α → List Event → Prop where
  | boot {className : String} {code : Code} {input : List String} {m : Machine α}
      (hcode : classes className = some code) (hboot : boot className code input = some m) :
      History classes m [.started className]
  | step {m m' : Machine α} {history : List Event} {thread : ℕ} {a : Activation} {rest : List Activation}
      {i : Instruction} {e : Effect α} {outcome : Outcome} (h : History classes m history)
      (hstep : StepOf classes m m' thread a rest i e outcome) :
      History classes m' (eventsOf (m.data.states a.state).className i e.action.loading ++ history)

theorem reachable_history {m : Machine α} (h : m.Reachable classes) : ∃ history, History classes m history := by
  obtain ⟨className, code, input, m₀, hcode, hboot, hpath⟩ := h
  induction hpath with
  | refl => exact ⟨_, .boot hcode hboot⟩
  | tail _ hstep ih =>
    obtain ⟨history, hhistory⟩ := ih
    obtain ⟨thread, hstep⟩ := hstep
    obtain ⟨a, rest, i, e, outcome, hs⟩ := Machine.step_cases hstep
    exact ⟨_, hhistory.step hs⟩

/-- What the known types have to do with the history. -/
structure Tracked (classes : String → Option Code) (history : List Event) (d : Data α) : Prop where
  unknown : ∀ n, d.typeInfo n = none → loadedFrom history n = none
  known : ∀ n info, d.typeInfo n = some info →
    ∃ path, loadedFrom history n = some path ∧ classes path = some info.bytecodeStream
  table : ∀ className n, className ≠ n →
    (d.typeInfo className).bind (·.importsTable.get n) = importedAs history className n
  writable : ∀ className info, d.typeInfo className = some info → info.importsTable.isImmutable = false
  states : ∀ s, (d.states s).byteStream = [] ∨ ∃ info, d.typeInfo (d.states s).className = some info ∧
    info.bytecodeStream = (d.states s).byteStream
  imports : ∀ className n path, .imported className n path ∈ history → ∃ info,
    d.typeInfo className = some info ∧ ∃ i ∈ info.bytecodeStream, i.opcode = .IMPORT_CLS ∧
      i.r1.text = n ∧ i.r0.text = path

variable {history : List Event} {own : String} {resumes : List Resume} {loading : Option String}

omit [NumOps α] in
theorem code_setTypeInfo {className name : String} {info info' old : TypeInfo α}
    (hinfo : d.typeInfo className = some info) (hcode : info'.bytecodeStream = info.bytecodeStream)
    (hold : d.typeInfo name = some old) :
    ∃ new, (d.setTypeInfo className info').typeInfo name = some new ∧
      new.bytecodeStream = old.bytecodeStream := by
  rw [typeInfo_setTypeInfo]
  by_cases hname : name = className
  · subst hname
    rw [hinfo] at hold
    obtain rfl := Option.some.inj hold
    exact ⟨info', if_pos rfl, hcode⟩
  · exact ⟨old, (if_neg hname).trans hold, rfl⟩

omit [NumOps α] in
theorem Tracked.update {className : String} {info info' : TypeInfo α} (h : Tracked classes history d)
    (hinfo : d.typeInfo className = some info) (hcode : info'.bytecodeStream = info.bytecodeStream)
    (htable : ∀ n ≠ className, info'.importsTable.get n = info.importsTable.get n)
    (hwritable : info'.importsTable.isImmutable = false) :
    Tracked classes history (d.setTypeInfo className info') := by
  refine ⟨fun n hn => ?_, fun n new hnew => ?_, fun name n hne => ?_, fun name new hnew => ?_, fun s => ?_,
    fun name n path hevent => ?_⟩
  · rw [typeInfo_setTypeInfo] at hn
    split at hn
    · cases hn
    · exact h.unknown n hn
  · rw [typeInfo_setTypeInfo] at hnew
    split at hnew
    · rename_i hname
      subst hname
      obtain rfl := Option.some.inj hnew
      rw [hcode]
      exact h.known n info hinfo
    · exact h.known n new hnew
  · rw [typeInfo_setTypeInfo, ← h.table name n hne]
    split
    · rename_i hname
      subst hname
      rw [hinfo]
      exact htable n (Ne.symm hne)
    · rfl
  · rw [typeInfo_setTypeInfo] at hnew
    split at hnew
    · obtain rfl := Option.some.inj hnew
      exact hwritable
    · exact h.writable name new hnew
  · rcases h.states s with hempty | ⟨old, hold, hstream⟩
    · exact Or.inl hempty
    · obtain ⟨new, hnew, hsame⟩ := code_setTypeInfo hinfo hcode hold
      exact Or.inr ⟨new, hnew, hsame.trans hstream⟩
  · obtain ⟨old, hold, i, hi, hrest⟩ := h.imports name n path hevent
    obtain ⟨new, hnew, hsame⟩ := code_setTypeInfo hinfo hcode hold
    exact ⟨new, hnew, i, hsame ▸ hi, hrest⟩

omit [NumOps α] in
theorem Tracked.same (h : Tracked classes history d) (htypes : ∀ n, d'.typeInfo n = d.typeInfo n)
    (hstates : ∀ s, d'.states s = d.states s ∨ d.HasCode (d'.states s).className (d'.states s).byteStream) :
    Tracked classes history d' := by
  have hknown : d'.typeInfo = d.typeInfo := funext htypes
  refine ⟨?_, ?_, ?_, ?_, fun s => ?_, ?_⟩
  · rw [hknown]
    exact h.unknown
  · rw [hknown]
    exact h.known
  · rw [hknown]
    exact h.table
  · rw [hknown]
    exact h.writable
  · rw [hknown]
    rcases hstates s with hs | ⟨t, hname, hstream⟩ | hclass
    · rw [hs]
      exact h.states s
    · rw [← hname, ← hstream]
      exact h.states t
    · exact Or.inr hclass
  · rw [hknown]
    exact h.imports

omit [NumOps α] in
theorem Tracked.register {className : String} {info : TypeInfo α} {code : Code}
    (h : Tracked classes history d) (hnew : d.typeInfo className = none) (hown : d.typeInfo own = some info)
    (hcode : classes ((info.importsTable.get className).getD className) = some code) :
    Tracked classes (.loaded own className :: history)
      (d.setTypeInfo className { bytecodeStream := code }) := by
  have hkept : ∀ {name : String} {old : TypeInfo α}, d.typeInfo name = some old →
      (d.setTypeInfo className { bytecodeStream := code }).typeInfo name = some old := by
    intro name old hold
    rw [typeInfo_setTypeInfo, if_neg, hold]
    rintro rfl
    rw [hnew] at hold
    cases hold
  have htable : info.importsTable.get className = importedAs history own className := by
    rw [← h.table own className, hown]
    · rfl
    · rintro rfl
      rw [hnew] at hown
      cases hown
  refine ⟨fun n hn => ?_, fun n new hfound => ?_, fun name n hne => ?_, fun name new hfound => ?_, fun s => ?_,
    fun name n path hevent => ?_⟩
  · rw [typeInfo_setTypeInfo] at hn
    split at hn
    · cases hn
    · rename_i hname
      rw [loadedFrom, h.unknown n hn]
      exact if_neg hname
  · rw [typeInfo_setTypeInfo] at hfound
    split at hfound
    · rename_i hname
      subst hname
      obtain rfl := Option.some.inj hfound
      rw [loadedFrom, h.unknown n hnew]
      refine ⟨_, if_pos rfl, ?_⟩
      rw [← htable]
      exact hcode
    · obtain ⟨path, hpath, hclass⟩ := h.known n new hfound
      rw [loadedFrom, hpath]
      exact ⟨path, rfl, hclass⟩
  · rw [importedAs, ← h.table name n hne, typeInfo_setTypeInfo]
    split
    · rename_i hname
      rw [hname, hnew]
      rfl
    · rfl
  · rw [typeInfo_setTypeInfo] at hfound
    split at hfound
    · obtain rfl := Option.some.inj hfound
      rfl
    · exact h.writable name new hfound
  · rcases h.states s with hempty | ⟨old, hold, hstream⟩
    · exact Or.inl hempty
    · exact Or.inr ⟨old, hkept hold, hstream⟩
  · rcases List.mem_cons.mp hevent with heq | hevent
    · cases heq
    · obtain ⟨old, hold, hi⟩ := h.imports name n path hevent
      exact ⟨old, hkept hold, hi⟩

omit [NumOps α] in
theorem Tracked.importing {name path : String} {info : TypeInfo α} (h : Tracked classes history d)
    (hown : d.typeInfo own = some info)
    (hi : ∃ i ∈ info.bytecodeStream, i.opcode = .IMPORT_CLS ∧ i.r1.text = name ∧ i.r0.text = path) :
    Tracked classes (.imported own name path :: history) (d.addImport own name path) := by
  have hadd : d.addImport own name path =
      d.setTypeInfo own { info with importsTable := info.importsTable.insert name path } := by
    unfold Data.addImport
    rw [hown]
  have hwritable := h.writable own info hown
  have hcode : ({ info with importsTable := info.importsTable.insert name path } : TypeInfo α).bytecodeStream =
      info.bytecodeStream := rfl
  rw [hadd]
  refine ⟨fun n hn => ?_, fun n new hfound => ?_, fun className n hne => ?_, fun className new hfound => ?_,
    fun s => ?_, fun className n path' hevent => ?_⟩
  · rw [typeInfo_setTypeInfo] at hn
    split at hn
    · cases hn
    · exact h.unknown n hn
  · rw [typeInfo_setTypeInfo] at hfound
    split at hfound
    · rename_i hname
      subst hname
      obtain rfl := Option.some.inj hfound
      exact h.known n info hown
    · exact h.known n new hfound
  · rw [importedAs, typeInfo_setTypeInfo, ← h.table className n hne]
    by_cases hname : className = own
    · subst hname
      rw [if_pos rfl, hown]
      by_cases hn : name = n
      · subst hn
        rw [if_pos ⟨rfl, rfl⟩]
        exact ZMap.get_insert_self _ _ hwritable
      · rw [if_neg fun hboth => hn hboth.2]
        exact ZMap.get_insert_of_ne _ _ (Ne.symm hn)
    · rw [if_neg hname, if_neg fun hboth => hname hboth.1.symm]
  · rw [typeInfo_setTypeInfo] at hfound
    split at hfound
    · obtain rfl := Option.some.inj hfound
      exact (ZMap.insertFlags_isImmutable _ _ _ _).trans hwritable
    · exact h.writable className new hfound
  · rcases h.states s with hempty | ⟨old, hold, hstream⟩
    · exact Or.inl hempty
    · obtain ⟨new, hnew, hsame⟩ := code_setTypeInfo hown hcode hold
      exact Or.inr ⟨new, hnew, hsame.trans hstream⟩
  · rcases List.mem_cons.mp hevent with heq | hevent
    · cases heq
      obtain ⟨i, hmem, hrest⟩ := hi
      obtain ⟨new, hnew, hsame⟩ := code_setTypeInfo hown hcode hown
      exact ⟨new, hnew, i, hsame ▸ hmem, hrest⟩
    · obtain ⟨old, hold, i, hmem, hrest⟩ := h.imports className n path' hevent
      obtain ⟨new, hnew, hsame⟩ := code_setTypeInfo hown hcode hold
      exact ⟨new, hnew, i, hsame ▸ hmem, hrest⟩

omit [NumOps α] in
theorem Edit.tracked (hedit : Edit classes own resumes i loading d d') (hi : i.opcode ≠ .IMPORT_CLS)
    (h : Tracked classes history d) :
    Tracked classes history d' ∨ ∃ n, loading = some n ∧ d.typeInfo n = none ∧
      Tracked classes (.loaded own n :: history) d' := by
  cases hedit with
  | plain hsame =>
    obtain ⟨hstates, -, htypes⟩ := hsame
    refine Or.inl (h.same (fun n => ?_) fun s => Or.inl (congrFun hstates s))
    unfold Data.typeInfo
    rw [htypes]
  | shared s name v => exact Or.inl (h.same (fun _ => rfl) fun _ => Or.inl rfl)
  | static className name v =>
    left
    unfold Data.setStatic
    split
    · rename_i info hinfo
      exact h.update hinfo rfl (fun _ _ => rfl) (h.writable className info hinfo)
    · exact h
  | register hloading hnew hown hcode =>
    exact Or.inr ⟨_, hloading, hnew, h.register hnew hown hcode⟩
  | importing himport => exact absurd himport hi
  | @loaded className path hresume =>
    left
    unfold Data.addImport
    split
    · rename_i info hinfo
      have hwritable := h.writable className info hinfo
      refine h.update hinfo rfl (fun n hn => ZMap.get_insert_of_ne _ _ hn) ?_
      exact (ZMap.insertFlags_isImmutable _ _ _ _).trans hwritable
    · exact h
  | @ownState s className code root hcode =>
    left
    refine h.same (fun _ => rfl) fun s' => ?_
    by_cases hs : s' = s
    · subst hs
      right
      simpa [Data.newOwnState, Data.newState] using hcode
    · left
      simp [Data.newOwnState, Data.newState, Function.update_of_ne hs]
  | asyncState s s' root =>
    left
    refine h.same (fun _ => rfl) fun s₁ => ?_
    by_cases hs : s₁ = s
    · subst hs
      right
      left
      exact ⟨s', by simp [Data.newState], by simp [Data.newState]⟩
    · left
      simp [Data.newState, Function.update_of_ne hs]

omit [NumOps α] in
theorem Tracked.loaded_known (h : Tracked classes (.loaded own n :: history) d) : d.typeInfo n ≠ none := by
  intro hnone
  have hunknown := h.unknown n hnone
  rw [loadedFrom] at hunknown
  split at hunknown
  · cases hunknown
  · rw [if_pos rfl] at hunknown
    cases hunknown

theorem boot_tracked {className : String} {code : Code} {input : List String} {m : Machine α}
    (hcode : classes className = some code) (h : boot className code input = some m) :
    Tracked classes [.started className] m.data := by
  unfold boot at h
  obtain ⟨⟨entry, symbols⟩, -, h⟩ := Option.bind_eq_some_iff.mp h
  obtain ⟨start, -, h⟩ := Option.bind_eq_some_iff.mp h
  obtain ⟨⟨staticEntry, staticSymbols⟩, -, h⟩ := Option.bind_eq_some_iff.mp h
  cases h
  have htypes : ∀ (d : Data α), d.knownTypes = [(className, { bytecodeStream := code })] → ∀ n,
      d.typeInfo n = if n = className then some { bytecodeStream := code } else none := by
    intro d hd n
    unfold Data.typeInfo
    rw [hd, List.lookup_cons]
    by_cases hn : n = className
    · subst hn
      simp
    · simp [hn, beq_eq_false_iff_ne.mpr hn]
  refine ⟨fun n hn => ?_, fun n info hn => ?_, fun name n hne => ?_, fun name info hname => ?_, fun s => ?_,
    fun name n path hevent => ?_⟩
  · rw [htypes _ rfl] at hn
    split at hn
    · cases hn
    · exact if_neg ‹_›
  · rw [htypes _ rfl] at hn
    split at hn
    · obtain rfl := Option.some.inj hn
      exact ⟨className, if_pos ‹_›, hcode⟩
    · cases hn
  · rw [htypes _ rfl]
    split <;> rfl
  · rw [htypes _ rfl] at hname
    split at hname
    · obtain rfl := Option.some.inj hname
      rfl
    · cases hname
  · by_cases hone : s = 1
    · subst hone
      exact Or.inr ⟨_, (htypes _ rfl _).trans (if_pos rfl), rfl⟩
    · by_cases hzero : s = 0
      · subst hzero
        exact Or.inr ⟨_, (htypes _ rfl _).trans (if_pos rfl), rfl⟩
      · left
        simp [Data.enterFrame, Data.newOwnState, Data.newState, Function.update_of_ne hone,
          Function.update_of_ne hzero]
  · cases List.mem_singleton.mp hevent

theorem quiet_data {m m' : Machine α} {thread : ℕ} {outcome : Outcome}
    (hs : StepOf classes m m' thread a rest i e outcome) (h : outcome.raised = none) :
    m'.data = e.data := by
  rcases hs.delivered with ⟨-, hdata⟩ | ⟨message, details, hraised, -⟩
  · exact hdata
  · rw [h] at hraised
    cases hraised

theorem import_tracked {m m' : Machine α} {thread : ℕ} {outcome : Outcome}
    (hs : StepOf classes m m' thread a rest i e outcome) (himport : i.opcode = .IMPORT_CLS)
    (h : Tracked classes history m.data) :
    Tracked classes (.imported (m.data.states a.state).className i.r1.text i.r0.text :: history) m'.data := by
  have heffect := hs.effect
  have hmem := List.mem_of_getElem? hs.fetch
  obtain ⟨opcode, r0, r1, r2⟩ := i
  obtain rfl : opcode = .IMPORT_CLS := himport
  change some ⟨m.data.addImport (m.data.states a.state).className r1.text r0.text, a.objectToSearchOn,
    .next⟩ = some e at heffect
  obtain rfl := Option.some.inj heffect
  rw [quiet_data hs (by rw [← hs.perform]; rfl)]
  rcases h.states a.state with hempty | ⟨info, hinfo, hstream⟩
  · rw [hempty] at hmem
    cases hmem
  · rw [← hstream] at hmem
    exact h.importing hinfo ⟨_, hmem, rfl, rfl, rfl⟩

theorem history_tracked {m : Machine α} (h : History classes m history) : Tracked classes history m.data := by
  induction h with
  | boot hcode hboot => exact boot_tracked hcode hboot
  | @step m m' history thread a rest i e outcome h hs ih =>
    unfold eventsOf
    split
    · rename_i himport
      exact import_tracked hs himport ih
    · rename_i himport
      cases hload : e.action.loading with
      | none =>
        refine hs.keeps (fun hedit hd => ?_) ih
        rw [hload] at hedit
        rcases Edit.tracked hedit himport hd with hd | ⟨n, hn, -⟩
        · exact hd
        · cases hn
      | some n =>
        have hboth : Tracked classes history m'.data ∨
            Tracked classes (.loaded (m.data.states a.state).className n :: history) m'.data := by
          refine hs.keeps (P := fun d => Tracked classes history d ∨
            Tracked classes (.loaded (m.data.states a.state).className n :: history) d)
            (fun hedit hd => ?_) (Or.inl ih)
          rw [hload] at hedit
          rcases hd with hd | hd
          · rcases Edit.tracked hedit himport hd with hd | ⟨n', hn', -, hd⟩
            · exact Or.inl hd
            · cases hn'
              exact Or.inr hd
          · rcases Edit.tracked hedit himport hd with hd | ⟨n', hn', hnone, -⟩
            · exact Or.inr hd
            · cases hn'
              exact absurd hnone hd.loaded_known
        rcases hboth with hd | hd
        · obtain ⟨huse, hnew⟩ := effect_loading hs.effect hload
          obtain ⟨searched, info, -, hloaded⟩ := huse.loads hnew hs.effect
          rcases loadClass_cases hloaded with ⟨code, entry, -, haction, hknown⟩ | ⟨-, haction⟩
          · have hraised : outcome.raised = none := by
              rw [← hs.perform, haction]
              rfl
            rw [← quiet_data hs hraised] at hknown
            obtain ⟨found, hfound⟩ := Option.ne_none_iff_exists'.mp hknown
            obtain ⟨path, hpath, -⟩ := hd.known n found hfound
            rw [ih.unknown n hnew] at hpath
            cases hpath
          · rw [haction] at hload
            cases hload
        · exact hd

/-- The class that used `n` first has imported the same file under it; when this is the first use, the import
of `path` has been executed, or changes nothing. -/
def Agrees (classes : String → Option Code) (history : List Event) (own n path : String) : Prop :=
  match loadedFrom history n with
  | some first => classes first = classes path
  | none => (importedAs history own n).isSome ∨ path = n

theorem importedAs_mem {className : String} (h : importedAs history className n = some path) :
    .imported className n path ∈ history := by
  induction history with
  | nil => cases h
  | cons event history ih =>
    cases event with
    | imported className' name' path' =>
      rw [importedAs] at h
      split at h
      · rename_i hboth
        obtain ⟨rfl, rfl⟩ := hboth
        obtain rfl := Option.some.inj h
        exact List.mem_cons_self
      · exact List.mem_cons_of_mem _ (ih h)
    | started | loaded => exact List.mem_cons_of_mem _ (ih h)

theorem denotes_iff (k : ControlState) {info : TypeInfo α} (h : Tracked classes history d)
    (hown : d.typeInfo own = some info)
    (hpath : ∀ path', importedAs history own n = some path' → path' = path)
    (hload : d.typeInfo n = none → ∃ searched, loadClass classes d k searched n info.importsTable = some e) :
    Denotes classes d e n path ↔ Agrees classes history own n path := by
  unfold Denotes Agrees
  cases hn : d.typeInfo n with
  | some found =>
    obtain ⟨first, hfirst, hclass⟩ := h.known n found hn
    rw [hfirst]
    dsimp only
    rw [hclass]
    exact eq_comm
  | none =>
    obtain ⟨searched, hload⟩ := hload hn
    have htable : info.importsTable.get n = importedAs history own n := by
      rw [← h.table own n, hown]
      · rfl
      · rintro rfl
        rw [hn] at hown
        cases hown
    rw [h.unknown n hn]
    dsimp only
    have hused : (info.importsTable.get n).getD n = path ↔
        (importedAs history own n).isSome ∨ path = n := by
      rw [htable]
      cases himported : importedAs history own n with
      | none => simpa using eq_comm
      | some path' => simpa using hpath path' himported
    rw [← hused]
    rcases loadClass_cases hload with ⟨code, entry, -, haction, -⟩ | ⟨hnone, haction⟩
    · rw [haction]
      constructor
      · rintro (⟨entry', heq⟩ | ⟨-, heq⟩)
        · cases heq
          rfl
        · cases heq
      · rintro rfl
        exact Or.inl ⟨entry, rfl⟩
    · rw [haction]
      constructor
      · rintro (⟨entry', heq⟩ | ⟨-, heq⟩)
        · cases heq
        · exact String.append_right_inj _ |>.mp (Option.some.inj (Action.exit.inj heq))
      · rintro rfl
        exact Or.inr ⟨hnone, rfl⟩

/-- In every run, a class that imports `n` from nowhere but `path` gets the class at `path` for it just when
the class that used `n` first had the same file for it. -/
theorem name_denotes_import_iff {fuel : ℕ} {program : List ClassDeclaration} {cls : ClassDeclaration}
    {m : Machine α} {thread : ℕ} (hm : History (imagesOf fuel program) m history)
    (_hthread : m.threads[thread]? = some (a :: rest)) (hi : m.fetch a = some i)
    (huse : UsesClass m.data a i n) (hcls : image fuel cls = some (m.data.states a.state).byteStream)
    (hunique : ∀ path', (path', n) ∈ cls.importsMap → path' = path)
    (he : effect (imagesOf fuel program) m.data m.control a rest i = some e) :
    Denotes (imagesOf fuel program) m.data e n path ↔
      Agrees (imagesOf fuel program) history (m.data.states a.state).className n path := by
  have htracked := history_tracked hm
  have hmem := List.mem_of_getElem? hi
  rcases htracked.states a.state with hempty | ⟨info, hown, hstream⟩
  · rw [hempty] at hmem
    cases hmem
  · refine denotes_iff m.control htracked hown (fun path' himported => ?_) fun hnew => ?_
    · obtain ⟨info', hinfo', j, hj, hop, hname, hpath⟩ :=
        htracked.imports _ _ _ (importedAs_mem himported)
      rw [hown] at hinfo'
      obtain rfl := Option.some.inj hinfo'
      rw [hstream] at hj
      have hform := image_form hcls hj (by rw [hop]; rfl)
      apply hunique
      obtain ⟨opcode, r0, r1, r2⟩ := j
      obtain rfl : opcode = .IMPORT_CLS := hop
      cases hform with
      | statement hform => cases statementForm_opcode hform
      | importing hmem =>
        rw [← hname, ← hpath]
        exact hmem
    · obtain ⟨searched, info', hown', hload⟩ := huse.loads hnew he
      rw [hown] at hown'
      obtain rfl := Option.some.inj hown'
      exact ⟨searched, hload⟩

end

def constructed {α : Type} [NumOps α] (d : Data α) (a : Activation) (i : Instruction) : Option String :=
  let r := d.regs a.currentContext i.r0.reg
  match i.opcode, r.type, d.object r with
  | .CALL, .classRef, some (.classRef name) => some name
  | _, _, _ => none

theorem usesClass_of_constructed {α : Type} [NumOps α] {d : Data α} {a : Activation} {i : Instruction}
    {n : String} (h : constructed d a i = some n) : UsesClass d a i n := by
  unfold constructed at h
  dsimp only at h
  split at h
  · rename_i hop htag hobject
    cases h
    exact .construct hop htag hobject
  · cases h

def staticConstructor : Stmt := .function true false false "__static__constructor__" [] []

/-- `import "q" as X; class B { X(); }`. -/
def sampleB : ClassDeclaration :=
  ⟨"B", [], [.eval (.methodCall (.ident "X") []), staticConstructor], [("q", "X")]⟩

/-- `import "p" as X; class Main { X(); B(); }`. -/
def sampleMain : ClassDeclaration :=
  ⟨"Main", [], [.eval (.methodCall (.ident "X") []), .eval (.methodCall (.ident "B") []), staticConstructor],
    [("p", "X")]⟩

def sampleProgram : List ClassDeclaration :=
  [⟨"p", [], [staticConstructor], []⟩, ⟨"q", [], [staticConstructor], []⟩, sampleB, sampleMain]

def sampleUse (cls : ClassDeclaration) (n : ℕ) : Option (String × Option Bool × Option String) := do
  let (m, a, rest, i) ← (runUpTo 3 sampleProgram n : Option (Machine ℚ × _))
  let name ← constructed m.data a i
  let _ ← effect (imagesOf 3 sampleProgram) m.data m.control a rest i
  let code := (m.data.states a.state).byteStream
  if image 3 cls = some code then
    return (name,
      (m.data.typeInfo "X").map fun info => imagesOf 3 sampleProgram "q" == some info.bytecodeStream,
      (m.data.typeInfo (m.data.states a.state).className).bind (·.importsTable.get "X"))
  else none

theorem sampleUse_main : sampleUse sampleMain 7 = some ("X", none, some "p") := by decide +kernel

theorem sampleUse_B : sampleUse sampleB 25 = some ("X", some false, some "q") := by decide +kernel

theorem sampleUse_reached {cls : ClassDeclaration} {n : ℕ} {name : String} {isQ : Option Bool}
    {table : Option String} (h : sampleUse cls n = some (name, isQ, table)) :
    ∃ (m : Machine ℚ) (history : List Event) (a : Activation) (rest : List Activation) (i : Instruction)
      (e : Effect ℚ), History (imagesOf 3 sampleProgram) m history ∧ m.threads[0]? = some (a :: rest) ∧
        m.fetch a = some i ∧ UsesClass m.data a i name ∧
        image 3 cls = some (m.data.states a.state).byteStream ∧
        effect (imagesOf 3 sampleProgram) m.data m.control a rest i = some e ∧
        (m.data.typeInfo "X").map (fun info => imagesOf 3 sampleProgram "q" == some info.bytecodeStream) =
          isQ ∧
        (m.data.typeInfo (m.data.states a.state).className).bind (·.importsTable.get "X") = table := by
  unfold sampleUse at h
  obtain ⟨⟨m, a, rest, i⟩, hstate, h⟩ := Option.bind_eq_some_iff.mp h
  obtain ⟨name', hname, h⟩ := Option.bind_eq_some_iff.mp h
  obtain ⟨e, he, h⟩ := Option.bind_eq_some_iff.mp h
  dsimp only at h
  split at h
  · rename_i hcls
    simp only [Option.pure_def, Option.some.injEq, Prod.mk.injEq] at h
    obtain ⟨rfl, hq, htable⟩ := h
    obtain ⟨hm, hthread, hi⟩ := runUpTo_reachable hstate
    obtain ⟨history, hhistory⟩ := reachable_history hm
    exact ⟨m, history, a, rest, i, e, hhistory, hthread, hi, usesClass_of_constructed hname, hcls, he, hq,
      htable⟩
  · cases h

/-- `B` gets the class that `Main` has imported under the name, which is not the one at its own path. -/
theorem other_import_denoted :
    ∃ (m : Machine ℚ) (history : List Event) (a : Activation) (rest : List Activation) (i : Instruction)
      (e : Effect ℚ), History (imagesOf 3 sampleProgram) m history ∧ m.threads[0]? = some (a :: rest) ∧
        m.fetch a = some i ∧ UsesClass m.data a i "X" ∧
        image 3 sampleB = some (m.data.states a.state).byteStream ∧ ("q", "X") ∈ sampleB.importsMap ∧
        (∀ path', (path', "X") ∈ sampleB.importsMap → path' = "q") ∧
        effect (imagesOf 3 sampleProgram) m.data m.control a rest i = some e ∧
        ¬Denotes (imagesOf 3 sampleProgram) m.data e "X" "q" := by
  obtain ⟨m, history, a, rest, i, e, hm, hthread, hi, huse, hcls, he, hq, -⟩ := sampleUse_reached sampleUse_B
  refine ⟨m, history, a, rest, i, e, hm, hthread, hi, huse, hcls, List.mem_cons_self, fun path' h => ?_, he,
    fun hdenotes => ?_⟩
  · cases List.mem_singleton.mp h
    rfl
  · obtain ⟨info, hinfo, hcode⟩ := Option.map_eq_some_iff.mp hq
    unfold Denotes at hdenotes
    rw [hinfo] at hdenotes
    rw [beq_eq_false_iff_ne] at hcode
    exact hcode hdenotes

theorem own_import_denoted :
    ∃ (m : Machine ℚ) (history : List Event) (a : Activation) (rest : List Activation) (i : Instruction)
      (e : Effect ℚ), History (imagesOf 3 sampleProgram) m history ∧ m.threads[0]? = some (a :: rest) ∧
        m.fetch a = some i ∧ UsesClass m.data a i "X" ∧
        Denotes (imagesOf 3 sampleProgram) m.data e "X" "p" := by
  obtain ⟨m, history, a, rest, i, e, hm, hthread, hi, huse, hcls, he, hq, htable⟩ :=
    sampleUse_reached sampleUse_main
  have hnew : m.data.typeInfo "X" = none := Option.map_eq_none_iff.mp hq
  have htracked := history_tracked hm
  have hne : (m.data.states a.state).className ≠ "X" := by
    intro hsame
    rw [hsame, hnew] at htable
    cases htable
  have hunique : ∀ path', (path', "X") ∈ sampleMain.importsMap → path' = "p" := by
    intro path' h
    cases List.mem_singleton.mp h
    rfl
  have hagrees : Agrees (imagesOf 3 sampleProgram) history (m.data.states a.state).className "X" "p" := by
    unfold Agrees
    rw [htracked.unknown _ hnew, ← htracked.table _ _ hne, htable]
    exact Or.inl rfl
  exact ⟨m, history, a, rest, i, e, hm, hthread, hi, huse,
    (name_denotes_import_iff hm hthread hi huse hcls hunique he).mpr hagrees⟩

end Zeroscript.Imports
