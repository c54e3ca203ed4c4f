import Zeroscript.Number
import Zeroscript.Program

/-! # Private fields

Reads and writes of a field of an instance by code of another class. A read goes through
`interpreter_get_field_virtual`, which gives nothing back for a private field; a write goes through
`interpreter_set_field_virtual`, which raises the exception in the instance's own state and then
stores the value. -/
namespace Zeroscript.Privacy

section

variable {α : Type} [NumOps α]

/-- The register of the object and the name of the field that an instruction accesses. -/
def accessed (d : Data α) (a : Activation) (i : Instruction) : Option (ℕ × String) :=
  match i.opcode with
  | .GET_FIELD_IMMEDIATE => some (i.r0.reg, i.r1.text)
  | .GET_FIELD | .SET_FIELD =>
    (d.fieldName (d.regs a.currentContext i.r1.reg)).map fun name => (i.r0.reg, name)
  | _ => none

/-- The register holds an instance of another class, which has run up to its frame and has the field
`name` at `index`, declared private. -/
structure PrivateTo (d : Data α) (a : Activation) (object : ℕ) (name : String) (target : StateId)
    (index : ℕ) : Prop where
  other : object ≠ 1
  tag : (d.regs a.currentContext object).type ≠ .number
  instance' : d.object (d.regs a.currentContext object) = some (.instanceObject target)
  entered : ((d.contexts (d.states target).rootContext).locals).isSome
  field : ∃ flags, (buildSymbolTable (d.contexts (d.states target).rootContext).symbols).getFlags name =
    some (index, flags) ∧ flags.isPrivate = true
  foreign : (d.states a.state).className ≠ (d.states target).className

/-- The access raises an exception in the accessing frame, and the field is as it was. -/
def Refused (classes : String → Option Code) (d : Data α) (k : ControlState) (a : Activation)
    (rest : List Activation) (i : Instruction) (target : StateId) (index : ℕ) : Prop :=
  ∃ e message, effect classes d k a rest i = some e ∧ e.action = .raise message ∧
    e.data.regs (d.states target).rootContext index = d.regs (d.states target).rootContext index

variable {classes : String → Option Code} {d : Data α} {k : ControlState} {a : Activation}
  {rest : List Activation} {i : Instruction} {object index : ℕ} {name : String} {target : StateId}

theorem PrivateTo.address (h : PrivateTo d a object name target index) :
    ∃ address, (d.regs a.currentContext object).val = .raw address := by
  have hobject := h.instance'
  unfold Data.object at hobject
  split at hobject
  · exact ⟨_, ‹_›⟩
  · cases hobject

theorem getFieldVirtual_private (h : PrivateTo d a object name target index) :
    d.getFieldVirtual target a.state name = some none := by
  obtain ⟨flags, hfield, hprivate⟩ := h.field
  obtain ⟨regs, hentered⟩ := Option.isSome_iff_exists.mp h.entered
  have hfound : d.findField name ((d.states target).rootContext + 1) (d.states target).rootContext =
      some (some (regs index, flags)) := by
    rw [Data.findField]
    simp only [hentered, hfield]
  unfold Data.getFieldVirtual
  simp only [hfound, hprivate, h.foreign, Option.bind_eq_bind, Option.bind_some, ne_eq,
    not_false_eq_true, and_self, if_true, Option.pure_def]

theorem getField_private (h : PrivateTo d a object name target index)
    (hname : nativeFunctions.lookup name = none) (register : ℕ) :
    ∃ address, getField classes d k a object name register =
      some ⟨d, address, .raise "cannot read property on object"⟩ := by
  obtain ⟨address, hval⟩ := h.address
  have htag := h.tag
  refine ⟨address, ?_⟩
  unfold getField
  simp only [hname, h.other, if_false]
  cases htype : (d.regs a.currentContext object).type with
  | number => exact absurd htype htag
  | str | functionRef | obj | nativeFunc | instanceObj | classRef =>
    simp only [hval, h.instance', getFieldVirtual_private h, Option.bind_eq_bind, Option.bind_some]
    rfl

/-- A read that a native function hides gives the native function. -/
theorem getField_native {f : Native} (hname : nativeFunctions.lookup name = some f)
    (register : ℕ) :
    getField classes d k a object name register =
      some (d.deliverTo a register ⟨.nativeFunc, .native f⟩) := by
  unfold getField
  rw [hname]

/-- A write never raises in the accessing frame. -/
theorem setField_private (h : PrivateTo d a object name target index) {value : Reg α} {e : Effect α}
    (he : setField classes d k a object name value = some e) :
    e.action = .reject target none ∧
      e.data.regs (d.states target).rootContext index = value := by
  obtain ⟨address, hval⟩ := h.address
  obtain ⟨flags, hfield, hprivate⟩ := h.field
  have htag := h.tag
  have hentered : ((d.contexts (d.states target).rootContext).locals).isNone = false := by
    rw [← Option.not_isSome, h.entered]
    rfl
  have hrefused : setFieldVirtual d k a address target name value = some e := by
    unfold setField at he
    simp only [h.other, if_false] at he
    cases htype : (d.regs a.currentContext object).type with
    | number => exact absurd htype htag
    | str | functionRef | obj | nativeFunc | instanceObj | classRef =>
      simp only [htype, hval, h.instance', Option.bind_eq_bind, Option.bind_some] at he
      exact he
  unfold setFieldVirtual at hrefused
  simp only [hentered, hfield, hprivate, h.foreign, Bool.false_eq_true, if_false, ne_eq,
    not_false_eq_true, and_self, if_true] at hrefused
  obtain ⟨refused, -, hx⟩ := Option.bind_eq_some_iff.mp hrefused
  cases hx
  exact ⟨rfl, by simp⟩

theorem refused_iff (hi : accessed d a i = some (object, name))
    (h : PrivateTo d a object name target index) :
    Refused classes d k a rest i target index ↔
      i.opcode ≠ .SET_FIELD ∧ nativeFunctions.lookup name = none := by
  obtain ⟨opcode, r0, r1, r2⟩ := i
  have hread : ∀ register, effect classes d k a rest ⟨opcode, r0, r1, r2⟩ =
      getField classes d k a object name register →
      (Refused classes d k a rest ⟨opcode, r0, r1, r2⟩ target index ↔
        nativeFunctions.lookup name = none) := by
    intro register heffect
    unfold Refused
    rw [heffect]
    constructor
    · rintro ⟨e, message, he, hraise, -⟩
      cases hname : nativeFunctions.lookup name with
      | none => rfl
      | some f =>
        rw [getField_native hname] at he
        cases he
        cases hraise
    · intro hname
      obtain ⟨address, hget⟩ := @getField_private _ _ classes d k a object index name target h hname register
      exact ⟨_, _, hget, rfl, rfl⟩
  cases opcode <;> simp only [accessed, Option.map_eq_some_iff, Option.some.injEq, Prod.mk.injEq, reduceCtorEq] at hi
  case GET_FIELD_IMMEDIATE =>
    obtain ⟨rfl, rfl⟩ := hi
    simpa using hread r2.reg rfl
  case GET_FIELD =>
    obtain ⟨name', hname, rfl, rfl⟩ := hi
    refine (hread r2.reg ?_).trans (by simp)
    simp only [effect, execLocal, Opcode.jumpRel, Opcode.immediateRel, arithmetic, Opcode.compareRel,
      Option.map_none, effectOther, hname, Option.bind_eq_bind, Option.bind_some]
  case SET_FIELD =>
    obtain ⟨name', hname, rfl, rfl⟩ := hi
    refine iff_of_false ?_ fun hc => hc.1 rfl
    rintro ⟨e, message, he, hraise, -⟩
    simp only [effect, execLocal, Opcode.jumpRel, Opcode.immediateRel, arithmetic, Opcode.compareRel,
      Option.map_none, effectOther, hname, Option.bind_eq_bind, Option.bind_some] at he
    rw [(setField_private h he).1] at hraise
    cases hraise

def isPrivateTo (d : Data α) (a : Activation) (object : ℕ) (name : String) (target : StateId)
    (index : ℕ) : Bool :=
  let r := d.regs a.currentContext object
  let context := d.contexts (d.states target).rootContext
  object != 1 && r.type != .number && (match d.object r with
    | some (.instanceObject s) => s == target
    | _ => false) && context.locals.isSome &&
  (match (buildSymbolTable context.symbols).getFlags name with
    | some (i, flags) => i == index && flags.isPrivate
    | none => false) && (d.states a.state).className != (d.states target).className

theorem privateTo_of_check (h : isPrivateTo d a object name target index = true) :
    PrivateTo d a object name target index := by
  unfold isPrivateTo at h
  simp only [Bool.and_eq_true, bne_iff_ne, ne_eq] at h
  obtain ⟨⟨⟨⟨⟨hother, htag⟩, hobject⟩, hentered⟩, hfield⟩, hforeign⟩ := h
  refine ⟨hother, htag, ?_, hentered, ?_, hforeign⟩
  · split at hobject
    · rename_i s hs
      rw [hs, beq_iff_eq.mp hobject]
    · cases hobject
  · split at hfield
    · rename_i i flags hflags
      rw [Bool.and_eq_true, beq_iff_eq] at hfield
      exact ⟨flags, by rw [hflags, hfield.1], hfield.2⟩
    · cases hfield

end

/-- `class Safe { private var secret = 1; }` and `class Main { var o = new Safe(); … }`. -/
def sampleProgram (access : Stmt) : List ClassDeclaration :=
  let constructor : Stmt := .function true false false "__static__constructor__" [] []
  [⟨"Safe", [], [.var "secret" (.num "1") true false, constructor], []⟩,
    ⟨"Main", [], [.var "o" (.methodCall (.ident "Safe") []) false false, access, constructor], []⟩]

def sampleRun (access : Stmt) (steps : ℕ) : Option (Machine ℚ) := do
  let classes := imagesOf 3 (sampleProgram access)
  (← boot "Main" (← classes "Main") []).run classes (List.replicate steps 0)

theorem sampleRun_reachable {access : Stmt} {steps : ℕ} {m : Machine ℚ}
    (h : sampleRun access steps = some m) : m.Reachable (imagesOf 3 (sampleProgram access)) := by
  unfold sampleRun at h
  obtain ⟨code, hcode, hrest⟩ := Option.bind_eq_some_iff.mp h
  obtain ⟨m₀, hboot, hrun⟩ := Option.bind_eq_some_iff.mp hrest
  exact ⟨"Main", code, [], m₀, hcode, hboot, Machine.run_path hrun⟩

def sampleAccess (access : Stmt) (steps : ℕ) : Option (Instruction × Option (ℕ × String) × Bool) := do
  let m ← sampleRun access steps
  let a ← (← m.threads[0]?).head?
  let i ← m.fetch a
  return (i, accessed m.data a i, isPrivateTo m.data a 2 "secret" 3 2)

theorem sampleAccess_reached {access : Stmt} {steps : ℕ} {i : Instruction} {x : Option (ℕ × String)}
    (h : sampleAccess access steps = some (i, x, true)) :
    ∃ m a rest, sampleRun access steps = some m ∧ m.threads[0]? = some (a :: rest) ∧
      m.fetch a = some i ∧ accessed m.data a i = x ∧ PrivateTo m.data a 2 "secret" 3 2 := by
  unfold sampleAccess at h
  obtain ⟨m, hm, h⟩ := Option.bind_eq_some_iff.mp h
  obtain ⟨activations, hthread, h⟩ := Option.bind_eq_some_iff.mp h
  obtain ⟨a, hhead, h⟩ := Option.bind_eq_some_iff.mp h
  obtain ⟨i', hi, h⟩ := Option.bind_eq_some_iff.mp h
  simp only [Option.pure_def, Option.some.injEq, Prod.mk.injEq] at h
  obtain ⟨rfl, rfl, hcheck⟩ := h
  obtain ⟨rest, rfl⟩ := List.head?_eq_some_iff.mp hhead
  exact ⟨m, a, rest, hm, hthread, hi, rfl, privateTo_of_check hcheck⟩

def readSecret : Stmt := .eval (.binary .dot (.ident "o") (.str "secret"))

def writeSecret : Stmt := .eval (.binary .assign (.binary .dot (.ident "o") (.str "secret")) (.num "5"))

theorem readSecret_access :
    sampleAccess readSecret 16 =
      some (⟨.GET_FIELD, .num 2, .num 4, .num 5⟩, some (2, "secret"), true) := by
  decide +kernel

theorem writeSecret_access :
    sampleAccess writeSecret 17 =
      some (⟨.SET_FIELD, .num 2, .num 5, .num 4⟩, some (2, "secret"), true) := by
  decide +kernel

/-- In every run, an access by code of another class to a private field of an instance leaves the
field alone and raises in the accessing frame just when it is a read and the name is no native
function's. -/
theorem private_access_refused_iff {α : Type} [NumOps α] {classes : String → Option Code}
    {a : Activation} {rest : List Activation} {i : Instruction} {object index : ℕ} {name : String}
    {target : StateId} {m : Machine α} {thread : ℕ} (_hm : m.Reachable classes)
    (_ht : m.threads[thread]? = some (a :: rest)) (_hi : m.fetch a = some i)
    (haccess : accessed m.data a i = some (object, name))
    (h : PrivateTo m.data a object name target index) :
    Refused classes m.data m.control a rest i target index ↔
      i.opcode ≠ .SET_FIELD ∧ nativeFunctions.lookup name = none :=
  refused_iff haccess h

theorem private_read_refused :
    ∃ (m : Machine ℚ) (a : Activation) (rest : List Activation) (i : Instruction),
      accessed m.data a i = some (2, "secret") ∧ PrivateTo m.data a 2 "secret" 3 2 ∧
        Refused (imagesOf 3 (sampleProgram readSecret)) m.data m.control a rest i 3 2 := by
  obtain ⟨m, a, rest, hm, hthread, hi, haccess, hprivate⟩ := sampleAccess_reached readSecret_access
  have hiff := private_access_refused_iff (sampleRun_reachable hm) hthread hi haccess hprivate
  exact ⟨m, a, rest, _, haccess, hprivate, hiff.mpr ⟨by decide, by decide⟩⟩

/-- The write from `Main` does not raise there, and the field of `Safe` holds 5 afterwards. -/
theorem private_write_stored :
    ∃ (m : Machine ℚ) (a : Activation) (rest : List Activation) (i : Instruction),
      m.Reachable (imagesOf 3 (sampleProgram writeSecret)) ∧ m.threads[0]? = some (a :: rest) ∧
        m.fetch a = some i ∧ accessed m.data a i = some (2, "secret") ∧
        PrivateTo m.data a 2 "secret" 3 2 ∧
        ¬Refused (imagesOf 3 (sampleProgram writeSecret)) m.data m.control a rest i 3 2 ∧
        m.data.regs (m.data.states 3).rootContext 2 = Reg.ofNum 1 ∧
        (sampleRun writeSecret 18).map (fun m => m.data.regs (m.data.states 3).rootContext 2) =
          some (Reg.ofNum 5) := by
  obtain ⟨m, a, rest, hm, hthread, hi, haccess, hprivate⟩ := sampleAccess_reached writeSecret_access
  refine ⟨m, a, rest, _, sampleRun_reachable hm, hthread, hi, haccess, hprivate, ?_, ?_, ?_⟩
  · rw [refused_iff haccess hprivate]
    exact fun h => h.1 rfl
  · have hfield : (sampleRun writeSecret 17).map
        (fun m => m.data.regs (m.data.states 3).rootContext 2) = some (Reg.ofNum 1) := by
      decide +kernel
    rw [hm] at hfield
    exact Option.some.inj hfield
  · decide +kernel

end Zeroscript.Privacy
