import Zeroscript.Locations
import Zeroscript.Number

/-! # Names, fields and assignments

`x` without a register and `this.x` are the same accesses: the name is looked up on register 1. Whether
reading and assigning reach one location depends on the scopes around the frame. -/
namespace Zeroscript

section

variable {α : Type} [NumOps α]

def ReadsName (d : Data α) (a : Activation) (i : Instruction) (name : String) : Prop :=
  i.r0.reg = 1 ∧ (i.opcode = .GET_FIELD_IMMEDIATE ∧ i.r1.text = name ∨
    i.opcode = .GET_FIELD ∧ d.fieldName (d.regs a.currentContext i.r1.reg) = some name)

def WritesName (d : Data α) (a : Activation) (i : Instruction) (name : String) : Prop :=
  i.r0.reg = 1 ∧ i.opcode = .SET_FIELD ∧ d.fieldName (d.regs a.currentContext i.r1.reg) = some name

/-- Reading the name and assigning to it are accesses to one location, and to no other. -/
structure Accesses (classes : String → Option Code) (d : Data α) (k : ControlState) (a : Activation)
    (name : String) (l : Location) : Prop where
  readsFrom : d.readLocation a name = some (some l)
  writesTo : d.writeLocation a name = some l
  read : ∃ v, d.content l = some v ∧ ∀ (rest : List Activation) (i : Instruction), ReadsName d a i name →
    effect classes d k a rest i = some (d.deliverTo a i.r2.reg v)
  write : ∀ (rest : List Activation) (i : Instruction), WritesName d a i name →
    effect classes d k a rest i =
      some ⟨d.write l (d.regs a.currentContext i.r2.reg), a.objectToSearchOn, .next⟩
  written : ∀ v, (d.write l v).content l = some v
  unchanged : ∀ (v : Reg α) (l' : Location), l' ≠ l → (d.write l v).content l' = d.content l'

variable {classes : String → Option Code} {d : Data α} {k : ControlState} {a : Activation}
  {i : Instruction} {name : String} {l : Location} {rest : List Activation}

theorem ReadsName.effect_eq (h : ReadsName d a i name) :
    effect classes d k a rest i = getField classes d k a 1 name i.r2.reg := by
  obtain ⟨opcode, r0, r1, r2⟩ := i
  obtain ⟨hthis, ⟨hi, hname⟩ | ⟨hi, hname⟩⟩ := h
  · obtain rfl : opcode = .GET_FIELD_IMMEDIATE := hi
    change getField classes d k a r0.reg r1.text r2.reg = _
    dsimp only at hthis hname
    rw [hthis, hname]
  · obtain rfl : opcode = .GET_FIELD := hi
    dsimp only at hthis hname
    change (d.fieldName (d.regs a.currentContext r1.reg)).bind (getField classes d k a r0.reg · r2.reg) = _
    rw [hthis, hname]
    rfl

theorem WritesName.effect_eq (h : WritesName d a i name) :
    effect classes d k a rest i =
      setField classes d k a 1 name (d.regs a.currentContext i.r2.reg) := by
  obtain ⟨opcode, r0, r1, r2⟩ := i
  obtain ⟨hthis, hi, hname⟩ := h
  obtain rfl : opcode = .SET_FIELD := hi
  dsimp only at hthis hname
  change (d.fieldName (d.regs a.currentContext r1.reg)).bind
    (setField classes d k a r0.reg · (d.regs a.currentContext r2.reg)) = _
  rw [hthis, hname]
  rfl

theorem content_write_searched (hd : Sharing d) (h : d.writeLocation a name = some l) (v : Reg α) :
    (d.write l v).content l = some v := by
  unfold Data.writeLocation at h
  obtain ⟨slot, -, h⟩ := Option.bind_eq_some_iff.mp h
  cases slot with
  | some slot =>
    cases h
    exact content_write_slot d _ _ _
  | none =>
    cases h
    exact content_write_shared hd a.state name v

theorem accesses_of_search (hd : Sharing d) (hread : d.readLocation a name = some (some l))
    (hwrite : d.writeLocation a name = some l) : Accesses classes d k a name l := by
  refine ⟨hread, hwrite, ?_, fun rest i hi => ?_, content_write_searched hd hwrite, fun v l' => content_write_of_ne d v⟩
  · obtain ⟨v, hv, hget⟩ : ∃ v, d.content l = some v ∧ ∀ register,
        getField classes d k a 1 name register = some (d.deliverTo a register v) :=
      getField_location hread
    refine ⟨v, hv, fun rest i hi => ?_⟩
    rw [hi.effect_eq, hget]
  · rw [hi.effect_eq]
    exact setField_location hwrite _

section

variable {m : Machine α} (hm : m.Reachable classes) (ha : a ∈ m.activations)

include hm ha

theorem reachable_current_lt : a.currentContext < m.control.nextContext :=
  (reachable_linked hm).context_lt (a.state, a.currentContext) (List.mem_map_of_mem ha)

/-- An assignment reaches the location that a read resolves to just when the name is not a native
function, and is declared around the frame or a synchronized variable already. -/
theorem assignment_reaches_read_location_iff :
    (∃ l, Accesses classes m.data m.control a name l) ↔
      nativeFunctions.lookup name = none ∧
        ((∃ c, Encloses m.data a.currentContext c ∧ Declares m.data c name) ∨
          ((m.data.sharedOf a.state).get name).isSome) := by
  have hscoping := reachable_scoping hm
  have hsharing := reachable_sharing hm
  have hcurrent := reachable_current_lt hm ha
  have hcases : (∃ c index, Innermost m.data name a.currentContext c index ∧
      m.data.writeLocation a name = some (.slot c index)) ∨
      (∀ c, Encloses m.data a.currentContext c → ¬Declares m.data c name) ∧
        m.data.writeLocation a name =
          some (.synchronized (m.data.states a.state).synchronizedVariables name) :=
    writeLocation_cases hscoping hcurrent
  constructor
  · rintro ⟨l, hl⟩
    have hread := hl.readsFrom
    have hnative : nativeFunctions.lookup name = none := by
      unfold Data.readLocation at hread
      split at hread
      · cases hread
      · assumption
    refine ⟨hnative, ?_⟩
    rcases hcases with ⟨c, index, h, -⟩ | ⟨hnone, hwrite⟩
    · left
      refine ⟨c, h.encloses, ?_⟩
      unfold Declares
      rw [h.slot]
      rfl
    · right
      rw [hl.writesTo] at hwrite
      cases hwrite
      exact (readLocation_shared_iff hscoping hcurrent hnone hnative).mp hread
  · rintro ⟨hnative, hdeclared⟩
    rcases hcases with ⟨c, index, h, hwrite⟩ | ⟨hnone, hwrite⟩
    · exact ⟨_, accesses_of_search hsharing (readLocation_slot hscoping hcurrent hnative h) hwrite⟩
    · rcases hdeclared with ⟨c, hencloses, hdeclares⟩ | hshared
      · exact absurd hdeclares (hnone c hencloses)
      · have hread := (readLocation_shared_iff hscoping hcurrent hnone hnative).mpr hshared
        exact ⟨_, accesses_of_search hsharing hread hwrite⟩

end

/-- The frame is one of a method of the instance of a state: its outermost scope is the instance's
root context. -/
structure RunsMethodOf (d : Data α) (a : Activation) (s : StateId) : Prop where
  encloses : Encloses d a.currentContext (d.states s).rootContext
  outermost : (d.contexts (d.states s).rootContext).parentContext = 0

omit [NumOps α] in
theorem Innermost.only {c c' r : ContextId} {index : ℕ} (h : Innermost d name c r index)
    (hparent : (d.contexts r).parentContext = 0) (hc : Encloses d c c') (hdeclares : Declares d c' name) :
    c' = r := by
  induction h with
  | here hne hslot =>
    cases hc with
    | self => rfl
    | outer _ hc =>
      rw [hparent] at hc
      cases hc with
      | self hzero => exact absurd rfl hzero
      | outer hzero _ => exact absurd rfl hzero
  | outer hne hslot h ih =>
    cases hc with
    | self =>
      unfold Declares at hdeclares
      rw [hslot] at hdeclares
      cases hdeclares
    | outer _ hc => exact ih hparent hc

section

variable {m : Machine α} (hm : m.Reachable classes) (ha : a ∈ m.activations)

include hm ha

/-- `this.f` is field `f` of the instance just when no native function has its name and no scope of the
method, up to the instance, declares it. -/
theorem this_reaches_field_iff {s : StateId} {index : ℕ} (hmethod : RunsMethodOf m.data a s)
    (hfield : m.data.slotOf (m.data.states s).rootContext name = some index) :
    Accesses classes m.data m.control a name (.slot (m.data.states s).rootContext index) ↔
      nativeFunctions.lookup name = none ∧
        ∀ c, Encloses m.data a.currentContext c → Declares m.data c name →
          c = (m.data.states s).rootContext := by
  have hscoping := reachable_scoping hm
  have hcurrent := reachable_current_lt hm ha
  constructor
  · intro h
    have hread := h.readsFrom
    have hnative : nativeFunctions.lookup name = none := by
      unfold Data.readLocation at hread
      split at hread
      · cases hread
      · assumption
    refine ⟨hnative, fun c hc hdeclares => ?_⟩
    have hcases : (∃ c index, Innermost m.data name a.currentContext c index ∧
        m.data.writeLocation a name = some (.slot c index)) ∨
        (∀ c, Encloses m.data a.currentContext c → ¬Declares m.data c name) ∧
          m.data.writeLocation a name =
            some (.synchronized (m.data.states a.state).synchronizedVariables name) :=
      writeLocation_cases hscoping hcurrent
    rcases hcases with ⟨c', index', hinner, hwrite⟩ | ⟨hnone, -⟩
    · rw [h.writesTo] at hwrite
      cases hwrite
      exact hinner.only hmethod.outermost hc hdeclares
    · exact absurd hdeclares (hnone c hc)
  · rintro ⟨hnative, honly⟩
    have hinner := hmethod.encloses.innermost hfield honly
    refine accesses_of_search (reachable_sharing hm)
      (readLocation_slot hscoping hcurrent hnative hinner) ?_
    unfold Data.writeLocation
    rw [findSlot_innermost hscoping hcurrent (Nat.lt_succ_self _) hinner]
    rfl

end

end

namespace Assignments

theorem runUpTo_activation {program : List ClassDeclaration} {n : ℕ} {m : Machine ℚ} {a : Activation}
    {rest : List Activation} {i : Instruction} (h : runUpTo 3 program n = some (m, a, rest, i)) :
    m.Reachable (imagesOf 3 program) ∧ a ∈ m.activations ∧ m.fetch a = some i := by
  obtain ⟨hm, hthread, hi⟩ := runUpTo_reachable h
  exact ⟨hm, List.mem_flatten.mpr ⟨_, List.mem_of_getElem? hthread, List.mem_cons_self⟩, hi⟩

/-- `class Main { static var s = 1; s = 2; }`. -/
def staticProgram : List ClassDeclaration :=
  [⟨"Main", [], [.eval (.binary .assign (.ident "s") (.num "2")),
    .function true false false "__static__constructor__" []
      [.eval (.binary .assign (.binary .dot (.ident "__static__") (.str "s")) (.num "1"))]], []⟩]

/-- `s = 2` is about to be done: reading `s` gives the static variable, but a synchronized variable is
made. -/
theorem static_variable_not_assigned :
    ∃ (m : Machine ℚ) (a : Activation) (i : Instruction),
      m.Reachable (imagesOf 3 staticProgram) ∧ a ∈ m.activations ∧ m.fetch a = some i ∧
        WritesName m.data a i "s" ∧ m.data.readLocation a "s" = some (some (.static "Main" "s")) ∧
        m.data.writeLocation a "s" = some (.synchronized 0 "s") ∧
        ¬∃ l, Accesses (imagesOf 3 staticProgram) m.data m.control a "s" l := by
  have hrun : (runUpTo 3 staticProgram 11 : Option (Machine ℚ × _)).any (fun x => decide ((x.2.2.2.r0.reg = 1 ∧
      x.2.2.2.opcode = .SET_FIELD ∧
      x.1.data.fieldName (x.1.data.regs x.2.1.currentContext x.2.2.2.r1.reg) = some "s") ∧
      x.1.data.readLocation x.2.1 "s" = some (some (.static "Main" "s")) ∧
      x.1.data.writeLocation x.2.1 "s" = some (.synchronized 0 "s"))) = true := by decide +kernel
  obtain ⟨⟨m, a, rest, i⟩, hstate, hdecided⟩ := (Option.any_eq_true _ _).mp hrun
  obtain ⟨hwrites, hread, hwrite⟩ := of_decide_eq_true hdecided
  obtain ⟨hm, ha, hi⟩ := runUpTo_activation hstate
  refine ⟨m, a, i, hm, ha, hi, hwrites, hread, hwrite, ?_⟩
  rintro ⟨l, hl⟩
  have hstatic := hl.readsFrom.symm.trans hread
  have hshared := hl.writesTo.symm.trans hwrite
  cases hshared
  cases hstatic

/-- After the assignment `s` is a synchronized variable, and is read and assigned in one place. -/
theorem synchronized_variable_assigned :
    ∃ (m : Machine ℚ) (a : Activation), m.Reachable (imagesOf 3 staticProgram) ∧ a ∈ m.activations ∧
      ∃ l, Accesses (imagesOf 3 staticProgram) m.data m.control a "s" l := by
  have hrun : (runUpTo 3 staticProgram 12 : Option (Machine ℚ × _)).any (fun x =>
      ((x.1.data.sharedOf x.2.1.state).get "s").isSome) = true := by decide +kernel
  obtain ⟨⟨m, a, rest, i⟩, hstate, hshared⟩ := (Option.any_eq_true _ _).mp hrun
  obtain ⟨hm, ha, -⟩ := runUpTo_activation hstate
  exact ⟨m, a, hm, ha, (assignment_reaches_read_location_iff hm ha).mpr ⟨by decide, Or.inr hshared⟩⟩

/-- `class Main { var x = 1; fun f(x) { return this.x; } f(2); }`. -/
def shadowProgram : List ClassDeclaration :=
  [⟨"Main", [], [.var "x" (.num "1") false false,
    .function false false false "f" ["x"] [.ret (.binary .dot (.ident "this") (.str "x"))],
    .eval (.methodCall (.ident "f") [.num "2"]),
    .function true false false "__static__constructor__" [] []], []⟩]

theorem runsMethodOf_of_parent {d : Data ℚ} {a : Activation} {s : StateId}
    (h : a.currentContext ≠ 0 ∧ (d.states s).rootContext ≠ 0 ∧
      (d.contexts a.currentContext).parentContext = (d.states s).rootContext ∧
      (d.contexts (d.states s).rootContext).parentContext = 0) : RunsMethodOf d a s := by
  obtain ⟨hcurrent, hroot, hparent, houter⟩ := h
  refine ⟨.outer hcurrent ?_, houter⟩
  rw [hparent]
  exact .self hroot

/-- `this.x` in `f` is about to give the parameter, and not the field. -/
theorem this_field_shadowed :
    ∃ (m : Machine ℚ) (a : Activation) (i : Instruction),
      m.Reachable (imagesOf 3 shadowProgram) ∧ a ∈ m.activations ∧ m.fetch a = some i ∧
        RunsMethodOf m.data a 0 ∧ m.data.slotOf (m.data.states 0).rootContext "x" = some 2 ∧
        ReadsName m.data a i "x" ∧
        m.data.readLocation a "x" = some (some (.slot a.currentContext 3)) ∧
        ¬Accesses (imagesOf 3 shadowProgram) m.data m.control a "x"
          (.slot (m.data.states 0).rootContext 2) := by
  have hrun : (runUpTo 3 shadowProgram 12 : Option (Machine ℚ × _)).any (fun x => decide (
      (x.2.1.currentContext ≠ 0 ∧ (x.1.data.states 0).rootContext ≠ 0 ∧
        (x.1.data.contexts x.2.1.currentContext).parentContext = (x.1.data.states 0).rootContext ∧
        (x.1.data.contexts (x.1.data.states 0).rootContext).parentContext = 0) ∧
      x.1.data.slotOf (x.1.data.states 0).rootContext "x" = some 2 ∧
      (x.2.2.2.r0.reg = 1 ∧ x.2.2.2.opcode = .GET_FIELD ∧
        x.1.data.fieldName (x.1.data.regs x.2.1.currentContext x.2.2.2.r1.reg) = some "x") ∧
      x.1.data.readLocation x.2.1 "x" = some (some (.slot x.2.1.currentContext 3)))) = true := by
    decide +kernel
  obtain ⟨⟨m, a, rest, i⟩, hstate, hdecided⟩ := (Option.any_eq_true _ _).mp hrun
  obtain ⟨hmethod, hfield, ⟨hthis, hget, hname⟩, hread⟩ := of_decide_eq_true hdecided
  obtain ⟨hm, ha, hi⟩ := runUpTo_activation hstate
  refine ⟨m, a, i, hm, ha, hi, runsMethodOf_of_parent hmethod, hfield, ⟨hthis, Or.inr ⟨hget, hname⟩⟩,
    hread, fun h => ?_⟩
  have hslot := Option.some.inj (Option.some.inj (h.readsFrom.symm.trans hread))
  exact absurd (Location.slot.inj hslot).2 (by decide)

/-- In the body of the class `x` is the field. -/
theorem field_reached :
    ∃ (m : Machine ℚ) (a : Activation), m.Reachable (imagesOf 3 shadowProgram) ∧ a ∈ m.activations ∧
      Accesses (imagesOf 3 shadowProgram) m.data m.control a "x"
        (.slot (m.data.states 0).rootContext 2) := by
  have hrun : (runUpTo 3 shadowProgram 9 : Option (Machine ℚ × _)).any (fun x => decide (
      x.2.1.currentContext = 1 ∧ (x.1.data.states 0).rootContext = 1 ∧
        (x.1.data.contexts 1).parentContext = 0 ∧ x.1.data.slotOf 1 "x" = some 2)) = true := by
    decide +kernel
  obtain ⟨⟨m, a, rest, i⟩, hstate, hdecided⟩ := (Option.any_eq_true _ _).mp hrun
  obtain ⟨hcurrent, hroot, hparent, hfield⟩ := of_decide_eq_true hdecided
  obtain ⟨hm, ha, -⟩ := runUpTo_activation hstate
  have hmethod : RunsMethodOf m.data a 0 := by
    refine ⟨?_, by rw [hroot]; exact hparent⟩
    rw [hcurrent, hroot]
    exact .self Nat.one_ne_zero
  refine ⟨m, a, hm, ha, (this_reaches_field_iff hm ha hmethod (by rw [hroot]; exact hfield)).mpr
    ⟨by decide, fun c hc _ => ?_⟩⟩
  rw [hcurrent] at hc
  rw [hroot]
  cases hc with
  | self => rfl
  | outer _ hc =>
    rw [hparent] at hc
    cases hc with
    | self hzero => exact absurd rfl hzero
    | outer hzero _ => exact absurd rfl hzero

end Assignments

end Zeroscript
