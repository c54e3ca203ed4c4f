import Zeroscript.Edits
import Zeroscript.Scopes

/-! # Where names are stored

A name that is not a register is looked up at run time, and `this.f` is looked up like the name `f`.
Reading and writing are two searches; each ends at a location, or at none. -/
namespace Zeroscript

section

variable {α : Type}

/-- `c'` is the scope `c` or one around it. -/
inductive Encloses (d : Data α) : ContextId → ContextId → Prop where
  | self {c : ContextId} (hc : c ≠ 0) : Encloses d c c
  | outer {c c' : ContextId} (hc : c ≠ 0) (h : Encloses d (d.contexts c).parentContext c') : Encloses d c c'

def Data.slotOf (d : Data α) (c : ContextId) (name : String) : Option ℕ :=
  (buildSymbolTable (d.contexts c).symbols).get name

def Declares (d : Data α) (c : ContextId) (name : String) : Prop := (d.slotOf c name).isSome

/-- The innermost scope around `c` that declares the name, and the slot there. -/
inductive Innermost (d : Data α) (name : String) : ContextId → ContextId → ℕ → Prop where
  | here {c : ContextId} {index : ℕ} (hc : c ≠ 0) (hslot : d.slotOf c name = some index) :
      Innermost d name c c index
  | outer {c c' : ContextId} {index : ℕ} (hc : c ≠ 0) (hslot : d.slotOf c name = none)
      (h : Innermost d name (d.contexts c).parentContext c' index) : Innermost d name c c' index

variable {d : Data α} {name : String} {c c' : ContextId} {index : ℕ}

theorem Innermost.encloses (h : Innermost d name c c' index) : Encloses d c c' := by
  induction h with
  | here hc hslot => exact .self hc
  | outer hc hslot h ih => exact .outer hc ih

theorem Innermost.slot (h : Innermost d name c c' index) : d.slotOf c' name = some index := by
  induction h with
  | here hc hslot => exact hslot
  | outer hc hslot h ih => exact ih

theorem Innermost.unique {c'' : ContextId} {index' : ℕ} (h : Innermost d name c c' index)
    (h' : Innermost d name c c'' index') : c' = c'' ∧ index = index' := by
  induction h with
  | here hc hslot =>
    cases h' with
    | here hc' hslot' =>
      rw [hslot] at hslot'
      cases hslot'
      exact ⟨rfl, rfl⟩
    | outer hc' hslot' h' =>
      rw [hslot] at hslot'
      cases hslot'
  | outer hc hslot h ih =>
    cases h' with
    | here hc' hslot' =>
      rw [hslot] at hslot'
      cases hslot'
    | outer hc' hslot' h' => exact ih h'

/-- The first declaration is in a scope if that is the only one that declares the name. -/
theorem Encloses.innermost (h : Encloses d c c') (hslot : d.slotOf c' name = some index)
    (honly : ∀ c'', Encloses d c c'' → Declares d c'' name → c'' = c') : Innermost d name c c' index := by
  induction h with
  | self hc => exact .here hc hslot
  | @outer c c' hc h ih =>
    by_cases heq : c = c'
    · subst heq
      exact .here hc hslot
    · have hnone : d.slotOf c name = none := by
        rw [← Option.not_isSome_iff_eq_none]
        exact fun hsome => heq (honly c (.self hc) hsome)
      exact .outer hc hnone (ih hslot fun c'' h'' => honly c'' (.outer hc h''))

section

variable {m : Machine α} (hm : Scoping m)

include hm

theorem findSlot_some {bound : ℕ} (hc : c < m.control.nextContext) (hbound : c < bound) :
    (∃ c' index, m.data.findSlot name bound c = some (some (c', index)) ∧
      Innermost m.data name c c' index) ∨
    m.data.findSlot name bound c = some none ∧ ∀ c', Encloses m.data c c' → ¬Declares m.data c' name := by
  induction bound generalizing c with
  | zero => exact absurd hbound (Nat.not_lt_zero c)
  | succ bound ih =>
    rw [Data.findSlot]
    by_cases hzero : c = 0
    · rw [if_pos hzero]
      refine Or.inr ⟨rfl, fun c' h => ?_⟩
      cases h with
      | self hc => exact absurd hzero hc
      | outer hc h => exact absurd hzero hc
    · rw [if_neg hzero]
      have hentered : ((m.data.contexts c).locals).isNone = false := by
        rw [Option.isNone_eq_false_iff]
        exact hm.locals c hzero hc
      have holder := hm.older c hzero hc
      dsimp only
      rw [hentered, if_neg Bool.false_ne_true]
      cases hslot : (buildSymbolTable (m.data.contexts c).symbols).get name with
      | some index => exact Or.inl ⟨c, index, rfl, .here hzero hslot⟩
      | none =>
        dsimp only
        rcases ih (Nat.lt_trans holder hc)
          (Nat.lt_of_lt_of_le holder (Nat.le_of_lt_succ hbound)) with ⟨c', index, hfind, h⟩ | ⟨hfind, h⟩
        · exact Or.inl ⟨c', index, hfind, .outer hzero hslot h⟩
        · refine Or.inr ⟨hfind, fun c' h' => ?_⟩
          cases h' with
          | self =>
            unfold Declares Data.slotOf
            rw [hslot]
            exact Bool.false_ne_true
          | outer _ h' => exact h c' h'

theorem findSlot_innermost {bound : ℕ} (hc : c < m.control.nextContext) (hbound : c < bound)
    (h : Innermost m.data name c c' index) : m.data.findSlot name bound c = some (some (c', index)) := by
  rcases findSlot_some hm hc hbound with ⟨c'', index', hfind, h'⟩ | ⟨-, hnone⟩
  · obtain ⟨rfl, rfl⟩ := h.unique h'
    exact hfind
  · refine absurd ?_ (hnone c' h.encloses)
    unfold Declares
    rw [h.slot]
    rfl

theorem findSlot_none {bound : ℕ} (hc : c < m.control.nextContext) (hbound : c < bound)
    (h : ∀ c', Encloses m.data c c' → ¬Declares m.data c' name) :
    m.data.findSlot name bound c = some none := by
  rcases @findSlot_some _ name _ _ hm _ hc hbound with ⟨c', index, -, h'⟩ | ⟨hfind, -⟩
  · refine absurd ?_ (h c' h'.encloses)
    unfold Declares
    rw [h'.slot]
    rfl
  · exact hfind

end

inductive Location where
  | slot (c : ContextId) (index : ℕ)
  /-- A synchronized variable, in the map of a state. -/
  | synchronized (table : ℕ) (name : String)
  | static (className name : String)
  deriving DecidableEq, Repr

namespace Data

variable [NumOps α] (d : Data α) (a : Activation)

def content : Location → Option (Reg α)
  | .slot c index => some (d.regs c index)
  | .synchronized table name => (d.synchronized.getD table .new).get name
  | .static className name => (d.typeInfo className).bind (·.staticVariables.get name)

def write (d : Data α) : Location → Reg α → Data α
  | .slot c index, v => d.setReg c index v
  | .synchronized table name, v =>
    { d with synchronized := d.synchronized.set table ((d.synchronized.getD table .new).insert name v) }
  | .static className name, v => d.setStatic className name v

/-- The search of `OP_GET_FIELD`. What it ends at is none if it gives a native function or the reference
to a class. -/
def readLocation (name : String) : Option (Option Location) :=
  match nativeFunctions.lookup name with
  | some _ => some none
  | none => do
    match ← d.findSlot name (a.currentContext + 1) a.currentContext with
    | some (c, index) => return some (.slot c index)
    | none =>
      let shared := Location.synchronized (d.states a.state).synchronizedVariables name
      let static := Location.static (d.states a.state).className name
      return if (d.content shared).isSome then some shared
        else if (d.content static).isSome then some static
        else none

/-- The search of `OP_SET_FIELD`. -/
def writeLocation (name : String) : Option Location := do
  match ← d.findSlot name (a.currentContext + 1) a.currentContext with
  | some (c, index) => return .slot c index
  | none => return .synchronized (d.states a.state).synchronizedVariables name

end Data

/-- Every state has a map for its synchronized variables, and no map is immutable. -/
structure Sharing (d : Data α) : Prop where
  table_lt : ∀ s, (d.states s).synchronizedVariables < d.synchronized.length
  synchronized : ∀ table ∈ d.synchronized, table.isImmutable = false
  static : ∀ className info, d.typeInfo className = some info → info.staticVariables.isImmutable = false

variable {d d' : Data α}

theorem setTypeInfo_static {className : String} {info : TypeInfo α}
    (h : info.staticVariables.isImmutable = false)
    (hd : ∀ name info, d.typeInfo name = some info → info.staticVariables.isImmutable = false)
    (name : String) (info' : TypeInfo α) (hinfo : (d.setTypeInfo className info).typeInfo name = some info') :
    info'.staticVariables.isImmutable = false := by
  rw [typeInfo_setTypeInfo] at hinfo
  split at hinfo
  · cases hinfo
    exact h
  · exact hd name info' hinfo

theorem Sharing.state (h : Sharing d) {s : StateId} {info : StateInfo} {tables : List (ZMap (Reg α))}
    (htables : ∀ table ∈ tables, table.isImmutable = false)
    (hinfo : info.synchronizedVariables < d.synchronized.length + tables.length) :
    Sharing { d with
      synchronized := d.synchronized ++ tables
      states := Function.update d.states s info } where
  table_lt s' := by
    rw [List.length_append]
    by_cases hs : s' = s
    · subst hs
      simpa using hinfo
    · simp only [Function.update_of_ne hs]
      exact Nat.lt_of_lt_of_le (h.table_lt s') (Nat.le_add_right _ _)
  synchronized table htable := by
    rcases List.mem_append.mp htable with htable | htable
    · exact h.synchronized table htable
    · exact htables table htable
  static := h.static

theorem Sharing.getD_mutable (h : Sharing d) (table : ℕ) :
    (d.synchronized.getD table .new).isImmutable = false := by
  rw [List.getD_eq_getElem?_getD]
  cases hfound : d.synchronized[table]? with
  | none => rfl
  | some found => exact h.synchronized found (List.mem_of_getElem? hfound)

theorem Edit.sharing {classes : String → Option Code} {own : String} {resumes : List Resume}
    {i : Instruction} {loading : Option String} (hedit : Edit classes own resumes i loading d d') (h : Sharing d) : Sharing d' := by
  have himport : ∀ className shortName path, Sharing (d.addImport className shortName path) := by
    intro className shortName path
    unfold Data.addImport
    split
    · rename_i info hinfo
      exact ⟨h.table_lt, h.synchronized, setTypeInfo_static (h.static className info hinfo) h.static⟩
    · exact h
  cases hedit with
  | plain hsame =>
    obtain ⟨hstates, hsynchronized, htypes⟩ := hsame
    refine ⟨?_, ?_, ?_⟩
    · rw [hstates, hsynchronized]
      exact h.table_lt
    · rw [hsynchronized]
      exact h.synchronized
    · unfold Data.typeInfo
      rw [htypes]
      exact h.static
  | shared s name v =>
    refine ⟨fun s' => ?_, fun table htable => ?_, h.static⟩
    · unfold Data.setShared
      rw [List.length_set]
      exact h.table_lt s'
    · rcases List.mem_or_eq_of_mem_set htable with htable | rfl
      · exact h.synchronized table htable
      · exact (ZMap.insertFlags_isImmutable _ _ _ _).trans (h.getD_mutable _)
  | static className name v =>
    unfold Data.setStatic
    split
    · rename_i info hinfo
      refine ⟨h.table_lt, h.synchronized, setTypeInfo_static ?_ h.static⟩
      exact (ZMap.insertFlags_isImmutable _ _ _ _).trans (h.static className info hinfo)
    · exact h
  | register hloading hnew hown hcode => exact ⟨h.table_lt, h.synchronized, setTypeInfo_static rfl h.static⟩
  | importing hi => exact himport _ _ _
  | loaded hresume => exact himport _ _ _
  | ownState s root hcode =>
    have hnew : ∀ table ∈ [(ZMap.new : ZMap (Reg α))], table.isImmutable = false := by
      intro table htable
      cases List.mem_singleton.mp htable
      rfl
    exact h.state hnew (Nat.lt_succ_self _)
  | asyncState s s' root =>
    have hnone : ∀ table ∈ ([] : List (ZMap (Reg α))), table.isImmutable = false := nofun
    have hstate : Sharing { d with
        synchronized := d.synchronized ++ []
        states := Function.update d.states s { d.states s' with rootContext := root } } :=
      h.state hnone (h.table_lt s')
    rw [List.append_nil] at hstate
    exact hstate

variable [NumOps α]

theorem boot_sharing {className : String} {code : Code} {input : List String} {m : Machine α}
    (h : boot className code input = some m) : Sharing m.data := by
  unfold boot at h
  obtain ⟨⟨entry, symbols⟩, -, h⟩ := Option.bind_eq_some_iff.mp h
  obtain ⟨start, -, h⟩ := Option.bind_eq_some_iff.mp h
  obtain ⟨⟨staticEntry, staticSymbols⟩, -, h⟩ := Option.bind_eq_some_iff.mp h
  cases h
  refine ⟨fun s => ?_, fun table htable => ?_, fun name info hinfo => ?_⟩
  · simp only [Data.enterFrame, Data.newOwnState, Data.newState, List.length_append,
      List.length_nil, List.length_singleton, Function.update_apply]
    split
    · exact Nat.lt_succ_self 1
    · split <;> exact Nat.succ_pos 1
  · simp only [Data.enterFrame, Data.newOwnState, Data.newState, List.nil_append,
      List.mem_append, List.mem_singleton, or_self] at htable
    rw [htable]
    rfl
  · have hlookup : ([(className, ⟨code, .new, .new⟩)] : List (String × TypeInfo α)).lookup name =
        some info := hinfo
    rw [List.lookup_cons] at hlookup
    split at hlookup
    · cases hlookup
      rfl
    · cases hlookup

theorem reachable_sharing {classes : String → Option Code} {m : Machine α} (h : m.Reachable classes) :
    Sharing m.data := by
  obtain ⟨className, code, input, m₀, hcode, hboot, hpath⟩ := h
  induction hpath with
  | refl => exact boot_sharing hboot
  | tail _ hstep ih =>
    obtain ⟨thread, hstep⟩ := hstep
    obtain ⟨a, rest, i, e, outcome, hs⟩ := Machine.step_cases hstep
    exact hs.keeps (fun hedit => hedit.sharing) ih

@[simp] theorem content_slot (d : Data α) (c : ContextId) (index : ℕ) :
    d.content (.slot c index) = some (d.regs c index) := rfl

theorem regs_setReg_of_ne (d : Data α) {c c' : ContextId} (r : ℕ) (v : Reg α) (hne : c' ≠ c) :
    (d.setReg c r v).regs c' = d.regs c' := by
  unfold Data.setReg Data.regs
  rw [Data.contexts_setRegs, if_neg hne]

theorem content_write_slot (d : Data α) (c : ContextId) (index : ℕ) (v : Reg α) :
    (d.write (.slot c index) v).content (.slot c index) = some v := by
  unfold Data.write
  rw [content_slot, Data.regs_setReg_self, Function.update_self]

theorem content_write_shared (h : Sharing d) (s : StateId) (name : String) (v : Reg α) :
    (d.write (.synchronized (d.states s).synchronizedVariables name) v).content
      (.synchronized (d.states s).synchronizedVariables name) = some v := by
  unfold Data.write Data.content
  dsimp only
  rw [List.getD_eq_getElem?_getD, List.getElem?_set_self (h.table_lt s), Option.getD_some]
  exact ZMap.get_insert_self _ _ (h.getD_mutable _)

/-- Another location keeps its content. -/
theorem content_write_of_ne (d : Data α) {l l' : Location} (v : Reg α) (hne : l' ≠ l) :
    (d.write l v).content l' = d.content l' := by
  cases l with
  | slot c index =>
    cases l' with
    | slot c' index' =>
      unfold Data.write
      rw [content_slot, content_slot]
      by_cases hc : c' = c
      · subst hc
        have hindex : index' ≠ index := fun h => hne (h ▸ rfl)
        rw [Data.regs_setReg_self, Function.update_of_ne hindex]
      · rw [regs_setReg_of_ne _ _ _ hc]
    | synchronized table name => rfl
    | static className name => rfl
  | synchronized table name =>
    cases l' with
    | slot c' index' => rfl
    | synchronized table' name' =>
      unfold Data.write Data.content
      dsimp only
      by_cases htable : table' = table
      · subst htable
        have hname : name' ≠ name := fun h => hne (h ▸ rfl)
        rw [List.getD_eq_getElem?_getD, List.getElem?_set]
        split
        · split
          · rw [Option.getD_some, ZMap.get_insert_of_ne _ _ hname]
          · rename_i hlt
            rw [List.getD_eq_getElem?_getD, List.getElem?_eq_none (Nat.le_of_not_lt hlt)]
        · contradiction
      · rw [List.getD_eq_getElem?_getD, List.getElem?_set_ne (Ne.symm htable),
          ← List.getD_eq_getElem?_getD]
    | static className name' => rfl
  | static className name =>
    cases l' with
    | slot c' index' =>
      unfold Data.write Data.setStatic
      dsimp only
      split <;> rfl
    | synchronized table name' =>
      unfold Data.write Data.setStatic
      dsimp only
      split <;> rfl
    | static className' name' =>
      unfold Data.write Data.setStatic Data.content
      dsimp only
      split
      · rename_i info hinfo
        rw [typeInfo_setTypeInfo]
        by_cases hclass : className' = className
        · subst hclass
          have hname : name' ≠ name := fun h => hne (h ▸ rfl)
          rw [if_pos rfl, hinfo]
          exact ZMap.get_insert_of_ne _ _ hname
        · rw [if_neg hclass]
      · rfl

variable {classes : String → Option Code} {k : ControlState} {a : Activation} {name : String}

theorem getField_location {l : Location} (h : d.readLocation a name = some (some l)) :
    ∃ v, d.content l = some v ∧
      ∀ register, getField classes d k a 1 name register = some (d.deliverTo a register v) := by
  unfold Data.readLocation at h
  split at h
  · cases h
  · rename_i hnative
    obtain ⟨slot, hfind, h⟩ := Option.bind_eq_some_iff.mp h
    have hsearch : ∀ register, getField classes d k a 1 name register = searchThis d a name register := by
      intro register
      unfold getField
      dsimp only
      rw [hnative, if_pos rfl]
    simp only [hsearch]
    unfold searchThis
    rw [hfind]
    cases slot with
    | some slot =>
      obtain ⟨c, index⟩ := slot
      cases h
      exact ⟨_, rfl, fun _ => rfl⟩
    | none =>
      dsimp only [Option.pure_def] at h
      split at h
      · rename_i hshared
        cases h
        obtain ⟨v, hv⟩ := Option.isSome_iff_exists.mp hshared
        refine ⟨v, hv, fun register => ?_⟩
        have hvalue : (d.sharedOf a.state).get name = some v := hv
        simp only [Option.bind_eq_bind, Option.bind_some, hvalue]
        rfl
      · rename_i hshared
        split at h
        · rename_i hstatic
          cases h
          obtain ⟨v, hv⟩ := Option.isSome_iff_exists.mp hstatic
          refine ⟨v, hv, fun register => ?_⟩
          have hnone : (d.sharedOf a.state).get name = none := Option.not_isSome_iff_eq_none.mp hshared
          have hvalue : (d.typeInfo (d.states a.state).className).bind (·.staticVariables.get name) =
              some v := hv
          simp only [Option.bind_eq_bind, Option.bind_some, hnone, hvalue]
          rfl
        · cases h

theorem setField_location {l : Location} (h : d.writeLocation a name = some l) (v : Reg α) :
    setField classes d k a 1 name v = some ⟨d.write l v, a.objectToSearchOn, .next⟩ := by
  unfold Data.writeLocation at h
  obtain ⟨slot, hfind, h⟩ := Option.bind_eq_some_iff.mp h
  unfold setField
  dsimp only
  rw [if_pos rfl, hfind]
  cases slot with
  | some slot =>
    cases h
    rfl
  | none =>
    cases h
    rfl

section

variable {m : Machine α} (hm : Scoping m)
  (hcurrent : a.currentContext < m.control.nextContext)

include hm hcurrent

omit [NumOps α] in
/-- Where an assignment goes: to the innermost declaration, else to a synchronized variable. -/
theorem writeLocation_cases :
    (∃ c index, Innermost m.data name a.currentContext c index ∧
      m.data.writeLocation a name = some (.slot c index)) ∨
    (∀ c, Encloses m.data a.currentContext c → ¬Declares m.data c name) ∧
      m.data.writeLocation a name =
        some (.synchronized (m.data.states a.state).synchronizedVariables name) := by
  unfold Data.writeLocation
  rcases findSlot_some hm hcurrent (Nat.lt_succ_self _) with ⟨c, index, hfind, h⟩ | ⟨hfind, h⟩
  · rw [hfind]
    exact Or.inl ⟨c, index, h, rfl⟩
  · rw [hfind]
    exact Or.inr ⟨h, rfl⟩

theorem readLocation_slot {c : ContextId} {index : ℕ} (hnative : nativeFunctions.lookup name = none)
    (h : Innermost m.data name a.currentContext c index) :
    m.data.readLocation a name = some (some (.slot c index)) := by
  unfold Data.readLocation
  rw [hnative, findSlot_innermost hm hcurrent (Nat.lt_succ_self _) h]
  rfl

theorem readLocation_shared_iff (hnone : ∀ c, Encloses m.data a.currentContext c → ¬Declares m.data c name)
    (hnative : nativeFunctions.lookup name = none) :
    m.data.readLocation a name =
        some (some (.synchronized (m.data.states a.state).synchronizedVariables name)) ↔
      ((m.data.sharedOf a.state).get name).isSome := by
  unfold Data.readLocation
  rw [hnative, findSlot_none hm hcurrent (Nat.lt_succ_self _) hnone]
  change some (if ((m.data.sharedOf a.state).get name).isSome then some _ else _) = _ ↔ _
  split
  · rename_i hshared
    exact ⟨fun _ => hshared, fun _ => rfl⟩
  · rename_i hshared
    refine ⟨fun h => ?_, fun h => absurd h hshared⟩
    split at h <;> cases h

end

end

end Zeroscript
