import Zeroscript.ClassCode
import Zeroscript.Marking
import Zeroscript.Number
import Zeroscript.ObjectsList

/-! # States that are freed

The object that `object_new` makes owns its interpreter state; the `this` object of the state and
the functions made in it refer to the same one. A sweep frees the state with the first of them. -/
namespace Zeroscript.SavedState

open ObjectsList

section

variable {α : Type}

def state? : Object α → Option StateId
  | .functionRef _ _ _ s => some s
  | .instanceObject s => some s
  | _ => none

variable [NumOps α]

def Survives (m : Machine α) (g' : Collector) (address : Addr) (o : Object α) : Prop :=
  0 < address ∧ m.data.objects[address - 1]? = some o ∧ .object address ∉ g'.freed

def sweptStates (g g' : Collector) : List StateId := g'.freedStates.drop g.freedStates.length

/-- An instruction has been executed in a state. -/
def Begun (events : List (Event α)) (s : StateId) : Prop :=
  ∃ (m : Machine α) (a : Activation) (i : Instruction), .ran m a i ∈ events ∧ a.state = s

variable {classes : String → Option Code} {d d' : Data α} {k : ControlState} {a : Activation}
  {i : Instruction} {e : Effect α}

theorem createThis_objects {rest : List Activation} (hi : i.opcode = .CREATE_THIS)
    (h : effect classes d k a rest i = some e) :
    e.data.objects = d.objects ++ [.instanceObject a.state] ∧ e.action = .next := by
  obtain ⟨opcode, r0, r1, r2⟩ := i
  cases hi
  cases h
  exact ⟨rfl, rfl⟩

theorem construct_objects {rest : List Activation} {entry : ℕ}
    (h : effect classes d k a rest i = some e) (haction : e.action = .construct entry) :
    e.data.objects = d.objects ++ [.instanceObject k.nextState] := by
  obtain ⟨className, hconstruct⟩ := effect_construct h haction
  obtain ⟨d₁, info, symbols, -, -, -, hobjects, hdata⟩ := construct_enters hconstruct haction
  rw [hdata]
  exact hobjects

theorem construct_state {entry : ℕ} (h : Asks classes d k a i d' (.construct entry)) :
    ∃ className info symbols, d.typeInfo className = some info ∧
      (d'.states k.nextState).byteStream = info.bytecodeStream ∧
      frameAt info.bytecodeStream 0 = some (entry, symbols) := by
  cases h with
  | construct hi htype hs hinfo hentry =>
    exact ⟨_, _, _, htype, by rw [hs, Function.update_self, hinfo], hentry⟩

theorem states_old {action : Action} (h : Asks classes d k a i d' action) {s : StateId}
    (hs : s ≠ k.nextState) : d'.states s = d.states s := by
  cases h with
  | next _ hd | jump hd | push _ hd | pop _ hd | native _ _ hd | ret _ hd | callOwn _ hd
  | callOther _ _ _ hd | write _ _ hd | reject _ _ hd | exit hd => rw [hd]
  | raise | throwing | setCatch | clearCatch => rfl
  | callAsync _ hd | callClone _ _ _ hd | construct _ _ hd | load _ _ hd =>
    rw [hd, Function.update_of_ne hs]

theorem raise_nextState (message : String) (activations : List Activation) :
    (k.raise message activations).control.nextState = k.nextState := by
  exact ControlState.raise_keeps (P := (·.nextState = k.nextState)) (fun _ _ _ hk => hk) _ _ rfl

theorem throwIn_nextState (s : StateId) : (k.throwIn s).nextState = k.nextState := by
  obtain ⟨c, hthrown⟩ := k.throwIn_setState s
  rw [hthrown]
  rfl

theorem perform_nextState {rest : List Activation} {action : Action} :
    k.nextState ≤ (k.perform (a :: rest) action).control.nextState := by
  have hraise : ∀ (k' : ControlState) (message : String), k'.nextState = k.nextState →
      k.nextState ≤ (k'.raise message (a :: rest)).control.nextState := by
    intro k' message hk
    rw [raise_nextState, hk]
  cases action <;> try exact le_refl _
  case raise | throwing => exact hraise _ _ rfl
  case native pops error =>
    cases error with
    | none => exact le_refl _
    | some message => exact hraise _ _ rfl
  case setCatch =>
    unfold ControlState.perform
    dsimp only
    split <;> exact le_refl _
  case ret =>
    unfold ControlState.perform
    dsimp only
    split <;> exact le_refl _
  case reject target again =>
    unfold ControlState.perform
    dsimp only
    split
    · exact hraise _ _ (throwIn_nextState target)
    · dsimp only
      rw [throwIn_nextState]
      exact le_refl _
  case callAsync | callOther | construct | load => exact le_max_left _ _

theorem step_nextState {m m' : Machine α} {thread : ℕ} {rest : List Activation} {outcome : Outcome}
    (h : StepOf classes m m' thread a rest i e outcome) :
    m.control.nextState ≤ m'.control.nextState := by
  rw [h.control, ← h.perform]
  exact perform_nextState

/-- The constructor of the instance `x` is about to execute its first instruction. -/
structure Waiting (m : Machine α) (x : Addr) (s : StateId) : Prop where
  first : ∃ (thread : ℕ) (a : Activation) (rest : List Activation) (i : Instruction),
    m.threads[thread]? = some (a :: rest) ∧ a.state = s ∧ m.fetch a = some i ∧ i.opcode = .CREATE_THIS
  alone : ∀ (y : ℕ) (o : Object α), m.data.objects[y]? = some o → state? o = some s → y = x - 1

/-- The state has a `this` object, which is in no list. -/
def HasThis (m : Machine α) (g : Collector) (s : StateId) : Prop :=
  ∃ y : ℕ, 0 < y ∧ m.data.objects[y - 1]? = some (.instanceObject s) ∧
    .node (.object y) ∉ g.objectsList ∧ .object y ∉ g.freed

/-- What is known of the instances in the list along a run. -/
structure Owned (events : List (Event α)) (m : Machine α) (g : Collector) : Prop where
  bounded : ∀ (y : ℕ) (o : Object α) (s : StateId), m.data.objects[y]? = some o → state? o = some s →
    s < m.control.nextState
  past : ∀ s, Begun events s → s < m.control.nextState
  listed : ∀ x s, .node (.object x) ∈ g.objectsList →
    m.data.objects[x - 1]? = some (.instanceObject s) →
    ¬Begun events s ∧ Waiting m x s ∨ Begun events s ∧ HasThis m g s

variable {m m' : Machine α} {g : Collector} {thread : ℕ} {rest : List Activation} {outcome : Outcome}
  {events : List (Event α)}

theorem object_origin (hstep : StepOf classes m m' thread a rest i e outcome) {y : ℕ} {o : Object α}
    {s : StateId} (ho : m'.data.objects[y]? = some o) (hs : state? o = some s) :
    m.data.objects[y]? = some o ∨ m.data.objects.length ≤ y ∧ Makes m.control a i e.action o := by
  have hgrows := hstep.grows
  by_cases hy : m.data.objects.length ≤ y
  · exact Or.inr ⟨hy, hgrows.fresh y o hy ho⟩
  · left
    have hlt : y < m.data.objects.length := Nat.lt_of_not_le hy
    obtain ⟨o', ho', hkept⟩ := hgrows.kept y _ (List.getElem?_eq_getElem hlt)
    rw [ho] at ho'
    cases ho'
    rw [List.getElem?_eq_getElem hlt]
    generalize m.data.objects[y] = o₀ at hkept
    cases o₀ with
    | json =>
      obtain ⟨_, _, rfl⟩ := hkept
      cases hs
    | string =>
      obtain ⟨_, rfl⟩ := hkept
      cases hs
    | functionRef | instanceObject | classRef =>
      cases hkept
      rfl

omit [NumOps α] in
theorem makes_state {action : Action} {o : Object α} {s : StateId} (h : Makes k a i action o)
    (hs : state? o = some s) : s = a.state ∨ (∃ entry, action = .construct entry) ∧ s = k.nextState := by
  cases o with
  | functionRef =>
    cases hs
    exact Or.inl h.2
  | instanceObject =>
    cases hs
    rcases h with ⟨-, h⟩ | h
    · exact Or.inl h
    · exact Or.inr h
  | json | string | classRef => cases hs

theorem same_activation (hl : Linked m.control (frames m.activations))
    (hstep : StepOf classes m m' thread a rest i e outcome) {thread₁ : ℕ} {a₁ : Activation}
    {rest₁ : List Activation} (h : m.threads[thread₁]? = some (a₁ :: rest₁))
    (hs : a₁.state = a.state) : a₁ = a := by
  obtain ⟨others, hperm, -⟩ := hstep.others
  have hl' : Linked m.control (frames (a :: rest ++ others)) := hl.perm (hperm.map _).symm
  have hmem : a₁ ∈ m.activations :=
    List.mem_flatten.mpr ⟨_, List.mem_of_getElem? h, List.mem_cons_self⟩
  rcases List.mem_cons.mp (hperm.mem_iff.mp hmem) with heq | hother
  · exact heq
  · exact absurd hs (hl'.ne_head (List.mem_map_of_mem hother))

theorem Waiting.step {x : Addr} {s : StateId} (h : Waiting m x s)
    (hstep : StepOf classes m m' thread a rest i e outcome) (hs : s < m.control.nextState)
    (hne : a.state ≠ s) : Waiting m' x s := by
  obtain ⟨thread₁, a₁, rest₁, i₁, hthread, hstate, hfetch, hi⟩ := h.first
  have hother : thread ≠ thread₁ := by
    rintro rfl
    rw [hstep.activations] at hthread
    cases hthread
    exact hne hstate
  refine ⟨⟨thread₁, a₁, rest₁, i₁, ?_, hstate, ?_, hi⟩, ?_⟩
  · obtain ⟨hlt, -⟩ := List.getElem?_eq_some_iff.mp hthread
    rw [hstep.threads, List.getElem?_append_left (by rw [List.length_set]; exact hlt),
      List.getElem?_set_ne hother, hthread]
  · unfold Machine.fetch at hfetch ⊢
    rw [hstep.states, states_old (effect_asks hstep.effect) (by rw [hstate]; exact Nat.ne_of_lt hs)]
    exact hfetch
  · intro y o ho hos
    rcases object_origin hstep ho hos with hold | ⟨-, hmakes⟩
    · exact h.alone y o hold hos
    · rcases makes_state hmakes hos with hown | ⟨-, hnew⟩
      · exact absurd hown.symm hne
      · exact absurd hnew (Nat.ne_of_lt hs)

theorem Waiting.begin {x : Addr} {s : StateId} {nodes : List Node} (h : Waiting m x s)
    (hl : Linked m.control (frames m.activations)) (hlisted : Listed m g nodes)
    (hstep : StepOf classes m m' thread a rest i e outcome) (hs : a.state = s) :
    HasThis m' (g.step m a i e outcome) s := by
  obtain ⟨thread₁, a₁, rest₁, i₁, hthread, hstate, hfetch, hi⟩ := h.first
  obtain rfl := same_activation hl hstep hthread (hstate.trans hs.symm)
  rw [hstep.fetch] at hfetch
  cases hfetch
  obtain ⟨hmade, haction⟩ := createThis_objects hi hstep.effect
  obtain ⟨texts, hobjects, -⟩ := hstep.objects
  obtain ⟨hlist, hfreed⟩ := step_lists g m a₁ i e outcome
  have hnew : ¬Allocated m (.object (m.data.objects.length + 1)) :=
    fun h => absurd h.2 (Nat.not_succ_le_self _)
  have hadded : added m a₁ i e = [] := by
    unfold added addedObjects
    simp [hi, haction, Action.entered]
  refine ⟨m.data.objects.length + 1, Nat.succ_pos _, ?_, ?_, ?_⟩
  · rw [hobjects, hmade, Nat.add_sub_cancel, List.append_assoc,
      List.getElem?_append_right (le_refl _), Nat.sub_self, ← hs]
    rfl
  · rw [hlist, hadded, List.append_nil, hlisted.list]
    intro hmem
    obtain ⟨n, hn, heq⟩ := List.mem_map.mp hmem
    cases heq
    exact hnew (hlisted.allocated _ (List.mem_append_left _ hn))
  · rw [hfreed]
    intro hmem
    exact hnew (hlisted.allocated _ (List.mem_append_right _ hmem))

theorem HasThis.step {s : StateId} (h : HasThis m g s)
    (hstep : StepOf classes m m' thread a rest i e outcome) (hcopies : ¬CopiesString m a i)
    (hcontext : 0 < m.control.nextContext) : HasThis m' (g.step m a i e outcome) s := by
  obtain ⟨y, hy, ho, hlist, hfreed⟩ := h
  obtain ⟨hlt, -⟩ := List.getElem?_eq_some_iff.mp ho
  have hallocated : Allocated m (.object y) := ⟨hy, Nat.le_of_pred_lt hlt⟩
  obtain ⟨o', ho', hkept⟩ := hstep.grows.kept _ _ ho
  cases hkept
  exact ⟨y, hy, ho', unlisted_step hstep hcopies hcontext hallocated hlist,
    by rw [(step_lists g m a i e outcome).2]; exact hfreed⟩

end

section

variable {fuel : ℕ} {program : List ClassDeclaration} {α : Type} [NumOps α] {m m' : Machine α}
  {g g' : Collector} {thread : ℕ} {a : Activation} {rest : List Activation} {i : Instruction}
  {e : Effect α} {outcome : Outcome} {events : List (Event α)}

theorem added_waiting {x : Addr} {s : StateId}
    (hstep : StepOf (imagesOf fuel program) m m' thread a rest i e outcome)
    (hcodes : CodesOf (imagesOf fuel program) m) (hcopies : ¬CopiesString m a i)
    (hcontext : 0 < m.control.nextContext) (howned : Owned events m g)
    (hadded : .node (.object x) ∈ added m a i e)
    (ho : m'.data.objects[x - 1]? = some (.instanceObject s)) :
    s = m.control.nextState ∧ Waiting m' x s := by
  obtain ⟨news, hnews, -, hfresh⟩ := added_new hstep hcopies hcontext
  have hx : ¬Allocated m (.object x) ∧ Allocated m' (.object x) := by
    rw [hnews] at hadded
    obtain ⟨n, hn, heq⟩ := List.mem_map.mp hadded
    cases heq
    exact hfresh _ hn
  have hlarge : m.data.objects.length ≤ x - 1 := by
    have hnot := hx.1
    have hpos := hx.2.1
    by_contra hlt
    exact hnot ⟨hpos, Nat.le_of_pred_lt (Nat.lt_of_not_le hlt)⟩
  have hmakes : Makes m.control a i e.action (.instanceObject s : Object α) := by
    rcases object_origin hstep ho rfl with hold | ⟨-, hmakes⟩
    · rw [List.getElem?_eq_none hlarge] at hold
      cases hold
    · exact hmakes
  rcases hmakes with ⟨hi, -⟩ | ⟨⟨entry, haction⟩, rfl⟩
  · obtain ⟨-, haction⟩ := createThis_objects hi hstep.effect
    unfold added addedObjects at hadded
    simp [hi, haction, Action.entered] at hadded
  · have hasks := effect_asks hstep.effect
    rw [haction] at hasks
    obtain ⟨className, info, symbols, htype, hstream, hentry⟩ := construct_state hasks
    have hperform := hstep.perform
    rw [haction] at hperform
    obtain ⟨path, hcode⟩ := (hcodes.known.typeInfo htype).code
    obtain ⟨first, hfirst, hopcode⟩ := imagesOf_starts hcode hentry
    have hobjects := construct_objects hstep.effect haction
    refine ⟨rfl, ⟨thread, ⟨m.control.nextState, m.control.nextContext, entry, 0, .construct⟩,
      { a with objectToSearchOn := e.objectToSearchOn } :: rest, first, ?_, rfl, ?_, hopcode⟩, ?_⟩
    · obtain ⟨hlt, -⟩ := List.getElem?_eq_some_iff.mp hstep.activations
      rw [hstep.threads, List.getElem?_append_left (by rw [List.length_set]; exact hlt),
        List.getElem?_set_self hlt, ← hperform]
      rfl
    · unfold Machine.fetch
      rw [hstep.states, hstream]
      exact hfirst
    · -- one object has been made, and it is the instance
      have hlength : m'.data.objects.length = m.data.objects.length + 1 := by
        obtain ⟨texts, heq, htexts⟩ := hstep.objects
        have hnone : texts = [] := by
          apply htexts.mpr
          rw [← hperform]
          exact ⟨rfl, fun p hp => absurd hp List.not_mem_nil⟩
        rw [heq, hobjects, hnone]
        simp
      have hlast : ∀ (y : ℕ) (o : Object α), m'.data.objects[y]? = some o →
          state? o = some m.control.nextState → y = m.data.objects.length := by
        intro y o hy hos
        obtain ⟨hlt, -⟩ := List.getElem?_eq_some_iff.mp hy
        rcases object_origin hstep hy hos with hold | ⟨hge, -⟩
        · exact absurd (howned.bounded y o _ hold hos) (Nat.lt_irrefl _)
        · rw [hlength] at hlt
          exact Nat.le_antisymm (Nat.le_of_lt_succ hlt) hge
      intro y o hy hos
      rw [hlast y o hy hos, hlast _ _ ho rfl]

theorem bounded_step (hl : Linked m.control (frames m.activations))
    (hstep : StepOf classes m m' thread a rest i e outcome)
    (h : ∀ (y : ℕ) (o : Object α) (s : StateId), m.data.objects[y]? = some o → state? o = some s →
      s < m.control.nextState) {y : ℕ} {o : Object α} {s : StateId}
    (ho : m'.data.objects[y]? = some o) (hs : state? o = some s) : s < m'.control.nextState := by
  have hown : a.state < m.control.nextState := by
    have hmem : a ∈ m.activations :=
      List.mem_flatten.mpr ⟨_, List.mem_of_getElem? hstep.activations, List.mem_cons_self⟩
    exact hl.state_lt _ (List.mem_map_of_mem hmem)
  have hmono := step_nextState hstep
  rcases object_origin hstep ho hs with hold | ⟨-, hmakes⟩
  · exact Nat.lt_of_lt_of_le (h y o s hold hs) hmono
  · rcases makes_state hmakes hs with rfl | ⟨⟨entry, haction⟩, rfl⟩
    · exact Nat.lt_of_lt_of_le hown hmono
    · rw [hstep.control, ← hstep.perform, haction]
      exact Nat.lt_of_lt_of_le (Nat.lt_succ_self _) (le_max_right _ _)

theorem Owned.step {nodes : List Node} (h : Owned events m g)
    (hl : Linked m.control (frames m.activations)) (hlisted : Listed m g nodes)
    (hcodes : CodesOf (imagesOf fuel program) m)
    (hstep : StepOf (imagesOf fuel program) m m' thread a rest i e outcome)
    (hcopies : ¬CopiesString m a i) :
    Owned (.ran m a i :: events) m' (g.step m a i e outcome) := by
  have hown : a.state < m.control.nextState := by
    have hmem : a ∈ m.activations :=
      List.mem_flatten.mpr ⟨_, List.mem_of_getElem? hstep.activations, List.mem_cons_self⟩
    exact hl.state_lt _ (List.mem_map_of_mem hmem)
  have hmono := step_nextState hstep
  have hbegun : ∀ s, Begun (.ran m a i :: events) s ↔ a.state = s ∨ Begun events s := by
    intro s
    constructor
    · rintro ⟨m₀, a₀, i₀, hmem, hs⟩
      rcases List.mem_cons.mp hmem with heq | hmem
      · cases heq
        exact Or.inl hs
      · exact Or.inr ⟨m₀, a₀, i₀, hmem, hs⟩
    · rintro (hs | ⟨m₀, a₀, i₀, hmem, hs⟩)
      · exact ⟨m, a, i, List.mem_cons_self, hs⟩
      · exact ⟨m₀, a₀, i₀, List.mem_cons_of_mem _ hmem, hs⟩
  constructor
  · exact fun y o s => bounded_step hl hstep h.bounded
  · intro s hs
    rcases (hbegun s).mp hs with rfl | hs
    · exact Nat.lt_of_lt_of_le hown hmono
    · exact Nat.lt_of_lt_of_le (h.past s hs) hmono
  · intro x s hmem ho
    rw [(step_lists g m a i e outcome).1] at hmem
    rcases List.mem_append.mp hmem with hmem | hmem
    · have hx : Allocated m (.object x) := by
        rw [hlisted.list] at hmem
        obtain ⟨n, hn, heq⟩ := List.mem_map.mp hmem
        cases heq
        exact hlisted.allocated _ (List.mem_append_left _ hn)
      have hold : m.data.objects[x - 1]? = some (Object.instanceObject s) := by
        rcases object_origin hstep ho rfl with hold | ⟨hge, -⟩
        · exact hold
        · exact absurd (Nat.sub_one_lt_of_le hx.1 hx.2) (Nat.not_lt_of_le hge)
      rcases h.listed x s hmem hold with ⟨hnew, hwaiting⟩ | ⟨hs, hthis⟩
      · by_cases hs : a.state = s
        · exact Or.inr ⟨(hbegun s).mpr (Or.inl hs), hwaiting.begin hl hlisted hstep hs⟩
        · left
          refine ⟨fun hb => ?_, hwaiting.step hstep (h.bounded _ _ s hold rfl) hs⟩
          rcases (hbegun s).mp hb with hb | hb
          · exact hs hb
          · exact hnew hb
      · exact Or.inr ⟨(hbegun s).mpr (Or.inr hs), hthis.step hstep hcopies hlisted.context⟩
    · obtain ⟨rfl, hwaiting⟩ := added_waiting hstep hcodes hcopies hlisted.context h hmem ho
      left
      refine ⟨fun hb => ?_, hwaiting⟩
      rcases (hbegun _).mp hb with hb | hb
      · exact absurd hb (Nat.ne_of_lt hown)
      · exact absurd (h.past _ hb) (Nat.lt_irrefl _)

theorem Owned.collect {nodes : List Node} (h : Owned events m g) (hlisted : Listed m g nodes)
    (hcollect : g.collect m = some g') : Owned (.collected m g :: events) m g' := by
  rw [hlisted.collected] at hcollect
  cases hcollect
  have hbegun : ∀ s, Begun (.collected m g :: events) s ↔ Begun events s := by
    intro s
    constructor
    · rintro ⟨m₀, a₀, i₀, hmem, hs⟩
      rcases List.mem_cons.mp hmem with heq | hmem
      · cases heq
      · exact ⟨m₀, a₀, i₀, hmem, hs⟩
    · rintro ⟨m₀, a₀, i₀, hmem, hs⟩
      exact ⟨m₀, a₀, i₀, List.mem_cons_of_mem _ hmem, hs⟩
  have hkept : ∀ n, GcEntry.node n ∈ (nodes.filter (· ∈ g.marked m)).map GcEntry.node →
      .node n ∈ g.objectsList := by
    intro n hn
    obtain ⟨n', hn', heq⟩ := List.mem_map.mp hn
    cases heq
    rw [hlisted.list]
    exact List.mem_map_of_mem (List.mem_of_mem_filter hn')
  refine ⟨h.bounded, fun s hs => h.past s ((hbegun s).mp hs), fun x s hmem ho => ?_⟩
  rcases h.listed x s (hkept _ hmem) ho with ⟨hnew, hwaiting⟩ | ⟨hs, y, hy, hyo, hlist, hfreed⟩
  · exact Or.inl ⟨fun hb => hnew ((hbegun s).mp hb), hwaiting⟩
  · refine Or.inr ⟨(hbegun s).mpr hs, y, hy, hyo, fun hmem => hlist (hkept _ hmem), fun hmem => ?_⟩
    rcases List.mem_append.mp hmem with hmem | hmem
    · exact hfreed hmem
    · rw [hlisted.list] at hlist
      exact hlist (List.mem_map_of_mem (List.mem_of_mem_filter hmem))

omit [NumOps α] in
theorem boot_objects [NumOps α] {className : String} {code : Code} {input : List String}
    (h : boot className code input = some m) : m.data.objects = [] := by
  unfold boot at h
  obtain ⟨⟨entry, symbols⟩, -, h⟩ := Option.bind_eq_some_iff.mp h
  obtain ⟨start, -, h⟩ := Option.bind_eq_some_iff.mp h
  obtain ⟨⟨staticEntry, staticSymbols⟩, -, h⟩ := Option.bind_eq_some_iff.mp h
  cases h
  rfl

theorem collected_owned (h : Collected (imagesOf fuel program) events m g)
    (hcopies : ∀ event ∈ events, ¬Event.copiesString event) : Owned events m g := by
  induction h with
  | boot hcode hboot hentry =>
    have hobjects := boot_objects hboot
    refine ⟨fun y o s ho => ?_, fun s hs => ?_, fun x s _ ho => ?_⟩
    · rw [hobjects] at ho
      cases ho
    · obtain ⟨m₀, a, i, hmem, -⟩ := hs
      cases hmem
    · rw [hobjects] at ho
      cases ho
  | step h hstep ih =>
    have hold := fun event hevent => hcopies event (List.mem_cons_of_mem _ hevent)
    obtain ⟨nodes, hlisted⟩ := collected_listed h hold
    exact (ih hold).step (reachable_linked h.reachable) hlisted (reachable_codes h.reachable) hstep
      (hcopies _ List.mem_cons_self)
  | collect h hcollect ih =>
    have hold := fun event hevent => hcopies event (List.mem_cons_of_mem _ hevent)
    obtain ⟨nodes, hlisted⟩ := collected_listed h hold
    exact (ih hold).collect hlisted hcollect

theorem mem_sweptStates {nodes : List Node} {s : StateId} (hlisted : Listed m g nodes)
    (hcollect : g.collect m = some g') :
    s ∈ sweptStates g g' ↔ ∃ x, .object x ∈ nodes ∧ ¬Reached m g (.object x) ∧
      m.data.objects[x - 1]? = some (.instanceObject s) := by
  have hstate : ∀ n, m.data.stateOf n = some s ↔
      ∃ x, n = .object x ∧ m.data.objects[x - 1]? = some (.instanceObject s) := by
    intro n
    unfold Data.stateOf
    cases n with
    | context c => simp
    | object x =>
      dsimp only
      split
      · rename_i s' ho
        simp [ho]
      · rename_i hne
        constructor
        · exact nofun
        · rintro ⟨_, heq, ho⟩
          cases heq
          exact (hne s ho).elim
  rw [hlisted.collected] at hcollect
  cases hcollect
  unfold sweptStates
  dsimp only
  rw [List.drop_left]
  simp only [List.mem_filterMap, List.mem_filter, marked_iff, decide_eq_true_eq, hstate]
  constructor
  · rintro ⟨n, ⟨hn, hunreached⟩, x, rfl, ho⟩
    exact ⟨x, hn, hunreached, ho⟩
  · rintro ⟨x, hx, hunreached, ho⟩
    exact ⟨.object x, ⟨hx, hunreached⟩, x, rfl, ho⟩

/-- In every run of a program and at every collection: no object that is left refers to a state that
the collection frees, just when every instance in the list that has begun to run can be reached. -/
theorem states_survive_iff (h : Collected (imagesOf fuel program) events m g)
    (hcollect : g.collect m = some g') :
    (∀ address o s, Survives m g' address o → state? o = some s → s ∉ sweptStates g g') ↔
      ∀ x s, .node (.object x) ∈ g.objectsList →
        m.data.objects[x - 1]? = some (.instanceObject s) → Begun events s →
        Reached m g (.object x) := by
  have hcopies := collected_copies h hcollect
  obtain ⟨nodes, hlisted⟩ := collected_listed h hcopies
  have howned := collected_owned h hcopies
  have hswept := fun s => mem_sweptStates (s := s) hlisted hcollect
  have hfreed' := hlisted.mem_freed hcollect
  constructor
  · intro hsound x s hmem ho hs
    by_contra hunreached
    have hx : .object x ∈ nodes := by
      rw [hlisted.list] at hmem
      obtain ⟨n, hn, heq⟩ := List.mem_map.mp hmem
      cases heq
      exact hn
    rcases howned.listed x s hmem ho with ⟨hnew, -⟩ | ⟨-, y, hy, hyo, hlist, hfreed⟩
    · exact hnew hs
    · refine hsound y _ s ⟨hy, hyo, fun hmem => ?_⟩ rfl ((hswept s).mpr ⟨x, hx, hunreached, ho⟩)
      rcases (hfreed' _).mp hmem with hmem | ⟨hmem, -⟩
      · exact hfreed hmem
      · rw [hlisted.list] at hlist
        exact hlist (List.mem_map_of_mem hmem)
  · rintro hall address o s ⟨hpos, ho, hfreed⟩ hs hmem
    obtain ⟨x, hx, hunreached, hxo⟩ := (hswept s).mp hmem
    have hlist : .node (.object x) ∈ g.objectsList := by
      rw [hlisted.list]
      exact List.mem_map_of_mem hx
    rcases howned.listed x s hlist hxo with ⟨-, hwaiting⟩ | ⟨hb, -⟩
    · have heq : address = x := by
        have hpred := hwaiting.alone _ o ho hs
        have hxpos := (hlisted.allocated _ (List.mem_append_left _ hx)).1
        exact Nat.pred_inj hpos hxpos hpred
      subst heq
      exact hfreed ((hfreed' _).mpr (Or.inr ⟨hx, hunreached⟩))
    · exact hunreached (hall x s hlist hxo hb)

end

/-- `class A { fun f() { } }` and a class `Main`. -/
def sampleProgram (main : List Stmt) : List ClassDeclaration :=
  let constructor : Stmt := .function true false false "__static__constructor__" [] []
  [⟨"A", [], [.function false false false "f" [] [], constructor], []⟩,
    ⟨"Main", [], main ++ [constructor], []⟩]

/-- `var a = A(); var f = a.f; a = 0; gc();`. -/
def closureMain : List Stmt :=
  [.var "a" (.methodCall (.ident "A") []) false false,
    .var "f" (.binary .dot (.ident "a") (.str "f")) false false,
    .eval (.binary .assign (.ident "a") (.num "0")), .eval (.methodCall (.ident "gc") [])]

/-- `var a = A(); gc();`. -/
def instanceMain : List Stmt :=
  [.var "a" (.methodCall (.ident "A") []) false false, .eval (.methodCall (.ident "gc") [])]

def sampleRun (main : List Stmt) (n : ℕ) : Option (Progress ℚ) :=
  runCollected 3 (sampleProgram main) (List.replicate n (.thread 0))

/-- The collection keeps the function `f`, object 10, and frees its state. -/
theorem closure_loses_state :
    ∃ (events : List (Event ℚ)) (m : Machine ℚ) (g g' : Collector) (o : Object ℚ),
      Collected (imagesOf 3 (sampleProgram closureMain)) events m g ∧ g.collect m = some g' ∧
        Survives m g' 10 o ∧ .node (.object 10) ∈ g'.objectsList ∧ state? o = some 3 ∧
        3 ∈ sweptStates g g' := by
  have hrun : (sampleRun closureMain 19).any (fun h => (h.collector.collect h.machine).any fun g' =>
      decide ((h.machine.data.objects[9]?).bind state? = some 3 ∧ .object 10 ∉ g'.freed ∧
        .node (.object 10) ∈ g'.objectsList ∧ 3 ∈ sweptStates h.collector g')) = true := by
    decide +kernel
  obtain ⟨h, hcollected, hcollects⟩ := runCollected_any hrun
  obtain ⟨g', hg', hdecided⟩ := (Option.any_eq_true _ _).mp hcollects
  obtain ⟨hstate, hfreed, hlist, hswept⟩ := of_decide_eq_true hdecided
  obtain ⟨o, ho, hs⟩ := Option.bind_eq_some_iff.mp hstate
  exact ⟨h.events, h.machine, h.collector, g', o, hcollected, hg', ⟨by decide, ho, hfreed⟩, hlist, hs,
    hswept⟩

def instanceMarked (h : Progress ℚ) : GcEntry → Bool
  | .node (.object x) =>
    match h.machine.data.objects[x - 1]? with
    | some (.instanceObject _) => decide (.object x ∈ h.collector.marked h.machine)
    | _ => true
  | _ => true

theorem kept_instance_keeps_state :
    ∃ (events : List (Event ℚ)) (m : Machine ℚ) (g g' : Collector),
      Collected (imagesOf 3 (sampleProgram instanceMain)) events m g ∧ g.collect m = some g' ∧
        ∀ address o s, Survives m g' address o → state? o = some s → s ∉ sweptStates g g' := by
  have hrun : (sampleRun instanceMain 16).any (fun h => (h.collector.collect h.machine).isSome &&
      h.collector.objectsList.all (instanceMarked h)) = true := by decide +kernel
  obtain ⟨h, hcollected, hmarked⟩ := runCollected_any hrun
  obtain ⟨hsome, hall⟩ := (Bool.and_eq_true _ _).mp hmarked
  obtain ⟨g', hg'⟩ := Option.isSome_iff_exists.mp hsome
  refine ⟨h.events, h.machine, h.collector, g', hcollected, hg', ?_⟩
  refine (states_survive_iff hcollected hg').mpr fun x s hmem ho _ => ?_
  have hx := List.all_eq_true.mp hall _ hmem
  unfold instanceMarked at hx
  dsimp only at hx
  rw [ho] at hx
  exact marked_iff.mp (of_decide_eq_true hx)

end Zeroscript.SavedState
