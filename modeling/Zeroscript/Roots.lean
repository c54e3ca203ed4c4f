import Zeroscript.ControlFlow
import Zeroscript.Imports
import Zeroscript.Resolution
import Zeroscript.SavedState
import Zeroscript.Scopes

/-! # The scopes of instances

`CREATE_THIS` is the third instruction of a class. Only a construction, the start of the program or the load of
a class begins there: labels, handlers and return addresses lie behind it. So every instance has a root scope of
its own, which nothing surrounds. -/
namespace Zeroscript.Roots

open Outline SavedState
open Relation (ReflTransGen)

section

variable {fuel : ℕ} {cls : ClassDeclaration} {code : Code} {i : Instruction}

theorem headed_position {label frame first : Instruction} {rest : Code} (h : Headed label frame first rest)
    {index : ℕ} (hi : ([label, frame, first] ++ rest)[index]? = some i) :
    index = 0 ∧ i.opcode = .LABEL ∨ index = 1 ∧ i.opcode = .FFRAME ∨ index = 2 ∧ i.opcode = .CREATE_THIS ∨
      3 ≤ index ∧ i.opcode ≠ .CREATE_THIS := by
  match index, hi with
  | 0, hi =>
    cases hi
    exact Or.inl ⟨rfl, h.label⟩
  | 1, hi =>
    cases hi
    exact Or.inr (Or.inl ⟨rfl, h.frame⟩)
  | 2, hi =>
    cases hi
    exact Or.inr (Or.inr (Or.inl ⟨rfl, h.first⟩))
  | index + 3, hi =>
    have hmem : i ∈ rest := List.mem_of_getElem? hi
    exact Or.inr (Or.inr (Or.inr ⟨Nat.le_add_left _ _, h.only i hmem⟩))

theorem operand_behind (h : image fuel cls = some code) (hi : i ∈ code) {text : String}
    (htarget : Outline.target i = some text) {index : ℕ} (hindex : labelIndex code text = some index) :
    3 ≤ index := by
  obtain ⟨j, hj, hlabel, -⟩ := Resolution.labelIndex_label hindex
  have hne := Resolution.operand_not_first h hi htarget
  obtain ⟨label, frame, first, rest, rfl, hheaded⟩ := image_headed h
  rcases headed_position hheaded hj with ⟨rfl, -⟩ | ⟨-, hframe⟩ | ⟨-, hfirst⟩ | ⟨hle, -⟩
  · exact absurd hindex hne
  · rw [hlabel] at hframe
    cases hframe
  · rw [hlabel] at hfirst
    cases hfirst
  · exact hle

theorem createThis_position (h : image fuel cls = some code) {index : ℕ} (hi : code[index]? = some i)
    (hthis : i.opcode = .CREATE_THIS) : index < 3 := by
  obtain ⟨label, frame, first, rest, rfl, hheaded⟩ := image_headed h
  rcases headed_position hheaded hi with ⟨rfl, -⟩ | ⟨rfl, -⟩ | ⟨rfl, -⟩ | ⟨-, hother⟩
  · exact Nat.succ_pos _
  · exact Nat.one_lt_succ_succ _
  · exact Nat.lt_succ_self _
  · exact absurd hthis hother

theorem call_position (h : image fuel cls = some code) {index : ℕ} (hi : code[index]? = some i)
    (hcall : i.opcode = .CALL) : 3 ≤ index := by
  obtain ⟨label, frame, first, rest, rfl, hheaded⟩ := image_headed h
  rcases headed_position hheaded hi with ⟨-, hlabel⟩ | ⟨-, hframe⟩ | ⟨-, hfirst⟩ | ⟨hle, -⟩
  · rw [hcall] at hlabel
    cases hlabel
  · rw [hcall] at hframe
    cases hframe
  · rw [hcall] at hfirst
    cases hfirst
  · exact hle

theorem frameAt_lt {start entry : ℕ} {symbols : SymbolInfo} (h : frameAt code start = some (entry, symbols)) :
    start < entry := by
  unfold frameAt at h
  dsimp only at h
  split at h
  · cases h
    omega
  · cases h

theorem jumpLabel_target {label : String} (h : i.jumpLabel = some label) : Outline.target i = some label := by
  obtain ⟨opcode, r0, r1, r2⟩ := i
  cases opcode <;> cases h <;> rfl

end

variable {α : Type} [NumOps α] {classes : String → Option Code} {m m' : Machine α} {thread : ℕ} {a : Activation}
  {rest : List Activation} {i : Instruction} {e : Effect α} {outcome : Outcome}

/-- The actions that run a class from its first frame, or its static constructor. -/
def rooting : Action → Bool
  | .construct _ | .load .. => true
  | _ => false

theorem fresh_root (h : StepOf classes m m' thread a rest i e outcome) (haction : rooting e.action = true) :
    (m'.data.states m.control.nextState).rootContext = m.control.nextContext ∧
      (m'.data.contexts m.control.nextContext).parentContext = 0 := by
  rw [h.states, h.contexts]
  cases hcase : e.action with
  | construct entry =>
    obtain ⟨className, hconstruct⟩ := effect_construct h.effect hcase
    obtain ⟨d₁, info, symbols, -, -, hstates, -, hdata⟩ := construct_enters hconstruct hcase
    rw [hdata]
    refine ⟨?_, ?_⟩
    · rw [states_enterFrame, hstates, Function.update_self]
    · unfold Data.enterFrame
      dsimp only
      rw [Function.update_self]
  | load className path entry =>
    have hloading : e.action.loading = some className := by
      rw [hcase]
      rfl
    obtain ⟨huse, hnew⟩ := Imports.effect_loading h.effect hloading
    obtain ⟨searched, info, -, hload⟩ := huse.loads hnew h.effect
    unfold loadClass at hload
    dsimp only at hload
    split at hload
    · cases hload
      cases hcase
    · obtain ⟨start, -, hload⟩ := Option.bind_eq_some_iff.mp hload
      obtain ⟨⟨entry', symbols⟩, -, hload⟩ := Option.bind_eq_some_iff.mp hload
      cases hload
      refine ⟨?_, ?_⟩
      · simp [states_enterFrame, states_newOwnState]
      · unfold Data.enterFrame
        dsimp only
        rw [Function.update_self]
  | next | jump | push | pop | native | raise | throwing | setCatch | clearCatch | ret | callOwn | callAsync
  | callOther | write | reject | exit =>
    rw [hcase] at haction
    cases haction

/-- `R` are the states that instances can have: each has a root scope of its own, which nothing surrounds. All
others run behind `CREATE_THIS`. -/
structure Rooted (R : StateId → Prop) (m : Machine α) : Prop where
  state : ∀ s, R s → s < m.control.nextState
  root : ∀ s, R s → (m.data.states s).rootContext ≠ 0
  bounded : ∀ s, R s → (m.data.states s).rootContext < m.control.nextContext
  outermost : ∀ s, R s → (m.data.contexts (m.data.states s).rootContext).parentContext = 0
  null : (m.data.contexts 0).parentContext = 0
  apart : ∀ s s', R s → R s' → (m.data.states s).rootContext = (m.data.states s').rootContext → s = s'
  instances : ∀ (n : ℕ) (s : StateId), m.data.objects[n]? = some (.instanceObject s) → R s
  functions : ∀ (n start : ℕ) (isAsync : Bool) (parent : ContextId) (s : StateId),
    m.data.objects[n]? = some (.functionRef start isAsync parent s) → 3 ≤ start
  running : ∀ b ∈ m.activations, R b.state ∨ 3 ≤ b.instructionPtr
  returns : ∀ c, (m.control.links c).returnContext ≠ 0 → 3 ≤ (m.control.links c).returnAddress
  catches : ∀ c, ∀ address ∈ (m.control.links c).catches, 3 ≤ address

/-- The states with a root scope of their own after a step. -/
def Grown (R : StateId → Prop) (k : ControlState) (action : Action) (s : StateId) : Prop :=
  R s ∨ rooting action = true ∧ s = k.nextState

variable {fuel : ℕ} {program : List ClassDeclaration} {R : StateId → Prop}

omit [NumOps α] in
theorem fetched_image (hcodes : CodesOf (imagesOf fuel program) m) (hfetch : m.fetch a = some i) :
    ∃ cls, image fuel cls = some (m.data.states a.state).byteStream := by
  rcases hcodes.stream a.state with hnone | ⟨path, hpath⟩
  · unfold Machine.fetch at hfetch
    rw [hnone] at hfetch
    cases hfetch
  · obtain ⟨cls, -, hcls⟩ := Option.bind_eq_some_iff.mp hpath
    exact ⟨cls, hcls⟩

theorem innermostTry_mem {links : ContextId → Link} {c c' : ContextId} {address : ℕ}
    (h : InnermostTry links c c' address) : address ∈ (links c').catches := by
  induction h with
  | here _ hcatches =>
    rw [hcatches]
    exact List.mem_cons_self
  | outer _ _ _ ih => exact ih

section

variable (hstep : StepOf (imagesOf fuel program) m m' thread a rest i e outcome)
  (hcodes : CodesOf (imagesOf fuel program) m) (h : Rooted R m)

include hstep hcodes

theorem asks_behind {text : String} {address : ℕ} (htarget : Outline.target i = some text)
    (haddress : labelIndex (m.data.states a.state).byteStream text = some address) : 3 ≤ address := by
  obtain ⟨cls, hcls⟩ := fetched_image hcodes hstep.fetch
  exact operand_behind hcls (List.mem_of_getElem? hstep.fetch) htarget haddress

theorem jump_behind {address : ℕ} (haction : e.action = .jump address) : 3 ≤ address := by
  have hasks := effect_asks hstep.effect
  rw [haction] at hasks
  generalize e.data = d' at hasks
  cases hasks with
  | jump _ hlabel haddress => exact asks_behind hstep hcodes (jumpLabel_target hlabel) haddress

theorem handler_behind {address : ℕ} (haction : e.action = .setCatch address) : 3 ≤ address := by
  have hasks := effect_asks hstep.effect
  generalize e.data = d', e.action = action at hasks haction
  cases hasks with
  | setCatch hi haddress =>
    cases haction
    refine asks_behind hstep hcodes ?_ haddress
    obtain ⟨opcode, r0, r1, r2⟩ := i
    cases hi
    rfl
  | next | jump | push | pop | native | raise | throwing | clearCatch | ret | callOwn | callAsync | callOther
  | callClone | construct | load | write | reject | exit => cases haction

theorem calling_behind {entry register n : ℕ} (haction : e.action = .callOwn entry register n) :
    3 ≤ a.instructionPtr := by
  have hasks := effect_asks hstep.effect
  rw [haction] at hasks
  obtain ⟨cls, hcls⟩ := fetched_image hcodes hstep.fetch
  generalize e.data = d' at hasks
  cases hasks with
  | callOwn hi => exact call_position hcls hstep.fetch hi

include h

omit hcodes in
theorem called_behind {entry : ℕ} (haction : e.action.called = some entry) : 3 ≤ entry := by
  obtain ⟨start, isAsync, parent, target, hobject, hcall⟩ := effect_function hstep.effect haction
  obtain ⟨n, hn⟩ := object_mem hobject
  have hstart := h.functions n start isAsync parent target hn
  obtain ⟨entry', symbols, hentry, hactions⟩ := callFunction_enters hcall
  have hlt := frameAt_lt hentry
  have hsame : e.action.called = some entry' := by
    rcases hactions with ⟨cloned, -, h⟩ | ⟨-, h | h⟩ <;>
    · rw [h]
      rfl
  rw [haction] at hsame
  cases hsame
  omega

theorem arrives_running {b : Activation} (hmem : a ∈ m.activations) (hrest : ∀ b ∈ rest, b ∈ m.activations)
    (hb : Arrives m.control { a with objectToSearchOn := e.objectToSearchOn } rest e.action b) :
    Grown R m.control e.action b.state ∨ 3 ≤ b.instructionPtr := by
  have hrun : ∀ b ∈ { a with objectToSearchOn := e.objectToSearchOn } :: rest,
      R b.state ∨ 3 ≤ b.instructionPtr :=
    List.forall_mem_cons.mpr ⟨h.running a hmem, fun b hb => h.running b (hrest b hb)⟩
  have hkept : ∀ {s : StateId} {p : ℕ}, R s ∨ 3 ≤ p → Grown R m.control e.action s ∨ 3 ≤ p :=
    fun hs => hs.imp_left Or.inl
  have hnext : ∀ {s : StateId} {p : ℕ}, R s ∨ 3 ≤ p → Grown R m.control e.action s ∨ 3 ≤ p + 1 :=
    fun hs => hs.imp Or.inl Nat.le_succ_of_le
  generalize haction : e.action = action at hb hkept hnext ⊢
  cases hb with
  | stays hb => exact hkept (hrun b hb)
  | next => exact hnext (hrun _ List.mem_cons_self)
  | resumes hb => exact hnext (hrun _ (List.mem_cons_of_mem _ hb))
  | jumps => exact Or.inr (jump_behind hstep hcodes haction)
  | catches _ _ htry => exact Or.inr (h.catches _ _ (innermostTry_mem htry))
  | returns hreturn => exact Or.inr (Nat.le_succ_of_le (h.returns _ hreturn))
  | enters | async | other =>
    refine Or.inr (called_behind hstep h ?_)
    rw [haction]
    rfl
  | constructs | loads => exact Or.inl (Or.inr ⟨rfl, rfl⟩)

theorem relinks_behind {c : ContextId} {link : Link}
    (hlink : Relinks m.control { a with objectToSearchOn := e.objectToSearchOn } e.action c link) :
    (link.returnContext ≠ 0 → 3 ≤ link.returnAddress) ∧ ∀ address ∈ link.catches, 3 ≤ address := by
  generalize haction : e.action = action at hlink
  cases hlink with
  | same => exact ⟨h.returns _, h.catches _⟩
  | armed =>
    refine ⟨h.returns _, fun address hmem => ?_⟩
    rcases List.mem_cons.mp hmem with rfl | hmem
    · exact handler_behind hstep hcodes haction
    · exact h.catches _ address hmem
  | cleared => exact ⟨h.returns _, fun address hmem => h.catches _ address (List.mem_of_mem_tail hmem)⟩
  | enters => exact ⟨fun _ => calling_behind hstep hcodes haction, nofun⟩
  | starts => exact ⟨fun hne => absurd rfl hne, nofun⟩

omit h hcodes in
theorem nextContext_grows : m'.control.nextContext = m.control.nextContext + (if e.action.enters then 1 else 0) := by
  rw [hstep.control, ← hstep.perform]
  exact perform_nextContext

omit h hcodes in
theorem fresh_below (haction : rooting e.action = true) : m.control.nextState < m'.control.nextState ∧
    m.control.nextContext < m'.control.nextContext := by
  have hnextContext := nextContext_grows hstep
  have henters : e.action.enters = true := by
    generalize e.action = action at haction ⊢
    cases action <;> first | rfl | cases haction
  rw [henters] at hnextContext
  refine ⟨?_, hnextContext ▸ Nat.lt_succ_self _⟩
  rw [hstep.control, ← hstep.perform]
  generalize e.action = action at haction ⊢
  cases action <;> first | exact Nat.lt_of_lt_of_le (Nat.lt_succ_self _) (le_max_right _ _) | cases haction

omit hcodes in
theorem root_kept {s : StateId} (hs : R s) : (m'.data.states s).rootContext = (m.data.states s).rootContext := by
  rw [hstep.states, states_old (effect_asks hstep.effect) (Nat.ne_of_lt (h.state s hs))]

omit hcodes in
theorem outermost_kept {s : StateId} (hs : R s) :
    (m'.data.contexts (m.data.states s).rootContext).parentContext = 0 := by
  rw [hstep.contexts, ← h.outermost s hs]
  rcases effect_scoped hstep.effect with ⟨-, hsame⟩ | ⟨-, hone⟩
  · exact hsame.parent _
  · exact hone.parent _ (Nat.ne_of_lt (h.bounded s hs))

omit hcodes in
theorem grown_apart {s s' : StateId} (hs : Grown R m.control e.action s) (hs' : Grown R m.control e.action s')
    (heq : (m'.data.states s).rootContext = (m'.data.states s').rootContext) : s = s' := by
  -- a new root is no old one
  have hnew : ∀ s, R s → rooting e.action = true →
      (m'.data.states s).rootContext ≠ (m'.data.states m.control.nextState).rootContext := by
    intro s hs haction heq
    rw [root_kept hstep h hs, (fresh_root hstep haction).1] at heq
    exact Nat.ne_of_lt (h.bounded s hs) heq
  rcases hs with hs | ⟨haction, rfl⟩ <;> rcases hs' with hs' | ⟨haction', rfl⟩
  · rw [root_kept hstep h hs, root_kept hstep h hs'] at heq
    exact h.apart s s' hs hs' heq
  · exact absurd heq (hnew s hs haction')
  · exact absurd heq.symm (hnew s' hs' haction)
  · rfl

theorem instances_grown {n : ℕ} {s : StateId} (hrunning : a ∈ m.activations)
    (hn : m'.data.objects[n]? = some (.instanceObject s)) : Grown R m.control e.action s := by
  rcases object_origin hstep hn rfl with hold | ⟨-, hmakes⟩
  · exact Or.inl (h.instances n s hold)
  rcases hmakes with ⟨hthis, rfl⟩ | ⟨⟨entry, haction⟩, rfl⟩
  · rcases h.running a hrunning with hs | hbehind
    · exact Or.inl hs
    · obtain ⟨cls, hcls⟩ := fetched_image hcodes hstep.fetch
      have hlt := createThis_position hcls hstep.fetch hthis
      omega
  · refine Or.inr ⟨?_, rfl⟩
    rw [haction]
    rfl

theorem functions_behind {n start : ℕ} {isAsync : Bool} {parent : ContextId} {s : StateId}
    (hn : m'.data.objects[n]? = some (.functionRef start isAsync parent s)) : 3 ≤ start := by
  rcases hstep.functions hn with hold | hmade
  · exact h.functions n start isAsync parent s hold
  · refine asks_behind hstep hcodes ?_ hmade.start
    have hopcode := hmade.opcode
    obtain ⟨opcode, r0, r1, r2⟩ := i
    cases hopcode
    rfl

theorem running_grown {b : Activation} (hb : b ∈ m'.activations) :
    Grown R m.control e.action b.state ∨ 3 ≤ b.instructionPtr := by
  obtain ⟨others, hbefore, hafter⟩ := hstep.others
  have hmem : ∀ b ∈ a :: rest ++ others, b ∈ m.activations := fun b hb => hbefore.mem_iff.mpr hb
  have hnew : b ∈ outcome.activations ++ outcome.spawned.toList →
      Grown R m.control e.action b.state ∨ 3 ≤ b.instructionPtr := by
    intro hb
    rw [← hstep.perform] at hb
    refine arrives_running hstep hcodes h (hmem a List.mem_cons_self) (fun b hb => ?_) (perform_arrives b hb)
    exact hmem b (List.mem_append_left _ (List.mem_cons_of_mem _ hb))
  rcases List.mem_append.mp (hafter.mem_iff.mp hb) with hb | hb
  · exact hnew (List.mem_append_left _ hb)
  rcases List.mem_append.mp hb with hb | hb
  · exact (h.running b (hmem b (List.mem_append_right _ hb))).imp_left Or.inl
  · exact hnew (List.mem_append_right _ hb)

theorem Rooted.step (hl : Linked m.control (frames m.activations)) :
    Rooted (Grown R m.control e.action) m' where
  state s hs := by
    rcases hs with hs | ⟨haction, rfl⟩
    · exact Nat.lt_of_lt_of_le (h.state s hs) (step_nextState hstep)
    · exact (fresh_below hstep haction).1
  root s hs := by
    rcases hs with hs | ⟨haction, rfl⟩
    · rw [root_kept hstep h hs]
      exact h.root s hs
    · rw [(fresh_root hstep haction).1]
      exact Nat.ne_of_gt hl.nextContext_pos
  bounded s hs := by
    rcases hs with hs | ⟨haction, rfl⟩
    · rw [root_kept hstep h hs, nextContext_grows hstep]
      exact Nat.lt_of_lt_of_le (h.bounded s hs) (Nat.le_add_right _ _)
    · rw [(fresh_root hstep haction).1]
      exact (fresh_below hstep haction).2
  outermost s hs := by
    rcases hs with hs | ⟨haction, rfl⟩
    · rw [root_kept hstep h hs]
      exact outermost_kept hstep h hs
    · rw [(fresh_root hstep haction).1]
      exact (fresh_root hstep haction).2
  null := by
    rw [hstep.contexts]
    rcases effect_scoped hstep.effect with ⟨-, hsame⟩ | ⟨-, hone⟩
    · exact (hsame.parent 0).trans h.null
    · exact (hone.parent 0 (Nat.ne_of_lt hl.nextContext_pos)).trans h.null
  apart _ _ := grown_apart hstep h
  instances _ _ := by
    obtain ⟨others, hbefore, -⟩ := hstep.others
    exact instances_grown hstep hcodes h (hbefore.mem_iff.mpr List.mem_cons_self)
  functions _ _ _ _ _ := functions_behind hstep hcodes h
  running _ := running_grown hstep hcodes h
  returns c := by
    rw [hstep.control, ← hstep.perform]
    exact (relinks_behind hstep hcodes h (perform_relinks _ c)).1
  catches c := by
    rw [hstep.control, ← hstep.perform]
    exact (relinks_behind hstep hcodes h (perform_relinks _ c)).2

end

theorem boot_rooted {className : String} {code : Code} {input : List String}
    (h : boot className code input = some m) : Rooted (fun s => s = 0 ∨ s = 1) m := by
  have hlink : ∀ c, m.control.links c = {} := by
    obtain ⟨staticEntry, entry, hboot⟩ := boot_of h
    intro c
    rw [hboot.control]
    simp only [ControlState.start, Function.update_apply]
    split
    · rfl
    · split <;> rfl
  unfold boot at h
  obtain ⟨⟨entry, symbols⟩, -, h⟩ := Option.bind_eq_some_iff.mp h
  obtain ⟨start, -, h⟩ := Option.bind_eq_some_iff.mp h
  obtain ⟨⟨staticEntry, staticSymbols⟩, -, h⟩ := Option.bind_eq_some_iff.mp h
  cases h
  refine ⟨?_, ?_, ?_, ?_, rfl, ?_, (fun n s hn => by cases hn), (fun n start isAsync parent s hn => by cases hn), ?_, ?_, ?_⟩
  · rintro s (rfl | rfl)
    · exact Nat.two_pos
    · exact Nat.one_lt_two
  · rintro s (rfl | rfl)
    · exact Nat.one_ne_zero
    · exact two_ne_zero
  · rintro s (rfl | rfl) <;> exact Nat.lt_of_sub_eq_succ rfl
  · rintro s (rfl | rfl) <;> rfl
  · rintro s s' (rfl | rfl) (rfl | rfl) heq <;> first | rfl | cases heq
  · intro b hb
    rcases List.mem_cons.mp hb with rfl | hb
    · exact Or.inl (Or.inr rfl)
    · obtain rfl := List.mem_singleton.mp hb
      exact Or.inl (Or.inl rfl)
  · intro c hne
    rw [hlink c] at hne
    exact absurd rfl hne
  · intro c address hmem
    rw [hlink c] at hmem
    cases hmem

/-- In every run of a program. -/
theorem reachable_rooted (h : m.Reachable (imagesOf fuel program)) : ∃ R, Rooted R m := by
  obtain ⟨className, code, input, m₀, hcode, hboot, hpath⟩ := h
  induction hpath with
  | refl => exact ⟨_, boot_rooted hboot⟩
  | tail hpath hstep ih =>
    obtain ⟨thread, hstep⟩ := hstep
    obtain ⟨R, hR⟩ := ih
    obtain ⟨a, rest, i, e, outcome, hs⟩ := Machine.step_cases hstep
    have hreachable : Machine.Reachable (imagesOf fuel program) _ := ⟨className, code, input, m₀, hcode, hboot, hpath⟩
    exact ⟨_, Rooted.step hs (reachable_codes hreachable) hR (reachable_linked hreachable)⟩

end Zeroscript.Roots
