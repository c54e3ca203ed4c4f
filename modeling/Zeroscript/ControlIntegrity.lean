import Zeroscript.ContextHomes
import Zeroscript.FrameEntry
import Zeroscript.FunctionLayout
import Zeroscript.SavedState

/-! # Control stays in its function

Every context is made by one `FFRAME`. Wherever control goes in it afterwards, on to the next instruction, to a
label, to a handler or back from a call, it stays in the body behind that `FFRAME`. An instruction is one step
here, with the test of `is_running` in `OP_CALL` and the entry of the callee. -/
namespace Zeroscript.ControlIntegrity

open FrameBounds (Fits)
open FrameEntry (frameAt_frame image_frame)
open FunctionLayout (Closed Within bodyAt image_laid labelsOf labelsOf_lt)
open LabelNames (functionsOf)
open Outline (outlineClass)
open Resolution (IsIdentifier)
open SavedState (states_old)

/-- The `FFRAME` that has made a context. -/
structure Origin where
  code : Code
  position : ℕ

def Origin.Holds (o : Origin) (address : ℕ) : Prop := Within o.code o.position address

def Origin.size (o : Origin) : ℕ := ((o.code[o.position]?).map (·.r0.reg)).getD 0

def entryOf : Action → Option ℕ
  | .callOwn entry _ _ | .callAsync entry _ | .callOther _ _ entry _ _ | .construct entry | .load _ _ entry =>
    some entry
  | _ => none

section

variable {α : Type}

/-- The origins of contexts after an action that leaves the data `d'`. -/
def origins (d' : Data α) (k : ControlState) (a : Activation) (action : Action) (origin : ContextId → Origin) :
    ContextId → Origin :=
  match entryOf action with
  | some entry =>
    Function.update origin k.nextContext ⟨(d'.states (action.entering k a)).byteStream, entry - 1⟩
  | none => origin

inductive Traced [NumOps α] (classes : String → Option Code) : Machine α → (ContextId → Origin) → Prop where
  | boot {className : String} {code : Code} {input : List String} {m : Machine α} {staticEntry entry : ℕ}
      (hcode : classes className = some code) (hboot : boot className code input = some m)
      (hentries : BootOf className code m staticEntry entry) :
      Traced classes m fun c => ⟨code, if c = 1 then entry - 1 else staticEntry - 1⟩
  | step {m m' : Machine α} {origin : ContextId → Origin} {thread : ℕ} {a : Activation} {rest : List Activation}
      {i : Instruction} {e : Effect α} {outcome : Outcome} (h : Traced classes m origin)
      (hstep : StepOf classes m m' thread a rest i e outcome) :
      Traced classes m' (origins m'.data m.control a e.action origin)

/-- What holds of the code of every compiled class. -/
structure Sound (code : Code) : Prop where
  closed : ∀ (q : ℕ) (frame : Instruction), code[q]? = some frame → frame.opcode = .FFRAME →
    Closed code q frame.r0.reg
  symbols : ∀ frame ∈ code, frame.opcode = .FFRAME → ∀ table, frame.r1 = .symbols table →
    table.length ≤ frame.r0.reg
  starts : ∀ (entry : ℕ) (table : SymbolInfo), frameAt code 0 = some (entry, table) →
    ∃ i, code[entry]? = some i ∧ i.opcode = .CREATE_THIS

theorem imagesOf_sound {fuel : ℕ} {program : List ClassDeclaration}
    (hidents : ∀ cls ∈ program, ∀ g ∈ functionsOf cls, IsIdentifier g.2)
    (hcount : ∀ cls ∈ program, ∀ t marks, outlineClass fuel cls {} = .ok ((), t, marks) → t.labelCount < 2 ^ 31)
    {path : String} {code : Code} (h : imagesOf fuel program path = some code) : Sound code := by
  obtain ⟨cls, hfind, himage⟩ := Option.bind_eq_some_iff.mp h
  have hcls := List.mem_of_find?_eq_some hfind
  obtain ⟨hi, hlaid⟩ := image_laid (hidents cls hcls) (hcount cls hcls) himage
  refine ⟨fun q frame hq hframe => hlaid.closed hq hframe, fun frame hmem hframe table htable => ?_,
    fun entry table hentry => image_starts himage hentry⟩
  exact image_frame himage hmem hframe htable

theorem frameAt_made {code : Code} {start entry : ℕ} {symbols : SymbolInfo}
    (h : frameAt code start = some (entry, symbols)) :
    entry = entry - 1 + 1 ∧ ∃ r0 r2, code[entry - 1]? = some ⟨.FFRAME, r0, .symbols symbols, r2⟩ := by
  have hentry : entry = entry - 1 + 1 := by
    unfold frameAt at h
    dsimp only at h
    split at h
    · cases h
      rfl
    · cases h
  refine ⟨hentry, ?_⟩
  rw [hentry] at h
  exact frameAt_frame h

section

variable [NumOps α] {classes : String → Option Code} {d d' : Data α} {k : ControlState} {a : Activation}
  {rest : List Activation} {i : Instruction} {e : Effect α} {action : Action} {entry : ℕ}

theorem entryOf_enters : action.enters = (entryOf action).isSome := by
  cases action <;> rfl

theorem entryOf_starting {s : StateId} (h : action.starting k = some s) : (entryOf action).isSome := by
  cases action <;> first | rfl | cases h

theorem entered_frame (h : Asks classes d k a i d' action) (hentry : entryOf action = some entry) :
    ∃ start symbols, frameAt (d'.states (action.entering k a)).byteStream start = some (entry, symbols) := by
  have hof : ∀ {action : Action} {entry start : ℕ} {symbols : SymbolInfo} {code : Code},
      (d'.states (action.entering k a)).byteStream = code → frameAt code start = some (entry, symbols) →
      ∃ start symbols, frameAt (d'.states (action.entering k a)).byteStream start = some (entry, symbols) := by
    rintro action entry start symbols code rfl hframe
    exact ⟨start, symbols, hframe⟩
  cases h with
  | callOwn hi hs hframe | callOther hi hne hidle hs hframe =>
    cases hentry
    refine hof ?_ hframe
    rw [hs]
    rfl
  | callAsync hi hs hframe =>
    cases hentry
    refine hof ?_ hframe
    change (d'.states k.nextState).byteStream = _
    rw [hs, Function.update_self]
  | callClone hi hne hbusy hs hinfo hframe | construct hi htype hs hinfo hframe | load hi hclass hs hinfo hframe =>
    cases hentry
    refine hof ?_ hframe
    change (d'.states k.nextState).byteStream = _
    rw [hs, Function.update_self, hinfo]
  | _ => cases hentry

theorem states_unstarted (h : Asks classes d k a i d' action) {s : StateId} (hs : action.starting k ≠ some s) :
    d'.states s = d.states s := by
  have hother : action.starting k = some k.nextState → s ≠ k.nextState := by
    intro hstart heq
    rw [heq] at hs
    exact hs hstart
  cases h with
  | callAsync _ hd | callClone _ _ _ hd | construct _ _ hd | load _ _ hd =>
    rw [hd, Function.update_of_ne (hother rfl)]
  | next _ hd | jump hd | push _ hd | pop _ hd | native _ _ hd | ret _ hd | callOwn _ hd
  | callOther _ _ _ hd | write _ _ hd | reject _ _ hd | exit hd => rw [hd]
  | raise | throwing | setCatch | clearCatch => rfl

theorem entering_current {s : StateId} (h : action.starting k = some s) :
    ((k.perform (a :: rest) action).control.states s).currentContext = k.nextContext := by
  cases action with
  | callAsync | callOther | construct | load =>
    cases h
    simp [ControlState.perform, ControlState.start, ControlState.moveStack, ControlState.setState]
  | _ => cases h

theorem effect_return (h : effect classes d k a rest i = some e) (hi : i.opcode = .RETURN) : e.action = .ret := by
  obtain ⟨opcode, r0, r1, r2⟩ := i
  obtain rfl : opcode = .RETURN := hi
  change some (returnValue d k a rest (d.regs a.currentContext r0.reg)) = some e at h
  cases h
  unfold returnValue
  dsimp only
  split
  · split <;> rfl
  · rfl

theorem jumpLabel_link {label : String} (h : i.jumpLabel = some label) : Outline.link i = some (.jump label) := by
  obtain ⟨opcode, r0, r1, r2⟩ := i
  cases opcode <;> first | cases h; rfl | cases h

theorem setCatch_link (h : i.opcode = .SET_CATCH) : Outline.link i = some (.jump i.r0.text) := by
  obtain ⟨opcode, r0, r1, r2⟩ := i
  obtain rfl : opcode = .SET_CATCH := h
  rfl

end

/-- An activation is in the function that its context was made by. -/
structure Inside (d : Data α) (origin : ContextId → Origin) (b : Activation) : Prop where
  code : (origin b.currentContext).code = (d.states b.state).byteStream
  pointer : (origin b.currentContext).Holds b.instructionPtr

structure Made (classes : String → Option Code) (o : Origin) : Prop where
  code : ∃ path, classes path = some o.code
  frame : ∃ r0 table r2, o.code[o.position]? = some ⟨.FFRAME, r0, .symbols table, r2⟩

/-- Where control goes from the link of a context. -/
structure LeadsBack (origin : ContextId → Origin) (c : ContextId) (link : Link) : Prop where
  returns : link.returnContext ≠ 0 → (origin link.returnContext).code = (origin c).code ∧
    (origin link.returnContext).Holds (link.returnAddress + 1)
  catches : ∀ address ∈ link.catches, (origin c).Holds address

structure Kept (classes : String → Option Code) (m : Machine α) (origin : ContextId → Origin) : Prop where
  executing : ∀ b ∈ m.activations, Inside m.data origin b
  waiting : ∀ list ∈ m.threads, ∀ b ∈ list.tail, (origin b.currentContext).Holds (b.instructionPtr + 1)
  links : ∀ c, LeadsBack origin c (m.control.links c)
  current : ∀ s, (m.control.states s).currentContext ≠ 0 →
    (origin (m.control.states s).currentContext).code = (m.data.states s).byteStream
  made : ∀ c, c ≠ 0 → c < m.control.nextContext → Made classes (origin c)
  blank : ∀ c, c = 0 ∨ m.control.nextContext ≤ c → m.control.links c = {}

section

variable [NumOps α] {classes : String → Option Code} {m m' : Machine α} {origin : ContextId → Origin} {thread : ℕ}
  {a b : Activation} {rest : List Activation} {i : Instruction} {e : Effect α} {outcome : Outcome}

theorem Made.closed {o : Origin} (h : Made classes o) (hsound : ∀ path code, classes path = some code → Sound code) :
    Closed o.code o.position o.size := by
  obtain ⟨path, hpath⟩ := h.code
  obtain ⟨r0, table, r2, hframe⟩ := h.frame
  have hclosed := (hsound path o.code hpath).closed o.position _ hframe rfl
  unfold Origin.size
  rw [hframe]
  exact hclosed

theorem InnermostTry.mem {links : ContextId → Link} {c c' : ContextId} {address : ℕ}
    (h : InnermostTry links c c' address) : address ∈ (links c').catches := by
  induction h with
  | here hc hcatches =>
    rw [hcatches]
    exact List.mem_cons_self
  | outer hc hcatches h ih => exact ih

omit [NumOps α] in
theorem Kept.searched_code (h : Kept classes m origin) {c c' : ContextId} {address : ℕ}
    (htry : InnermostTry m.control.links c c' address) : (origin c').code = (origin c).code := by
  induction htry with
  | here hc hcatches => rfl
  | outer hc hcatches htry ih =>
    obtain ⟨hcode, -⟩ := (h.links _).returns htry.ne_zero
    rw [ih, hcode]

omit [NumOps α] in
theorem Kept.searched (h : Kept classes m origin) (ha : Inside m.data origin a) {s : StateId} {c c' : ContextId}
    {address : ℕ} (hfrom : SearchFrom m.control a s c) (htry : InnermostTry m.control.links c c' address) :
    (origin c').code = (m.data.states s).byteStream ∧ (origin c').Holds address ∧ c' < m.control.nextContext := by
  have hmem := InnermostTry.mem htry
  refine ⟨?_, (h.links c').catches address hmem, ?_⟩
  · rw [h.searched_code htry]
    cases hfrom with
    | current => exact h.current s htry.ne_zero
    | frame hs =>
      rw [ha.code, hs]
  · by_contra hlt
    rw [h.blank c' (Or.inr (Nat.not_lt.mp hlt))] at hmem
    cases hmem

omit [NumOps α] in
theorem origins_old {d' : Data α} {k : ControlState} {action : Action} {c : ContextId} (hc : c < k.nextContext) :
    origins d' k a action origin c = origin c := by
  unfold origins
  cases entryOf action with
  | none => rfl
  | some entry => exact Function.update_of_ne (Nat.ne_of_lt hc) _ _

omit [NumOps α] in
theorem origins_entered {d' : Data α} {k : ControlState} {action : Action} {entry : ℕ}
    (h : entryOf action = some entry) : origins d' k a action origin k.nextContext =
      ⟨(d'.states (action.entering k a)).byteStream, entry - 1⟩ := by
  unfold origins
  rw [h]
  exact Function.update_self _ _ _

theorem mem_activations (hs : StepOf classes m m' thread a rest i e outcome) {b : Activation} (hb : b ∈ a :: rest) :
    b ∈ m.activations :=
  List.mem_flatten.mpr ⟨a :: rest, List.mem_of_getElem? hs.activations, hb⟩

section

variable (hl : Linked m.control (frames m.activations)) (hcodes : CodesOf classes m')
  (hsound : ∀ path code, classes path = some code → Sound code) (h : Kept classes m origin)
  (hs : StepOf classes m m' thread a rest i e outcome)

include hcodes hs in
theorem entered_made {entry : ℕ} (hentry : entryOf e.action = some entry) :
    entry = entry - 1 + 1 ∧
      Made classes ⟨(m'.data.states (e.action.entering m.control a)).byteStream, entry - 1⟩ := by
  obtain ⟨start, symbols, hframe⟩ := entered_frame (effect_asks hs.effect) hentry
  rw [← hs.states] at hframe
  obtain ⟨hpos, r0, r2, hat⟩ := frameAt_made hframe
  refine ⟨hpos, ?_, r0, symbols, r2, hat⟩
  rcases hcodes.stream (e.action.entering m.control a) with hnone | hpath
  · rw [hnone] at hat
    cases hat
  · exact hpath

omit [NumOps α] in
include hl hsound h in
theorem Kept.made_closed (hb : b ∈ m.activations) :
    Closed (origin b.currentContext).code (origin b.currentContext).position (origin b.currentContext).size := by
  have hmem : (b.state, b.currentContext) ∈ frames m.activations := List.mem_map_of_mem hb
  exact (h.made _ (hl.context_pos _ hmem) (hl.context_lt _ hmem)).closed hsound

include h hs in
theorem Kept.fetched : (origin a.currentContext).code[a.instructionPtr]? = some i := by
  have ha := h.executing a (mem_activations hs List.mem_cons_self)
  rw [ha.code]
  exact hs.fetch

include hl hsound h hs in
theorem Kept.next (hreturn : i.opcode ≠ .RETURN) : (origin a.currentContext).Holds (a.instructionPtr + 1) := by
  have hmem := mem_activations hs List.mem_cons_self
  exact (h.made_closed hl hsound hmem).next (h.executing a hmem).pointer (h.fetched hs) hreturn

include hl hsound h hs in
theorem Kept.jump {label : String} {address : ℕ} (hlink : Outline.link i = some (.jump label))
    (haddress : labelIndex (m.data.states a.state).byteStream label = some address) :
    (origin a.currentContext).Holds address := by
  have hmem := mem_activations hs List.mem_cons_self
  have ha := h.executing a hmem
  have hbody := ha.pointer.mem (h.fetched hs)
  obtain ⟨p, hp, hwithin⟩ := (h.made_closed hl hsound hmem).jumps i hbody label hlink
  rw [ha.code, haddress] at hp
  cases hp
  exact hwithin

include hs in
theorem inside_old {c : ContextId} {s : StateId} {address : ℕ} (hcode : (origin c).code = (m.data.states s).byteStream)
    (hp : (origin c).Holds address) (hc : c < m.control.nextContext) (hstate : s < m.control.nextState)
    (searched : Addr) (resume : Resume) :
    Inside m'.data (origins m'.data m.control a e.action origin) ⟨s, c, address, searched, resume⟩ := by
  constructor
  · rw [origins_old hc, hcode, hs.states, states_old (effect_asks hs.effect) (Nat.ne_of_lt hstate)]
  · rw [origins_old hc]
    exact hp

include hcodes hsound hs in
theorem inside_entered {entry : ℕ} (hentry : entryOf e.action = some entry) (searched : Addr) (resume : Resume) :
    Inside m'.data (origins m'.data m.control a e.action origin)
      ⟨e.action.entering m.control a, m.control.nextContext, entry, searched, resume⟩ := by
  obtain ⟨hpos, hmade⟩ := entered_made hcodes hs hentry
  constructor
  · rw [origins_entered hentry]
  · rw [origins_entered hentry, Origin.Holds]
    dsimp only
    rw [hpos]
    exact (hmade.closed hsound).entry

include hl hcodes hsound h hs in
theorem Kept.arrives {searched : Addr}
    (hb : Arrives m.control { a with objectToSearchOn := searched } rest e.action b) :
    Inside m'.data (origins m'.data m.control a e.action origin) b := by
  have hmem := mem_activations hs List.mem_cons_self
  have ha := h.executing a hmem
  have hbounds : ∀ x ∈ m.activations, x.currentContext ≠ 0 ∧ x.currentContext < m.control.nextContext ∧
      x.state < m.control.nextState := by
    intro x hx
    have hframe : (x.state, x.currentContext) ∈ frames m.activations := List.mem_map_of_mem hx
    exact ⟨hl.context_pos _ hframe, hl.context_lt _ hframe, hl.state_lt _ hframe⟩
  have hold : ∀ x ∈ m.activations, ∀ {c address : ℕ}, (origin c).code = (m.data.states x.state).byteStream →
      (origin c).Holds address → c < m.control.nextContext → ∀ searched resume,
      Inside m'.data (origins m'.data m.control a e.action origin) ⟨x.state, c, address, searched, resume⟩ := by
    intro x hx c address hcode hp hc searched resume
    exact inside_old hs hcode hp hc (hbounds x hx).2.2 searched resume
  have hentered : ∀ {entry : ℕ}, entryOf e.action = some entry → ∀ searched resume,
      Inside m'.data (origins m'.data m.control a e.action origin)
        ⟨e.action.entering m.control a, m.control.nextContext, entry, searched, resume⟩ :=
    inside_entered hcodes hsound hs
  have hasks := effect_asks hs.effect
  generalize e.data = d' at hasks
  have hreturn := effect_return hs.effect
  generalize e.action = action at hb hold hentered hasks hreturn ⊢
  have hkept : ∀ x ∈ m.activations, ∀ {address : ℕ}, (origin x.currentContext).Holds address →
      ∀ searched resume, Inside m'.data (origins m'.data m.control a action origin)
        ⟨x.state, x.currentContext, address, searched, resume⟩ := by
    intro x hx address hp
    exact hold x hx (h.executing x hx).code hp (hbounds x hx).2.1
  have hcaught : ∀ x ∈ m.activations, ∀ {c₀ c address : ℕ},
      SearchFrom m.control { a with objectToSearchOn := searched } x.state c₀ →
      InnermostTry m.control.links c₀ c address → ∀ searched resume,
      Inside m'.data (origins m'.data m.control a action origin) ⟨x.state, c, address, searched, resume⟩ := by
    intro x hx c₀ c address hfrom htry
    obtain ⟨hcode, hp, hc⟩ :=
      h.searched (a := { a with objectToSearchOn := searched }) ⟨ha.code, ha.pointer⟩ hfrom htry
    exact hold x hx hcode hp hc
  cases hb with
  | stays hx =>
    rcases List.mem_cons.mp hx with rfl | hx
    · exact hkept a hmem ha.pointer _ _
    · have hx := mem_activations hs (List.mem_cons_of_mem _ hx)
      exact hkept b hx (h.executing b hx).pointer _ _
  | next hne =>
    refine hkept a hmem (h.next hl hsound hs ?_) _ _
    exact fun hopcode => hne (hreturn hopcode)
  | resumes hx =>
    have hp := h.waiting _ (List.mem_of_getElem? hs.activations) _ hx
    exact hkept _ (mem_activations hs (List.mem_cons_of_mem _ hx)) hp _ _
  | jumps =>
    cases hasks with
    | jump hstates hlabel haddress =>
      exact hkept a hmem (h.jump hl hsound hs (jumpLabel_link hlabel) haddress) _ _
  | catches hx hfrom htry =>
    rcases List.mem_cons.mp hx with rfl | hx
    · exact hcaught a hmem hfrom htry _ _
    · exact hcaught _ (mem_activations hs (List.mem_cons_of_mem _ hx)) hfrom htry _ _
  | returns hne =>
    obtain ⟨hcode, hp⟩ := (h.links _).returns hne
    rw [ha.code] at hcode
    obtain ⟨hpos, hlt, -⟩ := hbounds a hmem
    exact hold a hmem hcode hp (Nat.lt_trans (hl.older _ hpos) hlt) _ _
  | enters => exact hentered rfl _ _
  | async => exact hentered rfl _ _
  | other => exact hentered rfl _ _
  | constructs => exact hentered rfl _ _
  | loads => exact hentered rfl _ _

include hl hcodes hsound h hs in
theorem Kept.executing_step : ∀ b ∈ m'.activations, Inside m'.data (origins m'.data m.control a e.action origin) b := by
  intro b hb
  obtain ⟨others, hbefore, hafter⟩ := hs.others
  have hmem := hafter.mem_iff.mp hb
  rw [← List.append_assoc, List.mem_append, List.mem_append, or_right_comm, ← List.mem_append, ← hs.perform] at hmem
  rcases hmem with hmem | hother
  · exact h.arrives hl hcodes hsound hs (perform_arrives b hmem)
  · have hold : b ∈ m.activations := hbefore.mem_iff.mpr (List.mem_append_right _ hother)
    have hframe : (b.state, b.currentContext) ∈ frames m.activations := List.mem_map_of_mem hold
    exact inside_old hs (h.executing b hold).code (h.executing b hold).pointer (hl.context_lt _ hframe)
      (hl.state_lt _ hframe) _ _

include hl hsound h hs in
theorem Kept.waiting_step : ∀ list ∈ m'.threads, ∀ b ∈ list.tail,
    (origins m'.data m.control a e.action origin b.currentContext).Holds (b.instructionPtr + 1) := by
  have hold : ∀ b ∈ m.activations, (origin b.currentContext).Holds (b.instructionPtr + 1) →
      (origins m'.data m.control a e.action origin b.currentContext).Holds (b.instructionPtr + 1) := by
    intro b hb hp
    have hframe : (b.state, b.currentContext) ∈ frames m.activations := List.mem_map_of_mem hb
    rw [origins_old (hl.context_lt _ hframe)]
    exact hp
  have hbefore : ∀ list ∈ m.threads, ∀ b ∈ list.tail,
      (origins m'.data m.control a e.action origin b.currentContext).Holds (b.instructionPtr + 1) := by
    intro list hlist b hb
    exact hold b (List.mem_flatten.mpr ⟨list, hlist, List.mem_of_mem_tail hb⟩) (h.waiting list hlist b hb)
  intro list hlist b hb
  rw [hs.threads, List.mem_append] at hlist
  rcases hlist with hlist | hlist
  · rcases List.mem_or_eq_of_mem_set hlist with hlist | rfl
    · exact hbefore list hlist b hb
    · rw [← hs.perform] at hb
      rcases perform_below b hb with hrest | ⟨heq, hstart⟩
      · exact hbefore _ (List.mem_of_getElem? hs.activations) b hrest
      · have hreturn : i.opcode ≠ .RETURN := by
          intro hreturn
          rw [effect_return hs.effect hreturn] at hstart
          cases hstart
        rw [heq]
        exact hold a (mem_activations hs List.mem_cons_self) (h.next hl hsound hs hreturn)
  · obtain ⟨c, -, rfl⟩ := List.mem_map.mp hlist
    cases hb

omit [NumOps α] in
theorem entered_code {s : StateId} (hstart : e.action.starting m.control = some s) :
    (origins m'.data m.control a e.action origin m.control.nextContext).code = (m'.data.states s).byteStream := by
  obtain ⟨entry, hentry⟩ := Option.isSome_iff_exists.mp (entryOf_starting hstart)
  rw [origins_entered hentry, entering_of_starting hstart]

include hl hsound h hs in
theorem Kept.links_step (c : ContextId) :
    LeadsBack (origins m'.data m.control a e.action origin) c (m'.control.links c) := by
  have hmem := mem_activations hs List.mem_cons_self
  have ha := h.executing a hmem
  have hframe : (a.state, a.currentContext) ∈ frames m.activations := List.mem_map_of_mem hmem
  have hcurrent : origins m'.data m.control a e.action origin a.currentContext = origin a.currentContext :=
    origins_old (hl.context_lt _ hframe)
  have hsame : ∀ c, LeadsBack (origins m'.data m.control a e.action origin) c (m.control.links c) := by
    intro c
    by_cases hc : c = 0 ∨ m.control.nextContext ≤ c
    · rw [h.blank c hc]
      exact ⟨fun hne => absurd rfl hne, fun address haddress => absurd haddress List.not_mem_nil⟩
    · obtain ⟨hne, hlt⟩ := not_or.mp hc
      have hlt := Nat.not_le.mp hlt
      have horigin : origins m'.data m.control a e.action origin c = origin c := origins_old hlt
      constructor
      · intro hreturn
        rw [horigin, origins_old (Nat.lt_trans (hl.older c hne) hlt)]
        exact (h.links c).returns hreturn
      · rw [horigin]
        exact (h.links c).catches
  have hrelinks : Relinks m.control { a with objectToSearchOn := e.objectToSearchOn } e.action c
      (m'.control.links c) := by
    rw [hs.control, ← hs.perform]
    exact perform_relinks _ c
  have hasks := effect_asks hs.effect
  have hstates := hs.states
  have hnext : e.action ≠ .ret → (origin a.currentContext).Holds (a.instructionPtr + 1) :=
    fun hne => h.next hl hsound hs fun hreturn => hne (effect_return hs.effect hreturn)
  have hentered : ∀ {entry : ℕ}, entryOf e.action = some entry →
      origins m'.data m.control a e.action origin m.control.nextContext =
        ⟨(m'.data.states (e.action.entering m.control a)).byteStream, entry - 1⟩ := origins_entered
  generalize m'.control.links c = link at hrelinks ⊢
  generalize e.action = action at hrelinks hasks hcurrent hsame hnext hentered ⊢
  generalize e.data = d' at hasks hstates
  cases hrelinks with
  | same => exact hsame c
  | armed =>
    refine ⟨(hsame a.currentContext).returns, List.forall_mem_cons.mpr ⟨?_, (hsame a.currentContext).catches⟩⟩
    rw [hcurrent]
    cases hasks with
    | setCatch hi haddress => exact h.jump hl hsound hs (setCatch_link hi) haddress
  | cleared =>
    refine ⟨(hsame a.currentContext).returns, fun address haddress => ?_⟩
    exact (hsame a.currentContext).catches address (List.mem_of_mem_tail haddress)
  | enters =>
    refine ⟨fun _ => ⟨?_, ?_⟩, fun address haddress => absurd haddress List.not_mem_nil⟩
    · have hstream : d'.states a.state = m.data.states a.state :=
        states_old hasks (Nat.ne_of_lt (hl.state_lt _ hframe))
      rw [hcurrent, ha.code, hentered rfl, hstates, ← hstream]
      rfl
    · rw [hcurrent]
      exact hnext Action.noConfusion
  | starts hstart =>
    exact ⟨fun hne => absurd rfl hne, fun address haddress => absurd haddress List.not_mem_nil⟩

include hl h hs in
theorem Kept.current_step (s : StateId) (hne : (m'.control.states s).currentContext ≠ 0) :
    (origins m'.data m.control a e.action origin (m'.control.states s).currentContext).code =
      (m'.data.states s).byteStream := by
  have hmem := mem_activations hs List.mem_cons_self
  have ha := h.executing a hmem
  have hframe : (a.state, a.currentContext) ∈ frames m.activations := List.mem_map_of_mem hmem
  by_cases hstart : e.action.starting m.control = some s
  · rw [hs.control, ← hs.perform, entering_current hstart]
    exact entered_code hstart
  have hold : ∀ {c : ContextId}, c < m.control.nextContext → (origin c).code = (m.data.states s).byteStream →
      (origins m'.data m.control a e.action origin c).code = (m'.data.states s).byteStream := by
    intro c hc hcode
    rw [origins_old hc, hcode, hs.states, states_unstarted (effect_asks hs.effect) hstart]
  have htracked : Tracked m.control { a with objectToSearchOn := e.objectToSearchOn } e.action s
      (m'.control.states s).currentContext := by
    rw [hs.control, ← hs.perform]
    exact perform_tracked _ s
  have hentered : ∀ {entry : ℕ}, entryOf e.action = some entry →
      origins m'.data m.control a e.action origin m.control.nextContext =
        ⟨(m'.data.states (e.action.entering m.control a)).byteStream, entry - 1⟩ := origins_entered
  generalize (m'.control.states s).currentContext = c at htracked hne ⊢
  generalize e.action = action at htracked hold hentered hstart ⊢
  cases htracked with
  | same => exact hold (hl.current_lt s) (h.current s hne)
  | none => exact absurd rfl hne
  | own hown =>
    refine hold (hl.context_lt _ hframe) ?_
    rw [hown]
    exact ha.code
  | caught hfrom htry =>
    obtain ⟨hcode, -, hlt⟩ :=
      h.searched (a := { a with objectToSearchOn := e.objectToSearchOn }) ⟨ha.code, ha.pointer⟩ hfrom htry
    exact hold hlt hcode
  | enters =>
    rw [hentered rfl]
    rfl
  | starts h => exact absurd h hstart

include hl hcodes hsound h hs in
theorem Kept.step : Kept classes m' (origins m'.data m.control a e.action origin) := by
  have hnext : m'.control.nextContext = m.control.nextContext + (if e.action.enters then 1 else 0) := by
    rw [hs.control, ← hs.perform]
    exact perform_nextContext
  refine ⟨h.executing_step hl hcodes hsound hs, h.waiting_step hl hsound hs, h.links_step hl hsound hs,
    h.current_step hl hs, fun c hc hlt => ?_, fun c hc => ?_⟩
  · by_cases hold : c < m.control.nextContext
    · rw [origins_old hold]
      exact h.made c hc hold
    · rw [hnext, entryOf_enters] at hlt
      cases hentry : entryOf e.action with
      | none =>
        rw [hentry] at hlt
        exact absurd hlt hold
      | some entry =>
        rw [hentry] at hlt
        obtain rfl : c = m.control.nextContext :=
          Nat.le_antisymm (Nat.lt_succ_iff.mp hlt) (Nat.not_lt.mp hold)
        rw [origins_entered hentry]
        exact (entered_made hcodes hs hentry).2
  · have hold : c = 0 ∨ m.control.nextContext ≤ c := by
      refine hc.imp_right fun hle => ?_
      rw [hnext] at hle
      exact Nat.le_trans (Nat.le_add_right _ _) hle
    have hrelinks : Relinks m.control { a with objectToSearchOn := e.objectToSearchOn } e.action c
        (m'.control.links c) := by
      rw [hs.control, ← hs.perform]
      exact perform_relinks _ c
    have hframe : (a.state, a.currentContext) ∈ frames m.activations :=
      List.mem_map_of_mem (mem_activations hs List.mem_cons_self)
    have hcurrent : ¬(a.currentContext = 0 ∨ m.control.nextContext ≤ a.currentContext) :=
      not_or.mpr ⟨hl.context_pos _ hframe, Nat.not_le.mpr (hl.context_lt _ hframe)⟩
    have hfresh : e.action.enters = true → c ≠ m.control.nextContext := by
      rintro henters rfl
      rw [hnext, if_pos henters] at hc
      rcases hc with hzero | hle
      · exact absurd hzero (Nat.ne_of_gt hl.nextContext_pos)
      · exact absurd hle (Nat.not_succ_le_self _)
    generalize m'.control.links c = link at hrelinks ⊢
    generalize e.action = action at hrelinks hfresh
    cases hrelinks with
    | same => exact h.blank c hold
    | armed | cleared => exact absurd hold hcurrent
    | enters => exact absurd rfl (hfresh rfl)
    | starts hstart =>
      refine absurd rfl (hfresh ?_)
      rw [entryOf_enters]
      exact entryOf_starting hstart

end

omit [NumOps α] in
theorem boot_kept {className : String} {code : Code} {staticEntry entry : ℕ}
    (hsound : ∀ path code, classes path = some code → Sound code) (hcode : classes className = some code)
    (hboot : BootOf className code m staticEntry entry) :
    Kept classes m fun c => ⟨code, if c = 1 then entry - 1 else staticEntry - 1⟩ := by
  obtain ⟨symbols, hentry⟩ := hboot.entry
  obtain ⟨start, staticSymbols, hstatic⟩ := hboot.staticEntry
  obtain ⟨hpos, r0, r2, hframe⟩ := frameAt_made hentry
  obtain ⟨hstaticPos, r0', r2', hstaticFrame⟩ := frameAt_made hstatic
  obtain ⟨hstream, hstaticStream⟩ := hboot.streams
  have hclosed := (hsound _ _ hcode).closed _ _ hframe rfl
  have hwithin : Within code (entry - 1) entry := by
    have hfirst := hclosed.entry
    rwa [← hpos] at hfirst
  have hstaticWithin : Within code (staticEntry - 1) staticEntry := by
    have hfirst := ((hsound _ _ hcode).closed _ _ hstaticFrame rfl).entry
    rwa [← hstaticPos] at hfirst
  have hlinks : ∀ c, m.control.links c = {} := by
    intro c
    rw [hboot.control]
    simp [ControlState.start]
  refine ⟨?_, ?_, ?_, ?_, ?_, fun c _ => hlinks c⟩
  · unfold Machine.activations
    rw [hboot.threads, List.flatten_singleton]
    refine List.forall_mem_cons.mpr ⟨⟨hstaticStream.symm, hstaticWithin⟩, ?_⟩
    refine List.forall_mem_cons.mpr ⟨?_, List.forall_mem_nil _⟩
    exact ⟨hstream.symm, hwithin⟩
  · rw [hboot.threads]
    refine List.forall_mem_cons.mpr
      ⟨List.forall_mem_cons.mpr ⟨?_, List.forall_mem_nil _⟩, List.forall_mem_nil _⟩
    obtain ⟨i, hi, hopcode⟩ := (hsound _ _ hcode).starts _ _ hentry
    refine hclosed.next hwithin hi ?_
    rw [hopcode]
    exact Opcode.noConfusion
  · intro c
    rw [hlinks]
    exact ⟨fun hne => absurd rfl hne, fun address haddress => absurd haddress List.not_mem_nil⟩
  · intro s hne
    rw [hboot.control] at hne
    simp only [ControlState.start, Function.update_apply] at hne
    by_cases hone : s = 1
    · rw [hone]
      exact hstaticStream.symm
    · rw [if_neg hone] at hne
      by_cases hzero : s = 0
      · rw [hzero]
        exact hstream.symm
      · rw [if_neg hzero] at hne
        exact absurd rfl hne
  · intro c hc hlt
    rw [hboot.control] at hlt
    refine ⟨⟨className, hcode⟩, ?_⟩
    by_cases hone : c = 1
    · rw [if_pos hone]
      exact ⟨r0, symbols, r2, hframe⟩
    · rw [if_neg hone]
      exact ⟨r0', staticSymbols, r2', hstaticFrame⟩

theorem Traced.reachable (h : Traced classes m origin) : m.Reachable classes := by
  induction h with
  | boot hcode hboot hentries => exact ⟨_, _, _, _, hcode, hboot, .refl⟩
  | step h hstep ih => exact ih.step hstep.step

theorem reachable_traced (h : m.Reachable classes) : ∃ origin, Traced classes m origin := by
  obtain ⟨className, code, input, m₀, hcode, hboot, hpath⟩ := h
  induction hpath with
  | refl =>
    obtain ⟨staticEntry, entry, hentries⟩ := boot_of hboot
    exact ⟨_, .boot hcode hboot hentries⟩
  | tail _ hstep ih =>
    obtain ⟨thread, hstep⟩ := hstep
    obtain ⟨origin, h⟩ := ih
    obtain ⟨a, rest, i, e, outcome, hs⟩ := Machine.step_cases hstep
    exact ⟨_, .step h hs⟩

theorem traced_kept (hsound : ∀ path code, classes path = some code → Sound code) (h : Traced classes m origin) :
    Kept classes m origin := by
  induction h with
  | boot hcode hboot hentries => exact boot_kept hsound hcode hentries
  | step h hstep ih =>
    have hreach := h.reachable
    exact ih.step (reachable_linked hreach) (reachable_codes (hreach.step hstep.step)) hsound hstep

/-- In every run of a program, and in every activation of every thread, executing or waiting for a call, the
next instruction is one of the body behind the `FFRAME` that made its context, and no instruction of that body
names a register outside of the frame. -/
theorem control_stays {fuel : ℕ} {program : List ClassDeclaration} {m : Machine α}
    (hidents : ∀ cls ∈ program, ∀ g ∈ functionsOf cls, IsIdentifier g.2)
    (hcount : ∀ cls ∈ program, ∀ t marks, outlineClass fuel cls {} = .ok ((), t, marks) → t.labelCount < 2 ^ 31)
    (h : Traced (imagesOf fuel program) m origin) {b : Activation} (hb : b ∈ m.activations) :
    ∃ frame i, (origin b.currentContext).code[(origin b.currentContext).position]? = some frame ∧
      frame.opcode = .FFRAME ∧ m.fetch b = some i ∧
      Within (origin b.currentContext).code (origin b.currentContext).position b.instructionPtr ∧
      i ∈ bodyAt (origin b.currentContext).code (origin b.currentContext).position ∧ Fits frame.r0.reg i := by
  have hsound : ∀ path code, imagesOf fuel program path = some code → Sound code :=
    fun path code hcode => imagesOf_sound hidents hcount hcode
  have hkept := traced_kept hsound h
  have hl := reachable_linked h.reachable
  have hframe : (b.state, b.currentContext) ∈ frames m.activations := List.mem_map_of_mem hb
  obtain ⟨path, hpath⟩ := (hkept.made _ (hl.context_pos _ hframe) (hl.context_lt _ hframe)).code
  obtain ⟨r0, table, r2, hat⟩ := (hkept.made _ (hl.context_pos _ hframe) (hl.context_lt _ hframe)).frame
  obtain ⟨hcode, hwithin⟩ := hkept.executing b hb
  obtain ⟨i, hi⟩ := hwithin.fetch
  have hbody := hwithin.mem hi
  refine ⟨_, i, hat, rfl, ?_, hwithin, hbody, ?_⟩
  · unfold Machine.fetch
    rw [← hcode]
    exact hi
  · exact ((hsound path _ hpath).closed _ _ hat rfl).fits i hbody

end

end

/-- `class Safe { fun f(x) { try { throw x; } catch (e) { return e; } } }` and `class Main { var s = Safe();
s.f(1); }`. -/
def sampleProgram : List ClassDeclaration :=
  let constructor : Stmt := .function true false false "__static__constructor__" [] []
  [⟨"Main", [], [.var "s" (.methodCall (.ident "Safe") []) false false,
      .eval (.methodCall (.binary .dot (.ident "s") (.str "f")) [.num "1"]), constructor], []⟩,
    ⟨"Safe", [], [.function false false false "f" ["x"]
      [.tryCatch "e" [.eval (.prefixed .throwing (.ident "x"))] [.ret (.ident "e")] none], constructor], []⟩]

theorem sampleProgram_identifiers : ∀ cls ∈ sampleProgram, ∀ g ∈ functionsOf cls, IsIdentifier g.2 := by
  decide +kernel

theorem sampleProgram_labels : ∀ cls ∈ sampleProgram, ∀ t marks,
    outlineClass 9 cls {} = .ok ((), t, marks) → t.labelCount < 2 ^ 31 := by
  have hcount : ∀ cls ∈ sampleProgram, labelsOf 9 cls < 2 ^ 31 := by decide +kernel
  exact fun cls hcls => labelsOf_lt (hcount cls hcls)

theorem sampleProgram_handles : ∃ (m : Machine ℚ) (origin : ContextId → Origin),
    Traced (imagesOf 9 sampleProgram) m origin ∧ m.activations.length = 2 := by
  have hrun : (runUpTo (α := ℚ) 9 sampleProgram 24).map
      (fun p => (p.1.activations.length, p.2.2.2.opcode)) = some (2, .POP) := by decide +kernel
  obtain ⟨⟨m, a, rest, i⟩, hm, hp⟩ := Option.map_eq_some_iff.mp hrun
  obtain ⟨hlength, -⟩ := Prod.mk.inj hp
  obtain ⟨hreach, -, -⟩ := runUpTo_reachable hm
  obtain ⟨origin, htraced⟩ := reachable_traced hreach
  exact ⟨m, origin, htraced, hlength⟩

theorem handler_stays : ∃ (m : Machine ℚ) (origin : ContextId → Origin),
    Traced (imagesOf 9 sampleProgram) m origin ∧ m.activations.length = 2 ∧
    ∀ b ∈ m.activations, ∃ frame i,
      (origin b.currentContext).code[(origin b.currentContext).position]? = some frame ∧
      frame.opcode = .FFRAME ∧ m.fetch b = some i ∧
      Within (origin b.currentContext).code (origin b.currentContext).position b.instructionPtr ∧
      i ∈ bodyAt (origin b.currentContext).code (origin b.currentContext).position ∧ Fits frame.r0.reg i := by
  obtain ⟨m, origin, htraced, hlength⟩ := sampleProgram_handles
  exact ⟨m, origin, htraced, hlength, fun b hb =>
    control_stays sampleProgram_identifiers sampleProgram_labels htraced hb⟩

end Zeroscript.ControlIntegrity
