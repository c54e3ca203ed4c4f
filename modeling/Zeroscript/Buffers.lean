import Zeroscript.LiveObjects
import Zeroscript.Uncaught

/-! # Character buffers

Every operation that makes a string copies the characters, but for one: an exception that finds a
handler in the state that throws it has the characters of the string that was thrown. -/
namespace Zeroscript.Buffers

open ObjectsList LiveObjects
open Relation (ReflTransGen)

section

variable {α : Type}

def IsString (m : Machine α) (address : Addr) : Prop :=
  0 < address ∧ ∃ text cache, m.data.objects[address - 1]? = some (.string text cache)

variable [NumOps α]

/-- The instruction throws the string `x`, and there is an active `try` of its own state: the exception is
the object `y`. -/
def Throws : Event α → Addr → Addr → Prop
  | .ran m a i, x, y =>
    i.opcode = .THROW_EXCEPTION ∧ IsString m x ∧
      (m.data.regs a.currentContext i.r0.reg).type ≠ .number ∧
      (m.data.regs a.currentContext i.r0.reg).val = .raw x ∧
      (∃ c address, InnermostTry m.control.links a.currentContext c address) ∧
      y = m.data.objects.length + 1
  | .collected _ _, _, _ => False

def MadeOf (events : List (Event α)) : Addr → Addr → Prop :=
  ReflTransGen fun x y => ∃ event ∈ events, Throws event x y

variable {classes : String → Option Code} {m m' : Machine α} {g g' : Collector} {thread : ℕ}
  {a : Activation} {rest : List Activation} {i : Instruction} {e : Effect α} {outcome : Outcome}
  {events : List (Event α)}

omit [NumOps α] in
theorem endRuns_buffers (g : Collector) (ended : List (StateId × Resume)) :
    (ended.foldl Collector.endRun g).buffers = g.buffers ∧
      (ended.foldl Collector.endRun g).freedBuffers = g.freedBuffers := by
  induction ended generalizing g with
  | nil => exact ⟨rfl, rfl⟩
  | cons head ended ih =>
    have hhead : (g.endRun head).buffers = g.buffers ∧
        (g.endRun head).freedBuffers = g.freedBuffers := by
      unfold Collector.endRun
      split
      · split <;> exact ⟨rfl, rfl⟩
      all_goals exact ⟨rfl, rfl⟩
    exact ⟨(ih _).1.trans hhead.1, (ih _).2.trans hhead.2⟩

theorem addRoot_buffers (g : Collector) (k : ControlState) (action : Action) :
    (g.addRoot k action).buffers = g.buffers ∧
      (g.addRoot k action).freedBuffers = g.freedBuffers := by
  unfold Collector.addRoot
  split <;> exact ⟨rfl, rfl⟩

theorem throwString_freedBuffers (g : Collector) (d : Data α) (a : Activation) (i : Instruction)
    (outcome : Outcome) (action : Action) :
    (g.throwString d a i outcome action).freedBuffers = g.freedBuffers := by
  unfold Collector.throwString
  split
  · dsimp only
    split
    · rfl
    · split <;> rfl
    · rfl
  · rfl

theorem step_buffers (g : Collector) (m : Machine α) (a : Activation) (i : Instruction)
    (e : Effect α) (outcome : Outcome) :
    (∃ g₀ : Collector, g₀.buffers = g.buffers ∧ (g.step m a i e outcome).buffers =
      (g₀.throwString m.data a i outcome e.action).buffers) ∧
      (g.step m a i e outcome).freedBuffers = g.freedBuffers := by
  unfold Collector.step
  dsimp only
  rw [(endRuns_buffers _ _).1, (endRuns_buffers _ _).2, throwString_freedBuffers,
    (addRoot_buffers ..).2]
  constructor
  · refine ⟨_, ?_, rfl⟩
    rw [(addRoot_buffers ..).1]
    split <;> rfl
  · split <;> rfl

theorem throw_effect {d : Data α} {k : ControlState} (hi : i.opcode = .THROW_EXCEPTION)
    (h : effect classes d k a rest i = some e) :
    (∃ message, e.action = .throwing message) ∧ e.data = d := by
  obtain ⟨opcode, r0, r1, r2⟩ := i
  cases hi
  obtain ⟨message, -, h⟩ := Option.bind_eq_some_iff.mp h
  cases h
  exact ⟨⟨message, rfl⟩, rfl⟩

omit [NumOps α] in
/-- A handler is left behind in a state that the exception leaves. -/
theorem raise_broken {k : ControlState} {message : String} {activations : List Activation} {s : StateId}
    (h : s ∈ (k.raise message activations).broken) :
    (∃ p ∈ (k.raise message activations).left, p.1 = s) ∧ ∃ f ∈ frames activations, f.1 = s := by
  induction activations generalizing k with
  | nil => cases h
  | cons a rest ih =>
    have hown : s ∈ k.brokenOff a.state → s = a.state := by
      intro hs
      unfold ControlState.brokenOff at hs
      split at hs
      · exact List.mem_singleton.mp hs
      · cases hs
    rw [ControlState.raise] at h ⊢
    split at h
    · cases h
    · rename_i hnone
      dsimp only
      split at h
      · rename_i register hresume
        simp only [hresume]
        rcases List.mem_append.mp h with hs | hs
        · obtain rfl := hown hs
          exact ⟨⟨_, List.mem_cons_self, rfl⟩, _, List.mem_cons_self, rfl⟩
        · obtain ⟨⟨p, hp, heq⟩, f, hf, hfs⟩ := ih hs
          exact ⟨⟨p, List.mem_cons_of_mem _ hp, heq⟩, f, List.mem_cons_of_mem _ hf, hfs⟩
      · obtain rfl := hown h
        exact ⟨⟨_, List.mem_singleton_self _, rfl⟩, _, List.mem_cons_self, rfl⟩

omit [NumOps α] in
theorem raise_searched {k : ControlState} {fs : List (StateId × ContextId)} (message : String)
    (a : Activation) (rest : List Activation) (hl : Linked k (frames (a :: rest) ++ fs)) :
    (((k.raise message (a :: rest)).left = [] ∧ (k.raise message (a :: rest)).caughtBy.isSome = true) ∨
        a.state ∈ (k.raise message (a :: rest)).broken) ↔ (k.handler a.state).isSome = true := by
  have hbrokenOff : a.state ∈ k.brokenOff a.state ↔ (k.handler a.state).isSome = true := by
    unfold ControlState.brokenOff
    split <;> simp_all
  have hrest : ∀ k' : ControlState, a.state ∉ (k'.raise message rest).broken := by
    intro k' hmem
    obtain ⟨-, f, hf, hs⟩ := raise_broken hmem
    exact hl.ne_head (List.mem_append_left fs hf) hs
  rw [ControlState.raise]
  split
  · rename_i c address hcatcher
    rw [(ControlState.catcher_some hcatcher).1]
    exact iff_of_true (Or.inl ⟨rfl, rfl⟩) rfl
  · split
    · simp [hbrokenOff, hrest]
    · simp [hbrokenOff]

theorem throw_caught (hl : Linked m.control (frames m.activations))
    (hstep : StepOf classes m m' thread a rest i e outcome) {message : String}
    (haction : e.action = .throwing message) :
    ((outcome.left = [] ∧ outcome.caughtBy.isSome = true) ∨ a.state ∈ outcome.broken) ↔
      ∃ c address, InnermostTry m.control.links a.currentContext c address := by
  obtain ⟨others, hbefore, -⟩ := hstep.others
  have hframes : Linked m.control (frames (a :: rest) ++ frames others) := by
    refine hl.perm ?_
    rw [← frames_append]
    exact (hbefore.map fun a => (a.state, a.currentContext)).symm
  have hset : Linked (m.control.setState a.state
      { m.control.states a.state with currentContext := a.currentContext })
      (frames (a :: rest) ++ frames others) :=
    hframes.setState rfl (hframes.context_lt _ List.mem_cons_self)
  have hperform := hstep.perform
  rw [haction] at hperform
  have hsearched := raise_searched message { a with objectToSearchOn := e.objectToSearchOn } rest hset
  rw [← hperform]
  refine hsearched.trans ?_
  rw [Option.isSome_iff_exists, Prod.exists]
  refine exists_congr fun c => exists_congr fun address => ?_
  rw [Uncaught.handler_iff hset]
  simp [ControlState.setState]

theorem buffers_step (hl : Linked m.control (frames m.activations))
    (hstep : StepOf classes m m' thread a rest i e outcome) :
    (∀ x y, Throws (.ran m a i) x y →
      (g.step m a i e outcome).buffers = Function.update g.buffers y (g.buffers x) ∧ IsString m' y) ∧
      ((∀ x y, ¬Throws (.ran m a i) x y) → (g.step m a i e outcome).buffers = g.buffers) := by
  obtain ⟨⟨g₀, hg₀, hbuffers⟩, -⟩ := step_buffers g m a i e outcome
  obtain ⟨texts, hobjects, htexts⟩ := hstep.objects
  constructor
  · rintro x y ⟨hi, ⟨hpos, text, cache, ho⟩, hnumber, hval, htry, rfl⟩
    obtain ⟨⟨message, haction⟩, hdata⟩ := throw_effect hi hstep.effect
    have hcaught := (throw_caught hl hstep haction).mpr htry
    have hobject : m.data.object (m.data.regs a.currentContext i.r0.reg) =
        some (.string text cache) := by
      unfold Data.object
      rw [hval]
      obtain ⟨address, rfl⟩ := Nat.exists_eq_succ_of_ne_zero (Nat.ne_of_gt hpos)
      exact ho
    refine ⟨?_, Nat.succ_pos _, ?_⟩
    · rw [hbuffers, haction]
      unfold Collector.throwString
      dsimp only
      split
      · rename_i htype
        exact absurd htype hnumber
      · rename_i address text' cache' hval' ho' _
        rw [hval] at hval'
        cases hval'
        rw [if_pos hcaught, hg₀]
      · rename_i hother
        exact (hother x text cache hval hobject).elim
    · -- the first of the strings that the exception makes
      have hmakes : texts ≠ [] := by
        intro hnil
        obtain ⟨hnone, hleft⟩ := htexts.mp hnil
        rcases hcaught with ⟨-, hsome⟩ | hbroken
        · rw [hnone] at hsome
          cases hsome
        · have hperform := hstep.perform
          rw [haction] at hperform
          rw [← hperform] at hbroken hleft
          obtain ⟨⟨p, hp, heq⟩, -⟩ := raise_broken hbroken
          exact hleft p hp (heq ▸ hbroken)
      obtain ⟨message', texts', rfl⟩ := List.exists_cons_of_ne_nil hmakes
      refine ⟨message', 0, ?_⟩
      rw [hobjects, hdata, Nat.add_sub_cancel, List.getElem?_append_right (le_refl _), Nat.sub_self]
      rfl
  · intro hno
    rw [hbuffers]
    unfold Collector.throwString
    split
    · rename_i message haction
      have hi : i.opcode = .THROW_EXCEPTION := by
        have hasks := effect_asks hstep.effect
        rw [haction] at hasks
        generalize e.data = d' at hasks
        cases hasks with
        | throwing hi => exact hi
      dsimp only
      split
      · exact hg₀
      · rename_i address text cache hval ho hnumber
        split
        · rename_i hcaught
          have htry := (throw_caught hl hstep haction).mp hcaught
          unfold Data.object at ho
          rw [hval] at ho
          cases address with
          | zero => cases ho
          | succ address =>
            have hstring : IsString m (address + 1) := ⟨Nat.succ_pos _, text, cache, ho⟩
            exact (hno (address + 1) _ ⟨hi, hstring, hnumber, hval, htry, rfl⟩).elim
        · exact hg₀
      · exact hg₀
    · exact hg₀

/-- The exception `y` made of the string `x` is an object that no list ever has. -/
structure Exception (m : Machine α) (g : Collector) (x y : Addr) : Prop where
  same : g.buffers y = g.buffers x
  newer : x < y
  allocated : y ≤ m.data.objects.length
  unlisted : .node (.object y) ∉ g.objectsList
  unfreed : .object y ∉ g.freed
  thrown : IsString m x

structure Shares (events : List (Event α)) (m : Machine α) (g : Collector) : Prop where
  exception : ∀ event ∈ events, ∀ x y, Throws event x y → Exception m g x y
  own : ∀ y, (∀ event ∈ events, ∀ x, ¬Throws event x y) → g.buffers y = y
  madeOf : ∀ y, MadeOf events (g.buffers y) y
  freed : ∀ b, b ∈ g.freedBuffers ↔ .object b ∈ g.freed ∧ IsString m b

theorem IsString.step {y : Addr} (h : IsString m y)
    (hstep : StepOf classes m m' thread a rest i e outcome) : IsString m' y := by
  obtain ⟨hpos, text, cache, ho⟩ := h
  obtain ⟨o', ho', hkept⟩ := hstep.grows.kept _ _ ho
  obtain ⟨cache', rfl⟩ := hkept
  exact ⟨hpos, text, cache', ho'⟩

theorem IsString.of_step {y : Addr} (h : IsString m' y)
    (hstep : StepOf classes m m' thread a rest i e outcome) (hy : y ≤ m.data.objects.length) :
    IsString m y := by
  obtain ⟨hpos, text, cache, ho⟩ := h
  have hlt : y - 1 < m.data.objects.length := Nat.lt_of_lt_of_le (Nat.pred_lt (Nat.ne_of_gt hpos)) hy
  obtain ⟨o', ho', hkept⟩ := hstep.grows.kept (y - 1) _ (List.getElem?_eq_getElem hlt)
  rw [ho] at ho'
  cases ho'
  refine ⟨hpos, ?_⟩
  rw [List.getElem?_eq_getElem hlt]
  generalize m.data.objects[y - 1] = o at hkept
  cases o with
  | json =>
    obtain ⟨_, _, heq⟩ := hkept
    cases heq
  | string text' cache' => exact ⟨text', cache', rfl⟩
  | functionRef | instanceObject | classRef => cases hkept

theorem MadeOf.more {x y : Addr} (h : MadeOf events x y) (event : Event α) :
    MadeOf (event :: events) x y := by
  have hmore : ∀ u v, (∃ event ∈ events, Throws event u v) →
      ∃ event' ∈ event :: events, Throws event' u v :=
    fun u v ⟨event', hmem, hthrows⟩ => ⟨event', List.mem_cons_of_mem _ hmem, hthrows⟩
  exact ReflTransGen.mono hmore _ _ h

omit [NumOps α] in
theorem IsString.le {y : Addr} (h : IsString m y) : y ≤ m.data.objects.length := by
  obtain ⟨-, text, cache, ho⟩ := h
  obtain ⟨hlt, -⟩ := List.getElem?_eq_some_iff.mp ho
  exact Nat.le_of_pred_lt hlt

theorem throw_unlisted {nodes : List Node} {x y : Addr} (hlisted : Listed m g nodes)
    (hstep : StepOf classes m m' thread a rest i e outcome) (h : Throws (.ran m a i) x y) :
    .node (.object y) ∉ (g.step m a i e outcome).objectsList := by
  obtain ⟨hi, -, -, -, -, rfl⟩ := h
  obtain ⟨⟨message, haction⟩, -⟩ := throw_effect hi hstep.effect
  have hadded : added m a i e = [] := by
    unfold added addedObjects
    simp [hi, haction, Action.entered]
  rw [(step_lists g m a i e outcome).1, hadded, List.append_nil, hlisted.mem_list]
  intro hmem
  exact absurd (hlisted.allocated _ (List.mem_append_left _ hmem)).2 (Nat.not_succ_le_self _)

theorem Shares.step {nodes : List Node} (h : Shares events m g)
    (hl : Linked m.control (frames m.activations)) (hlisted : Listed m g nodes)
    (hstep : StepOf classes m m' thread a rest i e outcome) (hcopies : ¬CopiesString m a i) :
    Shares (.ran m a i :: events) m' (g.step m a i e outcome) := by
  obtain ⟨hthrow, hquiet⟩ := buffers_step (g := g) hl hstep
  -- the buffers of the objects that are there stay
  have hbuffers : ∀ y ≤ m.data.objects.length, (g.step m a i e outcome).buffers y = g.buffers y := by
    intro y hy
    by_cases hthrows : ∃ x₀ y₀, Throws (.ran m a i) x₀ y₀
    · obtain ⟨x₀, y₀, hthrows⟩ := hthrows
      have hy₀ := hthrows.2.2.2.2.2
      rw [(hthrow x₀ y₀ hthrows).1, Function.update_of_ne]
      rintro rfl
      rw [hy₀] at hy
      exact absurd hy (Nat.not_succ_le_self _)
    · rw [hquiet fun x y hxy => hthrows ⟨x, y, hxy⟩]
  have hlength : m.data.objects.length ≤ m'.data.objects.length := hstep.grows.length
  constructor
  · intro event hevent x y hthrows
    rcases List.mem_cons.mp hevent with rfl | hevent
    · obtain ⟨hupdate, hmade⟩ := hthrow x y hthrows
      have hx : x ≤ m.data.objects.length := hthrows.2.1.le
      have hxy : x < y := by
        rw [hthrows.2.2.2.2.2]
        exact Nat.lt_succ_of_le hx
      refine ⟨?_, hxy, hmade.le, throw_unlisted hlisted hstep hthrows, ?_,
        hthrows.2.1.step hstep⟩
      · rw [hbuffers x hx, hupdate, Function.update_self]
      · rw [(step_lists g m a i e outcome).2, hthrows.2.2.2.2.2]
        intro hmem
        have hallocated := hlisted.allocated _ (List.mem_append_right _ hmem)
        exact absurd hallocated.2 (Nat.not_succ_le_self _)
    · have hold := h.exception event hevent x y hthrows
      have hx := le_trans (le_of_lt hold.newer) hold.allocated
      refine ⟨?_, hold.newer, le_trans hold.allocated hlength, ?_, ?_, hold.thrown.step hstep⟩
      · rw [hbuffers y hold.allocated, hbuffers x hx, hold.same]
      · exact unlisted_step hstep hcopies hlisted.context
          ⟨Nat.zero_lt_of_lt hold.newer, hold.allocated⟩ hold.unlisted
      · rw [(step_lists g m a i e outcome).2]
        exact hold.unfreed
  · intro y hno
    have hold : g.buffers y = y :=
      h.own y fun event hevent => hno event (List.mem_cons_of_mem _ hevent)
    by_cases hthrows : ∃ x₀ y₀, Throws (.ran m a i) x₀ y₀
    · obtain ⟨x₀, y₀, hthrows⟩ := hthrows
      rw [(hthrow x₀ y₀ hthrows).1, Function.update_of_ne, hold]
      rintro rfl
      exact hno _ List.mem_cons_self x₀ hthrows
    · rw [hquiet fun x y hxy => hthrows ⟨x, y, hxy⟩, hold]
  · intro y
    by_cases hthrows : ∃ x₀, Throws (.ran m a i) x₀ y
    · obtain ⟨x₀, hthrows⟩ := hthrows
      rw [(hthrow x₀ y hthrows).1, Function.update_self]
      exact ((h.madeOf x₀).more _).tail ⟨_, List.mem_cons_self, hthrows⟩
    · have hsame : (g.step m a i e outcome).buffers y = g.buffers y := by
        by_cases hany : ∃ x₀ y₀, Throws (.ran m a i) x₀ y₀
        · obtain ⟨x₀, y₀, hany⟩ := hany
          rw [(hthrow x₀ y₀ hany).1, Function.update_of_ne]
          rintro rfl
          exact hthrows ⟨x₀, hany⟩
        · rw [hquiet fun x y hxy => hany ⟨x, y, hxy⟩]
      rw [hsame]
      exact (h.madeOf y).more _
  · intro b
    rw [(step_buffers g m a i e outcome).2, (step_lists g m a i e outcome).2, h.freed]
    constructor
    · exact fun ⟨hfreed, hstring⟩ => ⟨hfreed, hstring.step hstep⟩
    · rintro ⟨hfreed, hstring⟩
      exact ⟨hfreed, hstring.of_step hstep
        (hlisted.allocated _ (List.mem_append_right _ hfreed)).2⟩

theorem Shares.collect {nodes : List Node} (h : Shares events m g) (hlisted : Listed m g nodes)
    (hcollect : g.collect m = some g') : Shares (.collected m g :: events) m g' := by
  -- what is in the list is no exception, and has a buffer of its own
  have hown : ∀ x, .object x ∈ nodes → g.buffers x = x := by
    intro x hx
    refine h.own x fun event hevent y hthrows => ?_
    exact (h.exception event hevent y x hthrows).unlisted ((hlisted.mem_list _).mpr hx)
  have hbuffer : ∀ n ∈ nodes, ∀ b, m.data.bufferOf g.buffers n = some b ↔
      n = .object b ∧ IsString m b := by
    intro n hn b
    unfold Data.bufferOf
    cases n with
    | context c => simp
    | object x =>
      have hpos : 0 < x := (hlisted.allocated _ (List.mem_append_left _ hn)).1
      dsimp only
      split
      · rename_i text cache ho
        rw [hown x hn]
        constructor
        · intro heq
          cases heq
          exact ⟨rfl, hpos, text, cache, ho⟩
        · rintro ⟨heq, -⟩
          cases heq
          rfl
      · rename_i hother
        constructor
        · exact nofun
        · rintro ⟨heq, -, text, cache, ho⟩
          cases heq
          exact (hother text cache ho).elim
  have hfreed := hlisted.mem_freed hcollect
  have hold : ∀ event ∈ Event.collected m g :: events, ∀ x y, Throws event x y →
      ∃ event' ∈ events, Throws event' x y := by
    intro event hevent x y hthrows
    rcases List.mem_cons.mp hevent with rfl | hevent
    · exact hthrows.elim
    · exact ⟨event, hevent, hthrows⟩
  have hcollected := hcollect
  rw [hlisted.collected] at hcollected
  cases hcollected
  constructor
  · intro event hevent x y hthrows
    obtain ⟨event', hevent', hthrows'⟩ := hold event hevent x y hthrows
    have hexception := h.exception event' hevent' x y hthrows'
    have hnodes : .object y ∉ nodes := fun hn => hexception.unlisted ((hlisted.mem_list _).mpr hn)
    refine ⟨hexception.same, hexception.newer, hexception.allocated, fun hmem => ?_, ?_,
      hexception.thrown⟩
    · obtain ⟨n, hn, heq⟩ := List.mem_map.mp hmem
      cases heq
      exact hnodes (List.mem_of_mem_filter hn)
    · rw [hfreed]
      rintro (hold | ⟨hn, -⟩)
      · exact hexception.unfreed hold
      · exact hnodes hn
  · intro y hno
    exact h.own y fun event hevent => hno event (List.mem_cons_of_mem _ hevent)
  · exact fun y => (h.madeOf y).more _
  · intro b
    rw [hfreed]
    dsimp only
    rw [List.mem_append, h.freed, List.mem_filterMap]
    constructor
    · rintro (⟨hold, hstring⟩ | ⟨n, hn, hb⟩)
      · exact ⟨Or.inl hold, hstring⟩
      · obtain ⟨hn, hunmarked⟩ := List.mem_filter.mp hn
        obtain ⟨rfl, hstring⟩ := (hbuffer n hn b).mp hb
        exact ⟨Or.inr ⟨hn, by simpa [marked_iff] using hunmarked⟩, hstring⟩
    · rintro ⟨hold | ⟨hn, hunreached⟩, hstring⟩
      · exact Or.inl ⟨hold, hstring⟩
      · refine Or.inr ⟨.object b, List.mem_filter.mpr ⟨hn, ?_⟩, (hbuffer _ hn b).mpr ⟨rfl, hstring⟩⟩
        simpa [marked_iff] using hunreached

theorem collected_shares (h : Collected classes events m g)
    (hcopies : ∀ event ∈ events, ¬Event.copiesString event) : Shares events m g := by
  induction h with
  | boot =>
    refine ⟨fun event hevent => absurd hevent List.not_mem_nil, fun y _ => rfl,
      fun y => ReflTransGen.refl, fun b => ?_⟩
    constructor
    · exact fun hb => absurd hb List.not_mem_nil
    · exact fun hb => absurd hb.1 List.not_mem_nil
  | step h hstep ih =>
    have hold := fun event hevent => hcopies event (List.mem_cons_of_mem _ hevent)
    obtain ⟨nodes, hlisted⟩ := collected_listed h hold
    exact (ih hold).step (reachable_linked h.reachable) hlisted hstep (hcopies _ List.mem_cons_self)
  | collect h hcollect ih =>
    have hold := fun event hevent => hcopies event (List.mem_cons_of_mem _ hevent)
    obtain ⟨nodes, hlisted⟩ := collected_listed h hold
    exact (ih hold).collect hlisted hcollect

theorem Shares.buffer_iff (h : Shares events m g)
    (hfreed : ∀ n, n ∈ g.freed ↔ ∃ m₀ g₀, .collected m₀ g₀ ∈ events ∧ .node n ∈ g₀.objectsList ∧
      ¬Reached m₀ g₀ n) {y : Addr} (hy : IsString m y) :
    g.buffers y ∉ g.freedBuffers ↔ ∀ x, MadeOf events x y → ∀ m₀ g₀,
      .collected m₀ g₀ ∈ events → .node (.object x) ∈ g₀.objectsList →
      Reached m₀ g₀ (.object x) := by
  have hsame : ∀ x, MadeOf events x y → g.buffers x = g.buffers y ∧ IsString m x := by
    intro x hx
    induction hx using ReflTransGen.head_induction_on with
    | refl => exact ⟨rfl, hy⟩
    | head hthrows _ ih =>
      obtain ⟨event, hevent, hthrows⟩ := hthrows
      have hexception := h.exception event hevent _ _ hthrows
      exact ⟨hexception.same.symm.trans ih.1, hexception.thrown⟩
  constructor
  · intro hbuffer x hx m₀ g₀ hmem hlist
    by_contra hunreached
    have hxfreed : .object x ∈ g.freed := (hfreed _).mpr ⟨m₀, g₀, hmem, hlist, hunreached⟩
    -- a freed string is no exception
    have hown : g.buffers x = x := by
      refine h.own x fun event hevent x' hthrows => ?_
      exact (h.exception event hevent x' x hthrows).unfreed hxfreed
    obtain ⟨hxy, hstring⟩ := hsame x hx
    refine hbuffer ((h.freed _).mpr ?_)
    rw [← hxy, hown]
    exact ⟨hxfreed, hstring⟩
  · intro hall hmem
    obtain ⟨hbfreed, -⟩ := (h.freed _).mp hmem
    obtain ⟨m₀, g₀, hcollected, hlist, hunreached⟩ := (hfreed _).mp hbfreed
    exact hunreached (hall _ (h.madeOf y) m₀ g₀ hcollected hlist)

/-- In every run and after every collection: no string that the program can load has lost its buffer,
just when this and all earlier collections have reached every string in the list that such a string
is made of. -/
theorem buffers_kept_iff (h : Collected classes events m g) (hcollect : g.collect m = some g') :
    (∀ y, Accessible m g'.localsCount (.node (.object y)) → IsString m y →
      g'.buffers y ∉ g'.freedBuffers) ↔
      ∀ y, Accessible m g'.localsCount (.node (.object y)) → IsString m y → ∀ x, MadeOf events x y →
        ∀ m₀ g₀, .collected m₀ g₀ ∈ Event.collected m g :: events →
          .node (.object x) ∈ g₀.objectsList → Reached m₀ g₀ (.object x) := by
  have hcollected : Collected classes (.collected m g :: events) m g' := .collect h hcollect
  have hcopies : ∀ event ∈ Event.collected m g :: events, ¬Event.copiesString event := by
    intro event hevent
    rcases List.mem_cons.mp hevent with rfl | hevent
    · exact id
    · exact collected_copies h hcollect event hevent
  have hshares := collected_shares hcollected hcopies
  have hmade : ∀ x y, MadeOf (.collected m g :: events) x y ↔ MadeOf events x y := by
    intro x y
    unfold MadeOf
    simp [Throws]
  have hiff := fun y hy => hshares.buffer_iff (freed_iff hcollected hcopies) (y := y) hy
  constructor
  · intro hkept y hacc hstring x hx
    exact (hiff y hstring).mp (hkept y hacc hstring) x ((hmade x y).mpr hx)
  · intro hall y hacc hstring
    exact (hiff y hstring).mpr fun x hx => hall y hacc hstring x ((hmade x y).mp hx)

end

/-- `class Main { var s = "x"; try { throw s; } catch (e) { …; gc(); } }`. -/
def sampleProgram (dropping : List Stmt) : List ClassDeclaration :=
  [⟨"Main", [], [.var "s" (.str "x") false false,
    .tryCatch "e" [.eval (.prefixed .throwing (.ident "s"))]
      (dropping ++ [.eval (.methodCall (.ident "gc") [])]) none,
    .function true false false "__static__constructor__" [] []], []⟩]

def dropping : List Stmt := [.eval (.binary .assign (.ident "s") (.num "0"))]

def sampleRun (dropping : List Stmt) (n : ℕ) : Option (Progress ℚ) :=
  runCollected 3 (sampleProgram dropping) (List.replicate n (.thread 0))

/-- The exception, object 6 in the register of `e`, loses its characters with the string in `s`. -/
theorem exception_loses_buffer :
    ∃ (events : List (Event ℚ)) (m : Machine ℚ) (g g' : Collector),
      Collected (imagesOf 3 (sampleProgram dropping)) events m g ∧ g.collect m = some g' ∧
        Accessible m g'.localsCount (.node (.object 6)) ∧ IsString m 6 ∧
        g'.buffers 6 ∈ g'.freedBuffers := by
  have hrun : (sampleRun dropping 12).any (fun h => (h.collector.collect h.machine).any fun g' =>
      decide ((h.machine.activations.map (·.currentContext)).head? = some 1 ∧
        1 < h.machine.control.nextContext ∧ 3 < g'.localsCount 1 ∧
        .object 6 ∈ h.machine.data.registerNodes (h.machine.data.regs 1 3) ∧
        h.machine.data.bufferOf g'.buffers (.object 6) = some (g'.buffers 6) ∧
        g'.buffers 6 ∈ g'.freedBuffers)) = true := by decide +kernel
  obtain ⟨h, hcollected, hcollects⟩ := runCollected_any hrun
  obtain ⟨g', hg', hdecided⟩ := (Option.any_eq_true _ _).mp hcollects
  obtain ⟨hframe, hnext, hcount, hregister, hstring, hfreed⟩ := of_decide_eq_true hdecided
  refine ⟨h.events, h.machine, h.collector, g', hcollected, hg', ?_, ?_, hfreed⟩
  · rw [List.head?_map] at hframe
    obtain ⟨a, ha, hc⟩ := Option.map_eq_some_iff.mp hframe
    have hnode : .context 1 ∈ activationNodes h.machine a := by
      refine List.mem_append_left _ ?_
      unfold ControlState.contextNodes
      rw [hc, if_neg (not_or.mpr ⟨by decide, Nat.not_le_of_lt hnext⟩)]
      exact List.mem_singleton_self _
    exact (Accessible.frame (List.mem_of_head? ha) hnode).load (.register hcount hregister)
  · refine ⟨by decide, ?_⟩
    unfold Data.bufferOf at hstring
    dsimp only at hstring
    split at hstring
    · rename_i text cache ho
      exact ⟨text, cache, ho⟩
    · cases hstring

def Event.isStep : Event ℚ → Bool
  | .ran _ _ _ => true
  | .collected _ _ => false

theorem kept_string_keeps_buffer :
    ∃ (events : List (Event ℚ)) (m : Machine ℚ) (g g' : Collector),
      Collected (imagesOf 3 (sampleProgram [])) events m g ∧ g.collect m = some g' ∧
        ∀ y, Accessible m g'.localsCount (.node (.object y)) → IsString m y →
          g'.buffers y ∉ g'.freedBuffers := by
  have hrun : (sampleRun [] 11).any (fun h => (h.collector.collect h.machine).isSome &&
      h.events.all Event.isStep && h.collector.objectsList.all fun entry =>
        (entry.node?.map (decide <| · ∈ h.collector.marked h.machine)).getD true) = true := by
    decide +kernel
  obtain ⟨h, hcollected, hmarked⟩ := runCollected_any hrun
  obtain ⟨hmarked, hall⟩ := (Bool.and_eq_true _ _).mp hmarked
  obtain ⟨hsome, hsteps⟩ := (Bool.and_eq_true _ _).mp hmarked
  obtain ⟨g', hg'⟩ := Option.isSome_iff_exists.mp hsome
  refine ⟨h.events, h.machine, h.collector, g', hcollected, hg', ?_⟩
  refine (buffers_kept_iff hcollected hg').mpr fun y _ _ x _ m₀ g₀ hmem hlist => ?_
  rcases List.mem_cons.mp hmem with heq | hmem
  · cases heq
    exact marked_iff.mp (of_decide_eq_true (List.all_eq_true.mp hall _ hlist))
  · have hstep := List.all_eq_true.mp hsteps _ hmem
    cases hstep

end Zeroscript.Buffers
