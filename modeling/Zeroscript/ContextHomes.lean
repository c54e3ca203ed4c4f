import Zeroscript.ControlFlow
import Zeroscript.StackTally

/-! # Contexts belong to one state

A context is made for a call in one state, and only activations of that state come back to it. Since no
two activations run one state, no two of them have a frame in common. -/
namespace Zeroscript

open StackTally (Active)

/-- Every frame that is executing, or returned to, is one of the state it is at home in. -/
structure AtHome (k : ControlState) (fs : List (StateId × ContextId)) (home : ContextId → StateId) : Prop where
  frame : ∀ f ∈ fs, ∀ c, Active k.links f.2 c → home c = f.1
  current : ∀ s c, Active k.links (k.states s).currentContext c → home c = s

variable {k : ControlState} {a : Activation} {rest : List Activation} {action : Action}
  {home : ContextId → StateId}

theorem InnermostTry.active {links : ContextId → Link} {c c' : ContextId} {address : ℕ}
    (h : InnermostTry links c c' address) : Active links c c' := by
  induction h with
  | here hc => exact .self hc
  | outer hc _ _ ih => exact .caller hc ih

def Action.entering (k : ControlState) (a : Activation) : Action → StateId
  | .callOwn .. => a.state
  | action => (action.starting k).getD 0

theorem entering_of_starting {s : StateId} (h : action.starting k = some s) : action.entering k a = s := by
  cases action with
  | callOwn => cases h
  | _ => exact (congrArg (Option.getD · 0) h : _)

theorem perform_returnContext (action : Action) {c : ContextId} (hc : c < k.nextContext) :
    ((k.perform (a :: rest) action).control.links c).returnContext = (k.links c).returnContext := by
  have hlink : Relinks k a action c ((k.perform (a :: rest) action).control.links c) := perform_relinks action c
  generalize (k.perform (a :: rest) action).control.links c = link at hlink
  cases hlink with
  | same | armed | cleared => rfl
  | enters | starts => exact absurd hc (Nat.lt_irrefl _)

theorem starting_returnContext {s : StateId} (h : action.starting k = some s) :
    ((k.perform (a :: rest) action).control.links k.nextContext).returnContext = 0 := by
  cases action with
  | callAsync | callOther | construct | load =>
    simp [ControlState.perform, ControlState.start, ControlState.moveStack, ControlState.setState]
  | _ => cases h

theorem callOwn_returnContext {entry register n : ℕ} :
    ((k.perform (a :: rest) (.callOwn entry register n)).control.links k.nextContext).returnContext =
      a.currentContext := by
  simp [ControlState.perform, ControlState.enter]

section

variable {fs : List (StateId × ContextId)} {message : String}

def homes (k : ControlState) (a : Activation) (action : Action) (home : ContextId → StateId) :
    ContextId → StateId :=
  Function.update home k.nextContext (action.entering k a)

theorem active_old (hlinked : Linked k (frames (a :: rest) ++ fs))
    (holder : ∀ c, c ≠ 0 → ((k.perform (a :: rest) action).control.links c).returnContext < c)
    {f c : ContextId} (hf : f < k.nextContext)
    (h : Active (k.perform (a :: rest) action).control.links f c) :
    Active k.links f c ∧ homes k a action home c = home c := by
  have hold : Active k.links f c :=
    h.congr holder hf fun c hc => perform_returnContext action hc
  have hlt : c < k.nextContext := Nat.lt_of_le_of_lt (hold.le hlinked.older) hf
  exact ⟨hold, Function.update_of_ne (Nat.ne_of_lt hlt) _ _⟩

theorem active_started {s : StateId} (hstart : action.starting k = some s) {c : ContextId}
    (h : Active (k.perform (a :: rest) action).control.links k.nextContext c) :
    homes k a action home c = s := by
  have hc : c = k.nextContext := by
    cases h with
    | self => rfl
    | caller hne h =>
      rw [starting_returnContext hstart] at h
      exact absurd rfl h.start_ne_zero
  rw [hc, homes, Function.update_self]
  exact entering_of_starting hstart

theorem active_entered (hlinked : Linked k (frames (a :: rest) ++ fs))
    (hhome : AtHome k (frames (a :: rest) ++ fs) home) {entry register n : ℕ}
    (holder : ∀ c, c ≠ 0 →
      ((k.perform (a :: rest) (.callOwn entry register n)).control.links c).returnContext < c)
    {c : ContextId}
    (h : Active (k.perform (a :: rest) (.callOwn entry register n)).control.links k.nextContext c) :
    homes k a (.callOwn entry register n) home c = a.state := by
  cases h with
  | self => exact Function.update_self _ _ _
  | caller hne h =>
    rw [callOwn_returnContext] at h
    have hlt : a.currentContext < k.nextContext :=
      hlinked.context_lt (a.state, a.currentContext) List.mem_cons_self
    obtain ⟨hold, heq⟩ := active_old hlinked holder hlt h
    rw [heq]
    exact hhome.frame (a.state, a.currentContext) List.mem_cons_self c hold

theorem searched_home (hlinked : Linked k (frames (a :: rest) ++ fs))
    (hhome : AtHome k (frames (a :: rest) ++ fs) home) {s : StateId} {c₀ c : ContextId} {address : ℕ}
    (hfrom : SearchFrom k a s c₀) (htry : InnermostTry k.links c₀ c address)
    (holder : ∀ c, c ≠ 0 → ((k.perform (a :: rest) action).control.links c).returnContext < c)
    {x : ContextId} (h : Active (k.perform (a :: rest) action).control.links c x) :
    homes k a action home x = s := by
  have hbound : c₀ < k.nextContext := by
    cases hfrom with
    | current => exact hlinked.current_lt s
    | frame hs => exact hlinked.context_lt (a.state, a.currentContext) List.mem_cons_self
  have hc : c < k.nextContext := Nat.lt_of_le_of_lt (htry.active.le hlinked.older) hbound
  obtain ⟨hold, heq⟩ := active_old hlinked holder hc h
  have hall : Active k.links c₀ x := htry.active.trans hold
  rw [heq]
  cases hfrom with
  | current => exact hhome.current s x hall
  | frame hs =>
    rw [hs]
    exact hhome.frame (a.state, a.currentContext) List.mem_cons_self x hall

theorem perform_atHome (hlinked : Linked k (frames (a :: rest) ++ fs))
    (hhome : AtHome k (frames (a :: rest) ++ fs) home)
    (holder : ∀ c, c ≠ 0 → ((k.perform (a :: rest) action).control.links c).returnContext < c) :
    AtHome (k.perform (a :: rest) action).control
      (frames ((k.perform (a :: rest) action).activations ++ (k.perform (a :: rest) action).spawned.toList) ++ fs)
      (homes k a action home) := by
  have hframe : ∀ b ∈ a :: rest, (b.state, b.currentContext) ∈ frames (a :: rest) ++ fs :=
    fun b hb => List.mem_append_left _ (List.mem_map_of_mem hb)
  have hactive : ∀ {f c : ContextId}, f < k.nextContext →
      Active (k.perform (a :: rest) action).control.links f c →
      Active k.links f c ∧ homes k a action home c = home c := active_old hlinked holder
  have hkept : ∀ f ∈ frames (a :: rest) ++ fs, ∀ c,
      Active (k.perform (a :: rest) action).control.links f.2 c → homes k a action home c = f.1 := by
    intro f hf c hc
    obtain ⟨hold, heq⟩ := hactive (hlinked.context_lt f hf) hc
    rw [heq]
    exact hhome.frame f hf c hold
  constructor
  · intro f hf c hc
    rcases List.mem_append.mp hf with hf | hf
    · obtain ⟨b, hb, rfl⟩ := List.mem_map.mp hf
      have harrives : Arrives k a rest action b := perform_arrives b hb
      cases harrives with
      | stays h => exact hkept _ (hframe b h) c hc
      | next | jumps => exact hkept _ (hframe a List.mem_cons_self) c hc
      | resumes h => exact hkept _ (hframe _ (List.mem_cons_of_mem _ h)) c hc
      | catches h hfrom htry => exact searched_home hlinked hhome hfrom htry holder hc
      | returns h =>
        have hlt : (k.links a.currentContext).returnContext < k.nextContext :=
          Nat.lt_trans (hlinked.older _ (hlinked.context_pos _ (hframe a List.mem_cons_self)))
            (hlinked.context_lt _ (hframe a List.mem_cons_self))
        obtain ⟨hold, heq⟩ := hactive hlt hc
        rw [heq]
        exact hhome.frame _ (hframe a List.mem_cons_self) c
          (.caller (hlinked.context_pos _ (hframe a List.mem_cons_self)) hold)
      | enters => exact active_entered hlinked hhome holder hc
      | async => exact active_started rfl hc
      | other => exact active_started rfl hc
      | constructs => exact active_started rfl hc
      | loads => exact active_started rfl hc
    · exact hkept f (List.mem_append_right _ hf) c hc
  · intro s c hc
    have htracked : Tracked k a action s
        ((k.perform (a :: rest) action).control.states s).currentContext := perform_tracked action s
    generalize hcurrent : ((k.perform (a :: rest) action).control.states s).currentContext = c₀ at htracked hc
    cases htracked with
    | same =>
      obtain ⟨hold, heq⟩ := hactive (hlinked.current_lt s) hc
      rw [heq]
      exact hhome.current s c hold
    | none => exact absurd rfl hc.start_ne_zero
    | own hs =>
      rw [hs]
      exact hkept _ (hframe a List.mem_cons_self) c hc
    | caught hfrom htry => exact searched_home hlinked hhome hfrom htry holder hc
    | enters => exact active_entered hlinked hhome holder hc
    | starts h => exact active_started h hc

end

variable {α : Type} [NumOps α] {classes : String → Option Code}

theorem step_atHome {m m' : Machine α} {thread : ℕ} (hstep : m.step classes thread = some m')
    (hlinked : Linked m.control (frames m.activations)) (hhome : AtHome m.control (frames m.activations) home) :
    ∃ home', AtHome m'.control (frames m'.activations) home' := by
  obtain ⟨a, rest, i, e, outcome, hs⟩ := Machine.step_cases hstep
  obtain ⟨others, hbefore, hafter⟩ := hs.others
  have hframes : (frames m.activations).Perm
      (frames ({ a with objectToSearchOn := e.objectToSearchOn } :: rest) ++ frames others) := by
    rw [← frames_append]
    exact hbefore.map fun a => (a.state, a.currentContext)
  have holder := (step_linked hstep hlinked).older
  rw [hs.control, ← hs.perform] at holder
  have hperform := perform_atHome (hlinked.perm hframes.symm)
    ⟨fun f hf => hhome.frame f (hframes.mem_iff.mpr hf), hhome.current⟩ holder
  rw [hs.perform] at hperform
  have hframes' : ∀ f ∈ frames m'.activations,
      f ∈ frames (outcome.activations ++ outcome.spawned.toList) ++ frames others := by
    intro f hf
    obtain ⟨b, hb, rfl⟩ := List.mem_map.mp hf
    rw [← frames_append]
    refine List.mem_map_of_mem ?_
    have hmem := hafter.mem_iff.mp hb
    simp only [List.mem_append] at hmem ⊢
    tauto
  rw [hs.control]
  exact ⟨_, fun f hf => hperform.frame f (hframes' f hf), hperform.current⟩

theorem boot_atHome {className : String} {code : Code} {input : List String} {m : Machine α}
    (h : boot className code input = some m) : ∃ home, AtHome m.control (frames m.activations) home := by
  obtain ⟨staticEntry, entry, hboot⟩ := boot_of h
  have hreturn : ∀ c, (m.control.links c).returnContext = 0 := by
    intro c
    rw [hboot.control]
    simp only [ControlState.start, Function.update_apply]
    split
    · rfl
    · split <;> rfl
  have hself : ∀ {f c : ContextId}, Active m.control.links f c → c = f := by
    intro f c hc
    cases hc with
    | self => rfl
    | caller hne hc =>
      rw [hreturn] at hc
      exact absurd rfl hc.start_ne_zero
  refine ⟨fun c => c - 1, fun f hf c hc => ?_, fun s c hc => ?_⟩
  · rw [hself hc]
    unfold Machine.activations at hf
    rw [hboot.threads] at hf
    rcases List.mem_cons.mp hf with rfl | hf
    · rfl
    · cases List.mem_singleton.mp hf
      rfl
  · have hstart := hc.start_ne_zero
    rw [hself hc]
    rw [hboot.control] at hstart ⊢
    simp only [ControlState.start, Function.update_apply] at hstart ⊢
    by_cases hs : s = 1
    · rw [if_pos hs, hs]
      rfl
    · rw [if_neg hs] at hstart ⊢
      by_cases hs' : s = 0
      · rw [if_pos hs', hs']
        rfl
      · rw [if_neg hs'] at hstart
        exact absurd rfl hstart

theorem reachable_atHome {m : Machine α} (h : m.Reachable classes) :
    ∃ home, AtHome m.control (frames m.activations) home := by
  obtain ⟨className, code, input, m₀, hcode, hboot, hpath⟩ := h
  induction hpath with
  | refl => exact boot_atHome hboot
  | tail hpath hstep ih =>
    obtain ⟨home, hhome⟩ := ih
    obtain ⟨thread, hstep⟩ := hstep
    exact step_atHome hstep (reachable_linked ⟨className, code, input, m₀, hcode, hboot, hpath⟩) hhome

theorem frames_apart {m : Machine α} (h : m.Reachable classes) {b b' : Activation} (hb : b ∈ m.activations)
    (hb' : b' ∈ m.activations) (hne : b.state ≠ b'.state) : b.currentContext ≠ b'.currentContext := by
  obtain ⟨home, hhome⟩ := reachable_atHome h
  have hpos := (reachable_linked h).context_pos
  intro heq
  have hown := hhome.frame _ (List.mem_map_of_mem hb) _ (.self (hpos _ (List.mem_map_of_mem hb)))
  have hother := hhome.frame _ (List.mem_map_of_mem hb') _ (.self (hpos _ (List.mem_map_of_mem hb')))
  rw [← heq, hown] at hother
  exact hne hother

end Zeroscript
