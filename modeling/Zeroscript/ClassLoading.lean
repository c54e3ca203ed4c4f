import Mathlib.Data.List.Nodup
import Zeroscript.FrameWrites
import Zeroscript.Imports

/-! # Classes are loaded once

`object_manager_get_or_load_type_info` loads a class that is not known, and runs its static constructor. The
class is known before the constructor has run, so a use of it in the meantime does not load it again. The lookup
and the registration are one step here; nothing locks them, so this is about programs with one thread. -/
namespace Zeroscript.ClassLoading

open FrameWrites Imports

/-- The classes that a run has loaded, the last one first. -/
def classesOf : List Imports.Event → List String
  | [] => []
  | .started className :: history => className :: classesOf history
  | .imported _ _ _ :: history => classesOf history
  | .loaded _ name :: history => name :: classesOf history

/-- The class whose static constructor an activation runs; `own` is the class that `main` has started. -/
def initialising (own : String) (b : Activation) : Option String :=
  match b.resume with
  | .load className _ => some className
  | .startup => some own
  | .method _ | .construct | .root => none

variable {own : String}

theorem filterMap_resume {b x : Activation} (h : x.resume = b.resume) (below : List Activation) :
    (x :: below).filterMap (initialising own) = (b :: below).filterMap (initialising own) := by
  have hsame : initialising own x = initialising own b := by
    unfold initialising
    rw [h]
  rw [List.filterMap_cons, List.filterMap_cons, hsame]

theorem initialising_load {b : Activation} {n : String} (h : initialising own b = some n)
    (hstartup : b.resume ≠ .startup) :
    ∃ path, b.resume = .load n path := by
  unfold initialising at h
  split at h
  · rename_i path hresume
    cases h
    exact ⟨path, hresume⟩
  · exact absurd ‹_› hstartup
  · cases h
  · cases h
  · cases h

theorem loadedFrom_none {history : List Imports.Event} {n : String} :
    loadedFrom history n = none ↔ n ∉ classesOf history := by
  induction history with
  | nil => exact iff_of_true rfl List.not_mem_nil
  | cons event history ih =>
    cases event with
    | started className =>
      rw [loadedFrom, classesOf, List.mem_cons, not_or, ← ih]
      by_cases hn : n = className
      · simp [hn]
      · simp [hn]
    | imported className name path => exact ih
    | loaded className name =>
      rw [loadedFrom, classesOf, List.mem_cons, not_or, ← ih]
      cases loadedFrom history n with
      | some path => simp
      | none => simp

section

variable {k : ControlState} {a : Activation} {rest : List Activation}

theorem stacked_initialising {action : Action} {activations : List Activation}
    (h : Stacked k a rest action activations) :
    (activations.filterMap (initialising own)).Sublist
      (action.loading.toList ++ (a :: rest).filterMap (initialising own)) := by
  cases h with
  | done => exact List.nil_sublist _
  | @moved b x below hsuffix hx =>
    rw [filterMap_resume hx]
    exact (hsuffix.sublist.filterMap (initialising own)).trans (List.sublist_append_right _ _)
  | @pushed x _ hload hstartup =>
    cases hx : initialising own x with
    | none =>
      rw [List.filterMap_cons_none hx]
      exact List.sublist_append_right _ _
    | some n =>
      obtain ⟨path, hresume⟩ := initialising_load hx hstartup
      obtain ⟨entry, rfl⟩ := hload n path hresume
      rw [List.filterMap_cons_some hx]
      exact List.Sublist.refl _

theorem spawned_initialising (action : Action) :
    (k.perform (a :: rest) action).spawned.toList.filterMap (initialising own) = [] := by
  cases action with
  | callAsync entry n => rfl
  | next | jump | push | pop | setCatch | clearCatch | callOwn | callOther | construct | load | write | exit => rfl
  | native pops error =>
    cases error with
    | none => rfl
    | some message =>
      rw [ControlState.perform, raise_spawned]
      rfl
  | raise message | throwing message =>
    rw [ControlState.perform, raise_spawned]
    rfl
  | ret =>
    rw [ControlState.perform]
    dsimp only
    split <;> rfl
  | reject target again =>
    unfold ControlState.perform
    dsimp only
    split
    · rw [raise_spawned]
      rfl
    · rfl

end

section

variable {α : Type} [NumOps α] {classes : String → Option Code} {m m' : Machine α} {history : List Imports.Event}
  {thread : ℕ} {a : Activation} {rest : List Activation} {i : Instruction} {e : Effect α} {outcome : Outcome}

theorem step_initialising (hs : StepOf classes m m' thread a rest i e outcome) :
    ∃ l, l.Sublist (e.action.loading.toList ++ m.activations.filterMap (initialising own)) ∧
      (m'.activations.filterMap (initialising own)).Perm l := by
  obtain ⟨others, hbefore, hafter⟩ := hs.others
  have hspawned : outcome.spawned.toList.filterMap (initialising own) = [] := by
    rw [← hs.perform]
    exact spawned_initialising e.action
  have hthis : (outcome.activations.filterMap (initialising own)).Sublist
      (e.action.loading.toList ++
        (({ a with objectToSearchOn := e.objectToSearchOn } : Activation) :: rest).filterMap (initialising own)) := by
    rw [← hs.perform]
    exact stacked_initialising (perform_stacked e.action)
  have hresume : ({ a with objectToSearchOn := e.objectToSearchOn } : Activation).resume = a.resume := rfl
  rw [filterMap_resume hresume] at hthis
  have hbefore' := hbefore.filterMap (initialising own)
  have hafter' := hafter.filterMap (initialising own)
  rw [List.filterMap_append, List.filterMap_append, hspawned, List.append_nil] at hafter'
  rw [List.filterMap_append] at hbefore'
  have hall := hthis.append_right (others.filterMap (initialising own))
  rw [List.append_assoc] at hall
  obtain ⟨l, hperm, hl⟩ :=
    List.exists_perm_sublist hall (hbefore'.symm.append_left e.action.loading.toList)
  exact ⟨l, hl, hafter'.trans hperm.symm⟩

theorem classesOf_step (hs : StepOf classes m m' thread a rest i e outcome) (own : String) :
    classesOf (eventsOf own i e.action.loading ++ history) = e.action.loading.toList ++ classesOf history := by
  unfold eventsOf
  cases hload : e.action.loading with
  | none => split <;> rfl
  | some n =>
    have hloads := Asks.loading (effect_asks hs.effect) hload
    rw [if_neg]
    · rfl
    · intro himport
      rw [himport] at hloads
      cases hloads

/-- No class is loaded twice, and no static constructor runs twice at a time. -/
structure LoadedOnce (own : String) (history : List Imports.Event) (m : Machine α) : Prop where
  started : .started own ∈ history
  distinct : (classesOf history).Nodup
  running : (m.activations.filterMap (initialising own)).Nodup
  listed : ∀ n ∈ m.activations.filterMap (initialising own), n ∈ classesOf history

omit [NumOps α] in
theorem LoadedOnce.boot (h : m.activations.filterMap (initialising own) = [own]) :
    LoadedOnce own [.started own] m := by
  refine ⟨List.mem_singleton_self _, List.nodup_singleton own, ?_, fun n hn => ?_⟩
  · rw [h]
    exact List.nodup_singleton own
  · rw [h] at hn
    exact hn

theorem LoadedOnce.step (h : LoadedOnce own history m) (htracked : Imports.Tracked classes history m.data)
    (hs : StepOf classes m m' thread a rest i e outcome) :
    LoadedOnce own (eventsOf (m.data.states a.state).className i e.action.loading ++ history) m' := by
  have hnew : ∀ n ∈ e.action.loading.toList, n ∉ classesOf history := by
    intro n hn
    obtain ⟨-, hunknown⟩ := effect_loading hs.effect (Option.mem_toList.mp hn)
    exact loadedFrom_none.mp (htracked.unknown n hunknown)
  have hone : e.action.loading.toList.Nodup := by
    cases e.action.loading with
    | none => exact List.nodup_nil
    | some n => exact List.nodup_singleton n
  obtain ⟨l, hl, hperm⟩ := step_initialising hs
  refine ⟨List.mem_append_right _ h.started, ?_, hperm.nodup_iff.mpr (hl.nodup ?_), fun n hn => ?_⟩
  · rw [classesOf_step hs]
    exact List.nodup_append'.mpr ⟨hone, h.distinct, fun n hn => hnew n hn⟩
  · exact List.nodup_append'.mpr ⟨hone, h.running, fun n hn hrunning => hnew n hn (h.listed n hrunning)⟩
  · rw [classesOf_step hs]
    rcases List.mem_append.mp (hl.subset (hperm.mem_iff.mp hn)) with hn | hn
    · exact List.mem_append_left _ hn
    · exact List.mem_append_right _ (h.listed n hn)

end

end Zeroscript.ClassLoading
