import Mathlib.Logic.Function.Iterate
import Mathlib.Tactic.Common

/-! # Updates of a shared value by a read and a later write

A process reads the value, and writes back what it has made of it. The updates add up exactly when no
other write falls between a process's read and its write. Histories have the last access in front. -/
namespace ReadModifyWrite

inductive Access (τ : Type) where
  | read (process : τ)
  | write (process : τ)
  deriving DecidableEq, Repr

/-- The value, and what each process has read since its last write. -/
structure Shared (τ β : Type) where
  value : β
  held : τ → Option β

variable {τ β : Type} [DecidableEq τ]

def Shared.access (update : β → β) (s : Shared τ β) : Access τ → Option (Shared τ β)
  | .read t => some { s with held := Function.update s.held t (some s.value) }
  | .write t => (s.held t).map fun v => ⟨update v, Function.update s.held t none⟩

def replay (update : β → β) (initial : β) : List (Access τ) → Option (Shared τ β)
  | [] => some ⟨initial, fun _ => none⟩
  | a :: history => (replay update initial history).bind (·.access update a)

def Access.isWrite : Access τ → Bool
  | .read _ => false
  | .write _ => true

def writes (history : List (Access τ)) : ℕ := history.countP Access.isWrite

/-- The writes since the last read of a process. -/
def writesSince (t : τ) : List (Access τ) → ℕ
  | [] => 0
  | .read t' :: history => if t' = t then 0 else writesSince t history
  | .write _ :: history => writesSince t history + 1

def before (t : τ) : List (Access τ) → List (Access τ)
  | [] => []
  | .read t' :: history => if t' = t then history else before t history
  | .write _ :: history => before t history

/-- No write falls between a process's read and its write. -/
def Uninterrupted : List (Access τ) → Prop
  | [] => True
  | .read _ :: history => Uninterrupted history
  | .write t :: history => writesSince t history = 0 ∧ Uninterrupted history

/-- A history of counted updates gives the history of any values. -/
theorem replay_iterate (update : β → β) (initial : β) {history : List (Access τ)} {s : Shared τ ℕ}
    (h : replay Nat.succ 0 history = some s) :
    replay update initial history =
      some ⟨update^[s.value] initial, fun t => (s.held t).map (update^[·] initial)⟩ := by
  induction history generalizing s with
  | nil =>
    cases h
    rfl
  | cons a history ih =>
    obtain ⟨s₀, hs₀, hstep⟩ := Option.bind_eq_some_iff.mp h
    rw [replay, ih hs₀, Option.bind_some]
    cases a with
    | read t =>
      cases hstep
      simp only [Shared.access, Option.some.injEq, Shared.mk.injEq, true_and]
      funext t'
      by_cases ht : t' = t
      · subst ht
        simp
      · simp [ht]
    | write t =>
      obtain ⟨n, hn, rfl⟩ := Option.map_eq_some_iff.mp hstep
      simp only [Shared.access, hn, Option.map_some, Option.some.injEq, Shared.mk.injEq]
      refine ⟨(Function.iterate_succ_apply' update n initial).symm, ?_⟩
      funext t'
      by_cases ht : t' = t
      · subst ht
        simp
      · simp [ht]

theorem replay_counted {update : β → β} {initial : β} {history : List (Access τ)} {s : Shared τ β}
    (h : replay update initial history = some s) : ∃ n, replay Nat.succ 0 history = some n := by
  induction history generalizing s with
  | nil => exact ⟨_, rfl⟩
  | cons a history ih =>
    obtain ⟨s₀, hs₀, hstep⟩ := Option.bind_eq_some_iff.mp h
    obtain ⟨n, hn⟩ := ih hs₀
    have hsame := replay_iterate update initial hn
    rw [hs₀] at hsame
    cases hsame
    rw [replay, hn, Option.bind_some]
    cases a with
    | read t => exact ⟨_, rfl⟩
    | write t =>
      obtain ⟨v, hv, -⟩ := Option.map_eq_some_iff.mp hstep
      obtain ⟨k, hk, -⟩ := Option.map_eq_some_iff.mp hv
      exact ⟨_, by rw [Shared.access, hk]; rfl⟩

theorem before_length (t : τ) (history : List (Access τ)) :
    (before t history).length ≤ history.length := by
  induction history with
  | nil => exact Nat.le_refl _
  | cons a history ih =>
    cases a with
    | read t' =>
      rw [before]
      split
      · exact Nat.le_succ _
      · exact Nat.le_succ_of_le ih
    | write t' => exact Nat.le_succ_of_le ih

theorem held_before {history : List (Access τ)} {s : Shared τ ℕ} {t : τ} {n : ℕ}
    (h : replay Nat.succ 0 history = some s) (hheld : s.held t = some n) :
    (∃ s₀, replay Nat.succ 0 (before t history) = some s₀ ∧ s₀.value = n) ∧
      writes (before t history) + writesSince t history = writes history ∧
      (writesSince t history = 0 → (Uninterrupted (before t history) ↔ Uninterrupted history)) := by
  induction history generalizing s with
  | nil =>
    cases h
    cases hheld
  | cons a history ih =>
    obtain ⟨s₀, hs₀, hstep⟩ := Option.bind_eq_some_iff.mp h
    cases a with
    | read t' =>
      cases hstep
      by_cases ht : t' = t
      · subst ht
        simp only [Function.update_self, Option.some.injEq] at hheld
        simp only [before, writesSince, if_pos]
        exact ⟨⟨s₀, hs₀, hheld⟩, by simp [writes, Access.isWrite], fun _ => Iff.rfl⟩
      · dsimp only at hheld
        rw [Function.update_of_ne (Ne.symm ht)] at hheld
        obtain ⟨hvalue, hcount, hrest⟩ := ih hs₀ hheld
        simp only [before, writesSince, if_neg ht]
        refine ⟨hvalue, ?_, hrest⟩
        simpa [writes, Access.isWrite, List.countP_cons] using hcount
    | write t' =>
      obtain ⟨k, hk, rfl⟩ := Option.map_eq_some_iff.mp hstep
      dsimp only at hheld
      by_cases ht : t = t'
      · subst ht
        rw [Function.update_self] at hheld
        cases hheld
      · rw [Function.update_of_ne ht] at hheld
        obtain ⟨hvalue, hcount, -⟩ := ih hs₀ hheld
        simp only [before, writesSince]
        refine ⟨hvalue, ?_, fun hzero => absurd hzero (Nat.succ_ne_zero _)⟩
        simp only [writes, Access.isWrite, List.countP_cons, if_true] at hcount ⊢
        omega

/-- The updates in the value are at most the writes, and all of them when no update is interrupted. -/
theorem value_eq_writes_iff {history : List (Access τ)} {s : Shared τ ℕ}
    (h : replay Nat.succ 0 history = some s) :
    s.value ≤ writes history ∧ (s.value = writes history ↔ Uninterrupted history) := by
  -- a write is judged by the history before the read it goes back to
  induction hlength : history.length using Nat.strongRecOn generalizing history s with
  | _ length ih =>
    cases history with
    | nil =>
      cases h
      exact ⟨Nat.le_refl _, by simp [writes, Uninterrupted]⟩
    | cons a history =>
      obtain ⟨s₀, hs₀, hstep⟩ := Option.bind_eq_some_iff.mp h
      cases a with
      | read t =>
        cases hstep
        have hrest := ih history.length (by rw [← hlength]; exact Nat.lt_succ_self _) hs₀ rfl
        simpa [writes, Access.isWrite, List.countP_cons, Uninterrupted] using hrest
      | write t =>
        obtain ⟨n, hn, rfl⟩ := Option.map_eq_some_iff.mp hstep
        obtain ⟨⟨s₁, hs₁, rfl⟩, hcount, hatomic⟩ := held_before hs₀ hn
        have hshort : (before t history).length < length := by
          rw [← hlength]
          exact Nat.lt_succ_of_le (before_length t history)
        obtain ⟨hle, hiff⟩ := ih _ hshort hs₁ rfl
        have hwrites : writes (Access.write t :: history) = writes history + 1 :=
          List.countP_cons_of_pos rfl
        rw [hwrites]
        simp only [Uninterrupted]
        constructor
        · dsimp only [Nat.succ_eq_add_one]
          omega
        · constructor
          · intro heq
            have hsince : writesSince t history = 0 := by
              dsimp only [Nat.succ_eq_add_one] at heq
              omega
            have hall : s₁.value = writes (before t history) := by
              dsimp only [Nat.succ_eq_add_one] at heq
              omega
            exact ⟨hsince, (hatomic hsince).mp (hiff.mp hall)⟩
          · rintro ⟨hsince, hrest⟩
            have hall := hiff.mpr ((hatomic hsince).mpr hrest)
            dsimp only [Nat.succ_eq_add_one]
            omega

/-- The value is that of all updates exactly when no update is interrupted. -/
theorem value_iff {update : β → β} {initial : β} {history : List (Access τ)} {s : Shared τ β}
    (hinjective : Function.Injective fun n : ℕ => update^[n] initial)
    (h : replay update initial history = some s) :
    s.value = update^[writes history] initial ↔ Uninterrupted history := by
  obtain ⟨n, hn⟩ := replay_counted h
  rw [replay_iterate update initial hn] at h
  cases h
  rw [← (value_eq_writes_iff hn).2]
  exact hinjective.eq_iff

theorem value_pos {history : List (Access τ)} {s : Shared τ ℕ} (h : replay Nat.succ 0 history = some s)
    (hwrites : writes history ≠ 0) : s.value ≠ 0 := by
  induction history generalizing s with
  | nil => exact absurd rfl hwrites
  | cons a history ih =>
    obtain ⟨s₀, hs₀, hstep⟩ := Option.bind_eq_some_iff.mp h
    cases a with
    | read t =>
      cases hstep
      have hvalue : s₀.value ≠ 0 := ih hs₀ hwrites
      exact hvalue
    | write t =>
      obtain ⟨n, -, rfl⟩ := Option.map_eq_some_iff.mp hstep
      exact Nat.succ_ne_zero n

theorem uninterrupted_of_no_writes {history : List (Access τ)} (h : writes history = 0) :
    Uninterrupted history := by
  induction history with
  | nil => trivial
  | cons a history ih =>
    cases a with
    | read t => exact ih h
    | write t => exact absurd h (by simp [writes, Access.isWrite])

end ReadModifyWrite
