import Mathlib.Data.Nat.Basic
import Mathlib.Tactic.Common

/-! # What every run comes to

`Within R Q n s` says that no run of `R` from `s` is stuck before `Q` holds, and that none takes more
than `n` steps to get there, whatever step is taken each time. -/
namespace Runs

variable {σ : Type} {R : σ → σ → Prop} {Q : σ → Prop}

inductive Within (R : σ → σ → Prop) (Q : σ → Prop) : ℕ → σ → Prop where
  | now {n : ℕ} {s : σ} (h : Q s) : Within R Q n s
  | later {n : ℕ} {s : σ} (hsome : ∃ s', R s s') (hall : ∀ s', R s s' → Within R Q n s') :
      Within R Q (n + 1) s

theorem Within.mono {n n' : ℕ} {s : σ} (h : Within R Q n s) (hle : n ≤ n') : Within R Q n' s := by
  induction h generalizing n' with
  | now h => exact .now h
  | later hsome hall ih =>
    obtain ⟨m, rfl⟩ : ∃ m, n' = m + 1 := Nat.exists_eq_succ_of_ne_zero (by omega)
    exact .later hsome fun s' hstep => ih s' hstep (by omega)

/-- A number that every step makes smaller bounds the steps, if there always is one. -/
theorem Within.of_rank {I : σ → Prop} (rank : σ → ℕ) (hprogress : ∀ s, I s → ¬Q s → ∃ s', R s s')
    (hkept : ∀ s s', I s → ¬Q s → R s s' → I s' ∨ Q s')
    (hrank : ∀ s s', I s → ¬Q s → R s s' → rank s' < rank s) {s : σ} (h : I s) :
    Within R Q (rank s) s := by
  generalize hn : rank s = n
  induction n using Nat.strong_induction_on generalizing s with
  | _ n ih =>
    by_cases hq : Q s
    · exact .now hq
    · obtain ⟨s₁, hstep₁⟩ := hprogress s h hq
      have hpos := hrank s s₁ h hq hstep₁
      obtain ⟨n, rfl⟩ : ∃ n', n = n' + 1 := Nat.exists_eq_succ_of_ne_zero (by omega)
      refine .later ⟨s₁, hstep₁⟩ fun s' hstep => ?_
      have hless := hrank s s' h hq hstep
      rcases hkept s s' h hq hstep with h' | hq'
      · exact (ih (rank s') (by omega) h' rfl).mono (by omega)
      · exact .now hq'

end Runs
