import Mathlib.Logic.Relation

/-! # Simulations between step relations

A forward simulation matches every step of one system by some steps, possibly none, of another. It
extends to whole runs, as an invariant of single steps does. -/
namespace Simulation

open Relation (ReflTransGen)

variable {σ τ : Type*}

def Forward (step : σ → σ → Prop) (step' : τ → τ → Prop) (R : σ → τ → Prop) : Prop :=
  ∀ s s' t, R s t → step s s' → ∃ t', ReflTransGen step' t t' ∧ R s' t'

theorem Forward.run {step : σ → σ → Prop} {step' : τ → τ → Prop} {R : σ → τ → Prop}
    (h : Forward step step' R) {s s' : σ} {t : τ} (hR : R s t) (path : ReflTransGen step s s') :
    ∃ t', ReflTransGen step' t t' ∧ R s' t' := by
  induction path with
  | refl => exact ⟨t, ReflTransGen.refl, hR⟩
  | tail _ hstep ih =>
    obtain ⟨t₁, path₁, hR₁⟩ := ih
    obtain ⟨t₂, path₂, hR₂⟩ := h _ _ t₁ hR₁ hstep
    exact ⟨t₂, path₁.trans path₂, hR₂⟩

theorem invariant_run {step : σ → σ → Prop} {I : σ → Prop}
    (hstep : ∀ s s', I s → step s s' → I s') {s s' : σ} (hI : I s) (path : ReflTransGen step s s') :
    I s' := by
  induction path with
  | refl => exact hI
  | tail _ h ih => exact hstep _ _ ih h

end Simulation
