import Mathlib.Tactic.Common

/-! # Emitters

A one-pass code generator reads and updates a state, may fail, and appends to its output. The
triple `Emits I Q m R` is partial correctness for it: from a state satisfying the invariant `I`,
a successful run of `m` ends in `I`, every item it appends satisfies `Q`, and its result is in `R`.
`Excludes I e m` says that a run from such a state does not fail with `e`, `Loud m` that a run has
some output, and `Grows` that the output is in terms of a size that only gets larger. -/
namespace Emission

def Emitter (σ ε ι β : Type) := σ → Except ε (β × σ × List ι)

variable {σ ε ι β γ : Type}

protected def Emitter.pure (b : β) : Emitter σ ε ι β := fun s => .ok (b, s, [])

protected def Emitter.bind (x : Emitter σ ε ι β) (f : β → Emitter σ ε ι γ) : Emitter σ ε ι γ := fun s =>
  match x s with
  | .error e => .error e
  | .ok (b, s₁, c₁) =>
    match f b s₁ with
    | .error e => .error e
    | .ok (d, s₂, c₂) => .ok (d, s₂, c₁ ++ c₂)

instance : Monad (Emitter σ ε ι) where
  pure := Emitter.pure
  bind := Emitter.bind

def fail (e : ε) : Emitter σ ε ι β := fun _ => .error e

@[simp] theorem pure_ok {b b' : β} {s s' : σ} {c : List ι} :
    (Pure.pure b : Emitter σ ε ι β) s = .ok (b', s', c) ↔ b = b' ∧ s = s' ∧ c = [] := by
  change Except.ok _ = Except.ok _ ↔ _
  simp only [Except.ok.injEq, Prod.mk.injEq, eq_comm (a := c)]

/-- Peels one computation off a successful run: states chain and outputs concatenate. -/
@[simp] theorem bind_ok {x : Emitter σ ε ι β} {f : β → Emitter σ ε ι γ} {b : γ} {s s' : σ}
    {c : List ι} :
    (x >>= f) s = .ok (b, s', c) ↔
      ∃ a s₁ c₁ c₂, x s = .ok (a, s₁, c₁) ∧ f a s₁ = .ok (b, s', c₂) ∧ c = c₁ ++ c₂ := by
  change Emitter.bind x f s = _ ↔ _
  unfold Emitter.bind
  constructor
  · intro h
    split at h
    · cases h
    · split at h
      · cases h
      · rename_i hx _ _ _ _ hf
        cases h
        exact ⟨_, _, _, _, hx, hf, rfl⟩
  · rintro ⟨a, s₁, c₁, c₂, hx, hf, rfl⟩
    rw [hx]
    dsimp only
    rw [hf]

theorem bind_succeeds {x : Emitter σ ε ι β} {f : β → Emitter σ ε ι γ} {a : β} {s s₁ : σ} {c₁ : List ι}
    (hx : x s = .ok (a, s₁, c₁)) (hf : ∃ result, f a s₁ = .ok result) :
    ∃ result, (x >>= f) s = .ok result := by
  obtain ⟨⟨b, s₂, c₂⟩, hf⟩ := hf
  exact ⟨(b, s₂, c₁ ++ c₂), bind_ok.mpr ⟨a, s₁, c₁, c₂, hx, hf, rfl⟩⟩

@[simp] theorem fail_ok {e : ε} {b : β} {s s' : σ} {c : List ι} :
    (fail e : Emitter σ ε ι β) s ≠ .ok (b, s', c) := by
  intro h
  cases h

def Emits (I : σ → Prop) (Q : ι → Prop) (m : Emitter σ ε ι β) (R : β → Prop) : Prop :=
  ∀ s b s' c, I s → m s = .ok (b, s', c) → I s' ∧ (∀ i ∈ c, Q i) ∧ R b

variable {I : σ → Prop} {Q Q' : ι → Prop} {R R' : β → Prop} {T : γ → Prop}

theorem Emits.pure {b : β} (h : R b) :
    Emits I Q (Pure.pure b : Emitter σ ε ι β) R := by
  intro s b' s' c hs hm
  obtain ⟨rfl, rfl, rfl⟩ := pure_ok.mp hm
  exact ⟨hs, by simp, h⟩

theorem Emits.bind {m : Emitter σ ε ι β} {f : β → Emitter σ ε ι γ} (hm : Emits I Q m R)
    (hf : ∀ b, R b → Emits I Q (f b) T) : Emits I Q (m >>= f) T := by
  intro s d s' c hs hrun
  obtain ⟨b, s₁, c₁, c₂, h₁, h₂, rfl⟩ := bind_ok.mp hrun
  obtain ⟨hs₁, hc₁, hb⟩ := hm _ _ _ _ hs h₁
  obtain ⟨hs₂, hc₂, hd⟩ := hf b hb _ _ _ _ hs₁ h₂
  refine ⟨hs₂, fun i hi => ?_, hd⟩
  rcases List.mem_append.mp hi with hi | hi
  · exact hc₁ i hi
  · exact hc₂ i hi

theorem Emits.fail {e : ε} : Emits I Q (fail e : Emitter σ ε ι β) R := by
  intro s b s' c _ hm
  exact absurd hm fail_ok

theorem Emits.ite {p : Prop} [Decidable p] {m m' : Emitter σ ε ι β}
    (h : p → Emits I Q m R) (h' : ¬p → Emits I Q m' R) : Emits I Q (if p then m else m') R := by
  split
  · exact h ‹_›
  · exact h' ‹_›

theorem Emits.mono {m : Emitter σ ε ι β} (h : Emits I Q m R) (hR : ∀ b, R b → R' b) :
    Emits I Q m R' := by
  intro s b s' c hs hm
  obtain ⟨hs', hc, hb⟩ := h s b s' c hs hm
  exact ⟨hs', hc, hR b hb⟩

theorem bind_error {x : Emitter σ ε ι β} {f : β → Emitter σ ε ι γ} {s : σ} {e : ε} :
    (x >>= f) s = .error e ↔ x s = .error e ∨ ∃ b s₁ c, x s = .ok (b, s₁, c) ∧ f b s₁ = .error e := by
  change Emitter.bind x f s = _ ↔ _
  unfold Emitter.bind
  constructor
  · intro h
    split at h
    · rename_i hx
      cases h
      exact .inl hx
    · split at h
      · rename_i hx _ _ hf
        cases h
        exact .inr ⟨_, _, _, hx, hf⟩
      · cases h
  · rintro (hx | ⟨b, s₁, c, hx, hf⟩)
    · rw [hx]
    · rw [hx]
      dsimp only
      rw [hf]

def Excludes (I : σ → Prop) (e : ε) (m : Emitter σ ε ι β) : Prop :=
  ∀ s, I s → m s ≠ .error e ∧ ∀ b s' c, m s = .ok (b, s', c) → I s'

variable {e e' : ε}

theorem Excludes.pure (b : β) : Excludes I e (Pure.pure b : Emitter σ ε ι β) := by
  intro s hs
  refine ⟨nofun, fun b' s' c hm => ?_⟩
  obtain ⟨-, rfl, -⟩ := pure_ok.mp hm
  exact hs

theorem Excludes.bind {m : Emitter σ ε ι β} {f : β → Emitter σ ε ι γ} (hm : Excludes I e m)
    (hf : ∀ b, Excludes I e (f b)) : Excludes I e (m >>= f) := by
  intro s hs
  obtain ⟨hfirst, hkept⟩ := hm s hs
  constructor
  · intro hfail
    rcases bind_error.mp hfail with hfail | ⟨b, s₁, c, hrun, hfail⟩
    · exact hfirst hfail
    · exact (hf b s₁ (hkept b s₁ c hrun)).1 hfail
  · intro d s' c hrun
    obtain ⟨b, s₁, c₁, c₂, h₁, h₂, -⟩ := bind_ok.mp hrun
    exact (hf b s₁ (hkept b s₁ c₁ h₁)).2 d s' c₂ h₂

theorem Excludes.fail (h : e' ≠ e) : Excludes I e (fail e' : Emitter σ ε ι β) := by
  intro s _
  refine ⟨fun hfail => ?_, fun _ _ _ hm => absurd hm fail_ok⟩
  cases hfail
  exact h rfl

theorem Excludes.ite {p : Prop} [Decidable p] {m m' : Emitter σ ε ι β} (h : p → Excludes I e m)
    (h' : ¬p → Excludes I e m') : Excludes I e (if p then m else m') := by
  split
  · exact h ‹_›
  · exact h' ‹_›

/-- From a size of at least `n` the size gets no smaller, and what is emitted and returned suits the size
in the end. -/
def Grows (I : σ → Prop) (size : σ → ℕ) (Q : ℕ → ι → Prop) (n : ℕ) (m : Emitter σ ε ι β) (R : ℕ → β → Prop) :
    Prop :=
  ∀ s b s' c, I s → n ≤ size s → m s = .ok (b, s', c) →
    I s' ∧ size s ≤ size s' ∧ (∀ i ∈ c, Q (size s') i) ∧ R (size s') b

section

variable {size : σ → ℕ} {U : ℕ → ι → Prop} {n : ℕ} {S S' : ℕ → β → Prop} {V : ℕ → γ → Prop}

theorem Grows.pure {b : β} (h : ∀ k, n ≤ k → S k b) :
    Grows I size U n (Pure.pure b : Emitter σ ε ι β) S := by
  intro s b' s' c hs hn hm
  obtain ⟨rfl, rfl, rfl⟩ := pure_ok.mp hm
  exact ⟨hs, Nat.le_refl _, by simp, h _ hn⟩

theorem Grows.bind {m : Emitter σ ε ι β} {f : β → Emitter σ ε ι γ}
    (hU : ∀ k k' i, k ≤ k' → U k i → U k' i) (hm : Grows I size U n m S)
    (hf : ∀ b k, n ≤ k → S k b → Grows I size U k (f b) V) : Grows I size U n (m >>= f) V := by
  intro s d s' c hs hn hrun
  obtain ⟨b, s₁, c₁, c₂, h₁, h₂, rfl⟩ := bind_ok.mp hrun
  obtain ⟨hs₁, hle₁, hc₁, hb⟩ := hm _ _ _ _ hs hn h₁
  obtain ⟨hs₂, hle₂, hc₂, hd⟩ := hf b (size s₁) (Nat.le_trans hn hle₁) hb _ _ _ _ hs₁ (Nat.le_refl _) h₂
  refine ⟨hs₂, Nat.le_trans hle₁ hle₂, fun i hi => ?_, hd⟩
  rcases List.mem_append.mp hi with hi | hi
  · exact hU _ _ i hle₂ (hc₁ i hi)
  · exact hc₂ i hi

theorem Grows.fail {e : ε} : Grows I size U n (fail e : Emitter σ ε ι β) S := by
  intro s b s' c _ _ hm
  exact absurd hm fail_ok

theorem Grows.ite {p : Prop} [Decidable p] {m m' : Emitter σ ε ι β} (h : p → Grows I size U n m S)
    (h' : ¬p → Grows I size U n m' S) : Grows I size U n (if p then m else m') S := by
  split
  · exact h ‹_›
  · exact h' ‹_›

theorem Grows.mono {m : Emitter σ ε ι β} (h : Grows I size U n m S) (hS : ∀ k b, S k b → S' k b) :
    Grows I size U n m S' := by
  intro s b s' c hs hn hm
  obtain ⟨hs', hle, hc, hb⟩ := h s b s' c hs hn hm
  exact ⟨hs', hle, hc, hS _ b hb⟩

end

def Loud (m : Emitter σ ε ι β) : Prop := ∀ s b s' c, m s = .ok (b, s', c) → c ≠ []

theorem Loud.fail : Loud (fail e : Emitter σ ε ι β) := fun _ _ _ _ hm => absurd hm fail_ok

theorem Loud.first {m : Emitter σ ε ι β} {f : β → Emitter σ ε ι γ} (h : Loud m) : Loud (m >>= f) := by
  intro s d s' c hrun
  obtain ⟨b, s₁, c₁, c₂, h₁, h₂, rfl⟩ := bind_ok.mp hrun
  intro hnil
  exact h s b s₁ c₁ h₁ (List.append_eq_nil_iff.mp hnil).1

theorem Loud.later {m : Emitter σ ε ι β} {f : β → Emitter σ ε ι γ} (h : ∀ b, Loud (f b)) :
    Loud (m >>= f) := by
  intro s d s' c hrun
  obtain ⟨b, s₁, c₁, c₂, h₁, h₂, rfl⟩ := bind_ok.mp hrun
  intro hnil
  exact h b s₁ d s' c₂ h₂ (List.append_eq_nil_iff.mp hnil).2

end Emission
