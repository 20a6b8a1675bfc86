import Mathlib.Algebra.Order.Ring.Int

-- The runs of a step relation, along with the labels of their steps.
inductive Runs {σ α : Type _} (R : σ → α → σ → Prop) : σ → List α → σ → Prop
  | nil {s : σ} : Runs R s [] s
  | cons {s s₁ s' : σ} {a : α} {as : List α} : R s a s₁ → Runs R s₁ as s' → Runs R s (a :: as) s'

namespace Runs

variable {σ τ α β : Type _} {R : σ → α → σ → Prop} {R' : τ → β → τ → Prop} {s s' : σ} {t : τ} {a : α}
variable {as : List α} {inv : σ → Prop} {sim : σ → τ → Prop} {f : α → β}

theorem invariant (hp : ∀ s a s', R s a s' → inv s → inv s') (hr : Runs R s as s') (h : inv s) :
    inv s' := by
  induction hr
  case nil         => exact h
  case cons hs _ i => exact i (hp _ _ _ hs h)

-- A label belongs to a step in the middle of the run.
theorem exists_step (hr : Runs R s as s') (h : a ∈ as) :
    ∃ s₁ s₂ bs cs, Runs R s bs s₁ ∧ R s₁ a s₂ ∧ Runs R s₂ cs s' := by
  induction hr
  case nil => cases h
  case cons s s₁ s' b as hs hr i =>
    cases h
    case head   => exact ⟨s, s₁, [], as, .nil, hs, hr⟩
    case tail h =>
      obtain ⟨s₂, s₃, bs, cs, hb, ha, hc⟩ := i h
      exact ⟨s₂, s₃, b :: bs, cs, .cons hs hb, ha, hc⟩

-- Forward simulation: if each step can be matched, then each run can be.
theorem simulate (hm : ∀ s a s' t, R s a s' → sim s t → ∃ t', R' t (f a) t' ∧ sim s' t')
    (hr : Runs R s as s') (h : sim s t) : ∃ t', Runs R' t (as.map f) t' ∧ sim s' t' := by
  induction hr generalizing t
  case nil => exact ⟨t, .nil, h⟩
  case cons hs _ i =>
    obtain ⟨t₁, hs', h₁⟩ := hm _ _ _ _ hs h
    obtain ⟨t', hr', h'⟩ := i h₁
    exact ⟨t', .cons hs' hr', h'⟩

end Runs
