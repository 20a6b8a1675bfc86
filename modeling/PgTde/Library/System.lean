import Mathlib.Algebra.Order.Ring.Int

-- A labelled transition system.
structure System (σ α : Type _) where
  Initial : σ → Prop
  Step    : σ → α → σ → Prop

namespace System

variable {σ α : Type _} {S : System σ α} {s s' : σ} {a : α} {inv : σ → Prop} {ok : σ → α → Prop}

inductive Reachable (S : System σ α) : σ → Prop
  | initial {s : σ} : S.Initial s → Reachable S s
  | step {s s' : σ} {a : α} : Reachable S s → S.Step s a s' → Reachable S s'

-- The system without the steps that do not meet a condition on the state before them.
def restrict (S : System σ α) (ok : σ → α → Prop) : System σ α where
  Initial     := S.Initial
  Step s a s' := ok s a ∧ S.Step s a s'

-- The runs from a state, of the steps that meet a condition on the state before them.
def runsFrom (S : System σ α) (s : σ) (ok : σ → α → Prop) : System σ α where
  Initial     := (· = s)
  Step s a s' := ok s a ∧ S.Step s a s'

-- What holds initially and is preserved by each step.
structure Invariant (S : System σ α) (inv : σ → Prop) : Prop where
  initial : ∀ s, S.Initial s → inv s
  step    : ∀ s a s', inv s → S.Step s a s' → inv s'

theorem Invariant.reachable (i : S.Invariant inv) (h : S.Reachable s) : inv s := by
  induction h
  case initial h => exact i.initial _ h
  case step h hi => exact i.step _ _ _ hi h

-- The states that a step function leads through are reachable, if the system may take its steps.
theorem Reachable.foldlM {ε : Type _} {f : σ → α → Except ε σ} {as : List α}
    (hf : ∀ s a s', f s a = .ok s' → S.Step s a s') (h : S.Reachable s)
    (hr : as.foldlM f s = .ok s') : S.Reachable s' := by
  induction as generalizing s
  case nil          => cases hr; exact h
  case cons a as hi =>
    rw [List.foldlM_cons] at hr
    cases hs : f s a
    case error => rw [hs] at hr; cases hr
    case ok s₁ => rw [hs] at hr; exact hi (h.step (hf _ _ _ hs)) hr

theorem Reachable.runsFrom (h : S.Reachable s) (hr : (S.runsFrom s ok).Reachable s') : S.Reachable s' := by
  induction hr
  case initial hi   => rwa [show _ = s from hi]
  case step hs hr   => exact hr.step hs.right

-- A preorder that relates the states before and after each step relates the first and the last state of a run.
theorem runsFrom_rel {R : σ → σ → Prop} (hrefl : ∀ s, R s s) (htrans : ∀ s s' s'', R s s' → R s' s'' → R s s'')
    (hstep : ∀ s a s', S.Reachable s → ok s a → S.Step s a s' → R s s') (h : S.Reachable s)
    (hr : (S.runsFrom s ok).Reachable s') : R s s' := by
  induction hr
  case initial hi    => rw [show _ = s from hi]; exact hrefl s
  case step hr hs hi => exact htrans _ _ _ hi (hstep _ _ _ (h.runsFrom hr) hs.left hs.right)

end System
