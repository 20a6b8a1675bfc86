import Mathlib.Algebra.Order.Ring.Int

-- The ways in which a call can end without a result: the C standard leaves its behavior undefined, or
-- it raises an error report of one of PostgreSQL's levels.
inductive Fault
  | undefined
  | error (msg : String)
  | fatal (msg : String)
  | panic (msg : String)
  deriving DecidableEq, Repr

abbrev Outcome := Except Fault

namespace Outcome

variable {α β : Type} {a : α} {x : Outcome α} {f : α → Outcome β} {b : β} {a' : α}

@[simp]
theorem ok_bind : ((.ok a : Outcome α) >>= f) = f a :=
  rfl

@[simp]
theorem error_bind {e : Fault} : ((.error e : Outcome α) >>= f) = .error e :=
  rfl

@[simp]
theorem pure_eq : (pure a : Outcome α) = .ok a :=
  rfl

-- The results that a call may have. Undefined behavior may lead to anything.
def Yields (x : Outcome α) (a : α) : Prop :=
  x = .ok a ∨ x = .error .undefined

@[simp]
theorem yields_ok : Yields (.ok a) a' ↔ a = a' := by
  simp [Yields]

theorem bind_eq_ok_iff : (x >>= f) = .ok b ↔ ∃ a, x = .ok a ∧ f a = .ok b := by
  cases x <;> simp

-- Each result in a list is that of a call.
theorem mapM_mem {as : List α} {bs : List β} (h : as.mapM f = .ok bs) :
    ∀ b ∈ bs, ∃ a ∈ as, f a = .ok b := by
  induction as generalizing bs
  case nil          =>
    cases h
    exact List.forall_mem_nil _
  case cons a as hi =>
    rw [List.mapM_cons] at h
    obtain ⟨b, hb, h⟩ := bind_eq_ok_iff.mp h
    obtain ⟨bs', hbs, h⟩ := bind_eq_ok_iff.mp h
    cases h
    refine List.forall_mem_cons.mpr ⟨⟨a, List.mem_cons_self, hb⟩, fun b' hb' => ?_⟩
    obtain ⟨a', ha, hf⟩ := hi hbs b' hb'
    exact ⟨a', List.mem_cons_of_mem _ ha, hf⟩

-- Two calls return, and their results are related.
def Agree (R : α → β → Prop) (x : Outcome α) (y : Outcome β) : Prop :=
  ∃ a b, x = .ok a ∧ y = .ok b ∧ R a b

section

variable {α' β' : Type} {R : α → β → Prop} {S : α' → β' → Prop} {y : Outcome β}

@[simp]
theorem agree_ok : Agree R (.ok a) (.ok b) ↔ R a b := by
  simp [Agree]

theorem Agree.bind {f : α → Outcome α'} {g : β → Outcome β'} (h : Agree R x y)
    (hf : ∀ a b, R a b → Agree S (f a) (g b)) : Agree S (x >>= f) (y >>= g) := by
  obtain ⟨a, b, rfl, rfl, h⟩ := h
  exact hf a b h

end

end Outcome
