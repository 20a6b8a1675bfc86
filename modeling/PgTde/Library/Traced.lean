import Mathlib.Control.Basic

-- A computation that may fail, with the operations that it has performed until its end or its failure.
structure Traced (ε τ α : Type) where
  result : Except ε α
  trace  : List τ

namespace Traced

variable {ε τ α β : Type} {x : Traced ε τ α} {f : α → Traced ε τ β} {a : α} {e : ε} {op : τ} {r : Except ε α}

instance : Monad (Traced ε τ) where
  pure a   := ⟨.ok a, []⟩
  bind x f :=
    match x.result with
    | .error e => ⟨.error e, x.trace⟩
    | .ok a    => ⟨(f a).result, x.trace ++ (f a).trace⟩

-- A computation without operations.
def lift (r : Except ε α) : Traced ε τ α :=
  ⟨r, []⟩

-- An operation, which may fail.
def perform (op : τ) (r : Except ε α) : Traced ε τ α :=
  ⟨r, [op]⟩

theorem bind_of_error (h : x.result = .error e) : x >>= f = ⟨.error e, x.trace⟩ := by
  simp [bind, h]

theorem bind_of_ok (h : x.result = .ok a) : x >>= f = ⟨(f a).result, x.trace ++ (f a).trace⟩ := by
  simp [bind, h]

@[simp]
theorem pure_result : (pure a : Traced ε τ α).result = .ok a :=
  rfl

@[simp]
theorem pure_trace : (pure a : Traced ε τ α).trace = [] :=
  rfl

@[simp]
theorem lift_result : (lift r : Traced ε τ α).result = r :=
  rfl

@[simp]
theorem perform_result : (perform op r).result = r :=
  rfl

@[simp]
theorem bind_result : (x >>= f).result = x.result >>= fun a => (f a).result := by
  cases h : x.result
  case error => rw [bind_of_error h]; rfl
  case ok    => rw [bind_of_ok h]; rfl

@[simp]
theorem lift_ok : (lift (.ok a) : Traced ε τ α) = pure a :=
  rfl

theorem ext {y : Traced ε τ α} (hr : x.result = y.result) (ht : x.trace = y.trace) : x = y := by
  cases x
  cases y
  cases hr
  cases ht
  rfl

theorem id_map (x : Traced ε τ α) : id <$> x = x := by
  cases h : x.result
  case error => exact (bind_of_error h).trans (ext h.symm rfl)
  case ok    => exact (bind_of_ok h).trans (ext h.symm (List.append_nil _))

theorem bind_assoc {γ : Type} (x : Traced ε τ α) (f : α → Traced ε τ β) (g : β → Traced ε τ γ) :
    x >>= f >>= g = x >>= fun a => f a >>= g := by
  cases h : x.result
  case error => rw [bind_of_error h, bind_of_error h, bind_of_error rfl]
  case ok a  =>
    rw [bind_of_ok h, bind_of_ok h]
    cases hf : (f a).result
    case error => rw [bind_of_error rfl, bind_of_error hf]
    case ok    => rw [bind_of_ok rfl, bind_of_ok hf, List.append_assoc]

instance : LawfulMonad (Traced ε τ) :=
  .mk' _ id_map (fun _ _ => bind_of_ok rfl) bind_assoc

@[simp]
theorem lift_error_bind : (lift (.error e) >>= f : Traced ε τ β) = lift (.error e) :=
  bind_of_error rfl

theorem perform_error_bind {f : α → Traced ε τ β} :
    perform op (.error e) >>= f = ⟨.error e, [op]⟩ :=
  bind_of_error rfl

theorem perform_ok_bind {f : α → Traced ε τ β} :
    perform op (.ok a) >>= f = ⟨(f a).result, op :: (f a).trace⟩ :=
  bind_of_ok rfl

theorem bind_pure_trace {b : β} : (x >>= fun _ => pure b).trace = x.trace := by
  cases h : x.result
  case error => rw [bind_of_error h]
  case ok    => rw [bind_of_ok h, pure_trace, List.append_nil]

@[simp]
theorem lift_trace : (lift r : Traced ε τ α).trace = [] :=
  rfl

@[simp]
theorem mem_lift_bind : op ∈ (lift r >>= f).trace ↔ ∃ a, r = .ok a ∧ op ∈ (f a).trace := by
  cases r
  case error => simp only [lift_error_bind, lift_trace, List.not_mem_nil, reduceCtorEq, false_and, exists_false]
  case ok    => simp

@[simp]
theorem mem_perform {op' : τ} : op ∈ (perform op' r).trace ↔ op = op' :=
  List.mem_singleton

-- The computation returns.
def Returns (x : Traced ε τ α) : Prop :=
  ∃ a, x.result = .ok a

-- The operations of a loop are those of the elements that it reaches.
theorem mem_forM_trace {γ : Type} {f : γ → Traced ε τ PUnit} {cs : List γ} :
    op ∈ (cs.forM f).trace ↔
    ∃ l c r, cs = l ++ c :: r ∧ (∀ d ∈ l, (f d).Returns) ∧ op ∈ (f c).trace := by
  induction cs
  case nil => simp [List.forM]
  case cons c cs hi =>
    rw [List.forM]
    have head : op ∈ (f c).trace → ∃ l d r, c :: cs = l ++ d :: r ∧ (∀ d ∈ l, (f d).Returns) ∧ op ∈ (f d).trace :=
      fun h => ⟨[], c, cs, rfl, by simp, h⟩
    cases hc : (f c).result
    case error =>
      rw [bind_of_error hc]
      refine ⟨head, ?_⟩
      rintro ⟨_ | ⟨d, l⟩, c', r, h, hl, ho⟩ <;> cases h
      case nil  => exact ho
      case cons =>
        obtain ⟨a, ha⟩ := hl c List.mem_cons_self
        rw [hc] at ha
        cases ha
    case ok a =>
      rw [bind_of_ok hc, List.mem_append, hi]
      constructor
      case mp =>
        rintro (h | ⟨l, d, r, rfl, hl, ho⟩)
        case inl => exact head h
        case inr => exact ⟨c :: l, d, r, rfl, List.forall_mem_cons.mpr ⟨⟨a, hc⟩, hl⟩, ho⟩
      case mpr =>
        rintro ⟨_ | ⟨d, l⟩, c', r, h, hl, ho⟩ <;> cases h
        case nil  => exact .inl ho
        case cons => exact .inr ⟨l, c', r, rfl, (List.forall_mem_cons.mp hl).right, ho⟩

end Traced
