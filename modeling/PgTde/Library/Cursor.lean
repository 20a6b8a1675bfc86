import PgTde.Library.Runs

-- A cursor: a state from which calls of `next` yield one value each, until there is none left.

variable {σ α β ε : Type _} {next : σ → Except ε (Option β × σ)} {test : α → Except ε Bool}
variable {emit : α → β} {ahead : σ → List α → Prop}
variable {s s' : σ} {a : α} {as rest : List α} {b : β} {bs : List β}

-- The values of all calls up to the one that has none.
def Exhausts (next : σ → Except ε (Option β × σ)) (s : σ) (bs : List β) : Prop :=
  ∃ s' s'', Runs (fun s b s' => next s = .ok (some b, s')) s bs s' ∧ next s' = .ok (none, s'')

-- The first element that passes the test, and the elements behind it.
def firstMatch (test : α → Except ε Bool) : List α → Except ε (Option (α × List α))
  | []      => .ok none
  | a :: as => do if ← test a then return some (a, as) else firstMatch test as

def passes (test : α → Except ε Bool) (a : α) : Bool :=
  (test a).toOption.getD false

theorem passes_iff : passes test a ↔ test a = .ok true := by
  rw [passes]
  cases test a
  case error => simp [Except.toOption]
  case ok    => simp [Except.toOption]

theorem firstMatch_cons_error {e : ε} (h : test a = .error e) : firstMatch test (a :: as) = .error e := by
  rw [firstMatch, h]
  rfl

theorem firstMatch_cons_false (h : test a = .ok false) : firstMatch test (a :: as) = firstMatch test as := by
  rw [firstMatch, h]
  rfl

theorem firstMatch_cons_true (h : test a = .ok true) : firstMatch test (a :: as) = .ok (some (a, as)) := by
  rw [firstMatch, h]
  rfl

-- A search goes on behind elements that have no match.
theorem firstMatch_append : firstMatch test (as ++ rest) = (do
    match ← firstMatch test as with
    | some (a, as) => return some (a, as ++ rest)
    | none         => firstMatch test rest) := by
  induction as
  case nil          => rfl
  case cons a as hi =>
    rw [List.cons_append]
    cases ht : test a
    case error e => rw [firstMatch_cons_error ht, firstMatch_cons_error ht]; rfl
    case ok b    =>
      cases b
      case false => rw [firstMatch_cons_false ht, firstMatch_cons_false ht, hi]
      case true  => rw [firstMatch_cons_true ht, firstMatch_cons_true ht]; rfl

theorem firstMatch_eq_some (h : firstMatch test as = .ok (some (a, rest))) :
    ∃ before, as = before ++ a :: rest := by
  induction as
  case nil          => cases h
  case cons c as hi =>
    cases ht : test c
    case error e =>
      rw [firstMatch_cons_error ht] at h
      cases h
    case ok b =>
      cases b
      case false =>
        rw [firstMatch_cons_false ht] at h
        obtain ⟨before, h⟩ := hi h
        exact ⟨c :: before, by rw [h, List.cons_append]⟩
      case true =>
        rw [firstMatch_cons_true ht] at h
        cases h
        exact ⟨[], rfl⟩

-- A call with the result `r` finds the first match of the elements `as`.
def Finds (test : α → Except ε Bool) (emit : α → β) (ahead : σ → List α → Prop) (as : List α)
    (r : Except ε (Option β × σ)) : Prop :=
  match firstMatch test as with
  | .error e             => r = .error e
  | .ok none             => ∃ s', r = .ok (none, s')
  | .ok (some (a, rest)) => ∃ s', r = .ok (some (emit a), s') ∧ ahead s' rest

theorem exhausts_of_error {e : ε} (h : next s = .error e) : ¬Exhausts next s bs := by
  rintro ⟨s', s'', hr, hn⟩
  cases hr
  case nil       => cases h.symm.trans hn
  case cons hr _ => cases h.symm.trans hr

theorem exhausts_of_none (h : next s = .ok (none, s')) : Exhausts next s bs ↔ bs = [] := by
  constructor
  case mp =>
    rintro ⟨s₁, s₂, hr, hn⟩
    cases hr
    case nil       => rfl
    case cons hr _ => cases h.symm.trans hr
  case mpr =>
    rintro rfl
    exact ⟨s, s', .nil, h⟩

theorem exhausts_of_some (h : next s = .ok (some b, s')) :
    Exhausts next s bs ↔ ∃ cs, bs = b :: cs ∧ Exhausts next s' cs := by
  constructor
  case mp =>
    rintro ⟨s₁, s₂, hr, hn⟩
    cases hr
    case nil                  => cases h.symm.trans hn
    case cons s₃ c cs hr hrun =>
      cases h.symm.trans hr
      exact ⟨cs, rfl, s₁, s₂, hrun, hn⟩
  case mpr =>
    rintro ⟨cs, rfl, s₁, s₂, hr, hn⟩
    exact ⟨s₁, s₂, .cons h hr, hn⟩

-- If each call finds the first match of the elements that are ahead, then all calls together yield the
-- elements that pass the test, unless it fails on an element.
theorem exhausts_iff (hn : ∀ s as, ahead s as → Finds test emit ahead as (next s))
    (hf : Finds test emit ahead as (next s)) :
    Exhausts next s bs ↔
    (∀ a ∈ as, ∃ b, test a = .ok b) ∧ bs = (as.filter (passes test)).map emit := by
  induction as generalizing s bs
  case nil =>
    obtain ⟨s', h⟩ := hf
    simp [exhausts_of_none h]
  case cons a as hi =>
    rw [Finds] at hf
    cases ht : test a
    case error e =>
      rw [firstMatch_cons_error ht] at hf
      simp [exhausts_of_error hf, ht]
    case ok b =>
      cases b
      case false =>
        rw [firstMatch_cons_false ht] at hf
        simp [hi hf, ht, passes_iff]
      case true =>
        rw [firstMatch_cons_true ht] at hf
        obtain ⟨s', h, ha⟩ := hf
        have hp : passes test a := passes_iff.mpr ht
        simp [exhausts_of_some h, hi (hn _ _ ha), ht, hp, and_comm]
