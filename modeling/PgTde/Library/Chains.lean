import Mathlib.Data.List.Nodup
import Mathlib.Data.Set.Insert

-- Items that form chains: an item may have a key, and may refer to its successor by that one's key.
structure Chains (τ κ : Type _) where
  items      : Set τ
  key        : τ → Option κ
  target     : τ → Option κ
  key_inj    : ∀ t ∈ items, ∀ u ∈ items, ∀ k, key t = some k → key u = some k → t = u
  target_inj : ∀ t ∈ items, ∀ u ∈ items, ∀ k, target t = some k → target u = some k → t = u

namespace Chains

-- An item at its new location, along with the location that it has been linked to.
structure Entry (τ ℓ : Type _) where
  item : τ
  loc  : ℓ
  next : Option ℓ

variable {τ κ ℓ : Type _} (c : Chains τ κ)

-- The chain from an item on is complete.
inductive Resolved : τ → Prop
  | last {t : τ} : t ∈ c.items → c.target t = none → Resolved t
  | next {t u : τ} {k : κ} :
    t ∈ c.items → c.target t = some k → c.key u = some k → Resolved u → Resolved t

-- The last item of a chain is not linked, and all others are linked to where their successors are.
inductive Linked (written : List (Entry τ ℓ)) (t : τ) : Option ℓ → Prop
  | last : c.target t = none → Linked written t none
  | next {e : Entry τ ℓ} {k : κ} :
    e ∈ written → c.target t = some k → c.key e.item = some k → Linked written t (some e.loc)

-- The state of a pass over the items that writes an item once its successor has been written. The other items
-- are left waiting, and the locations of items that may have predecessors are noted. An item in `current`
-- is about to be written.
structure Pass (current : List τ) (written : List (Entry τ ℓ)) (waiting : List τ) (noted : κ → Option ℓ)
    (seen : Set τ) : Prop where
  items    : seen ⊆ c.items
  mem      : ∀ t, t ∈ seen ↔ t ∈ current ∨ t ∈ written.map (·.item) ∨ t ∈ waiting
  nodup    : (current ++ (written.map (·.item) ++ waiting)).Nodup
  resolved : ∀ e ∈ written, c.Resolved e.item
  linked   : ∀ e ∈ written, c.Linked written e.item e.next
  waits    : ∀ t ∈ waiting, ∃ k, c.target t = some k ∧ ∀ e ∈ written, c.key e.item ≠ some k
  found    : ∀ k l, noted k = some l → ∃ e ∈ written, c.key e.item = some k ∧ e.loc = l
  notes    : ∀ e ∈ written, ∀ k, c.key e.item = some k →
    (∀ t ∈ current, c.target t ≠ some k) → (∀ e ∈ written, c.target e.item ≠ some k) → noted k = some e.loc

variable {c} {current waiting : List τ} {written written' : List (Entry τ ℓ)} {noted noted' : κ → Option ℓ}
variable {seen : Set τ} {t u : τ} {e : Entry τ ℓ} {k : κ} {l : ℓ} {next : Option ℓ}

theorem Resolved.mem (h : c.Resolved t) : t ∈ c.items := by
  cases h <;> assumption

theorem Linked.mono (h : c.Linked written t next) (hs : written ⊆ written') : c.Linked written' t next := by
  cases h
  case last h       => exact .last h
  case next he ht hk => exact .next (hs he) ht hk

theorem Linked.resolved (h : c.Linked written t next) (ht : t ∈ c.items)
    (hr : ∀ e ∈ written, c.Resolved e.item) : c.Resolved t := by
  cases h
  case last h        => exact .last ht h
  case next he h hk  => exact .next ht h hk (hr _ he)

-- An item with a successor is linked if its successor has been written.
theorem Linked.exists_key (h : c.Linked written t next) (ht : c.target t = some k) :
    ∃ e ∈ written, c.key e.item = some k := by
  cases h
  case last hn       => cases hn.symm.trans ht
  case next he h hk  => exact ⟨_, he, hk.trans (h.symm.trans ht)⟩

namespace Pass

theorem start : c.Pass [] ([] : List (Entry τ ℓ)) [] (fun _ => none) ∅ where
  items    := Set.empty_subset _
  mem _    := by simp
  nodup    := .nil
  resolved := by simp
  linked   := by simp
  waits    := by simp
  found    := by simp
  notes    := by simp

theorem written_mem (i : c.Pass current written waiting noted seen) (he : e ∈ written) : e.item ∈ seen :=
  (i.mem _).mpr <| .inr <| .inl <| List.mem_map_of_mem he

-- No item that has been written refers to a key that an item outside of the written ones refers to.
theorem target_ne (i : c.Pass [] written waiting noted seen) (ht : t ∈ c.items) (hn : t ∉ seen)
    (hk : c.target t = some k) : ∀ e ∈ written, c.target e.item ≠ some k := by
  intro e he hek
  have hs := i.written_mem he
  exact hn (c.target_inj _ (i.items hs) _ ht k hek hk ▸ hs)

-- An item is about to be written, and the note that it has been looking for is taken away.
theorem enter (i : c.Pass [] written waiting noted seen) (ht : t ∈ c.items) (hn : t ∉ seen)
    (hsub : ∀ k l, noted' k = some l → noted k = some l)
    (heq : ∀ k, c.target t ≠ some k → noted' k = noted k) :
    c.Pass [t] written waiting noted' (insert t seen) where
  items    := Set.insert_subset ht i.items
  mem u    := by simp [i.mem u]
  nodup    := by
    rw [List.singleton_append, List.nodup_cons]
    refine ⟨?_, i.nodup⟩
    rw [List.mem_append]
    exact fun h => hn ((i.mem t).mpr (.inr h))
  resolved := i.resolved
  linked   := i.linked
  waits    := i.waits
  found k l hl := i.found k l (hsub k l hl)
  notes    := by
    intro e he k hk hc hw
    rw [heq k (hc t (List.mem_singleton_self t))]
    exact i.notes e he k hk (by simp) hw

-- An item is left waiting if the location of its successor is not known.
theorem stash (i : c.Pass [] written waiting noted seen) (ht : t ∈ c.items) (hn : t ∉ seen)
    (hk : c.target t = some k) (hnone : noted k = none) :
    c.Pass [] written (t :: waiting) noted (insert t seen) where
  items    := Set.insert_subset ht i.items
  mem u    := by
    rw [Set.mem_insert_iff, i.mem u, List.mem_cons]
    tauto
  nodup    := by
    rw [List.nil_append, List.nodup_middle, List.nodup_cons]
    refine ⟨?_, i.nodup⟩
    rw [List.mem_append]
    exact fun h => hn ((i.mem t).mpr (.inr h))
  resolved := i.resolved
  linked   := i.linked
  waits    := by
    intro u hu
    cases hu
    case tail hu => exact i.waits u hu
    case head    =>
      refine ⟨k, hk, fun e he hek => ?_⟩
      have hl := i.notes e he k hek (by simp) (i.target_ne ht hn hk)
      rw [hnone] at hl
      cases hl
  found    := i.found
  notes    := i.notes

section Write

variable (i : c.Pass [t] written waiting noted seen) (hl : c.Linked written t next)

include i in
theorem current_mem : t ∈ seen :=
  (i.mem t).mpr (.inl (List.mem_singleton_self t))

include i in
-- Another item with the same key has not been written.
theorem key_ne (hk : c.key t = some k) : ∀ e ∈ written, c.key e.item ≠ some k := by
  intro e he hek
  have het := c.key_inj _ (i.items (i.written_mem he)) _ (i.items i.current_mem) k hek hk
  have hn := i.nodup
  rw [List.singleton_append, List.nodup_cons, List.mem_append] at hn
  exact hn.1 (.inl (het ▸ List.mem_map_of_mem he))

include i hl in
theorem write_resolved : ∀ e ∈ ⟨t, l, next⟩ :: written, c.Resolved e.item := by
  rw [List.forall_mem_cons]
  exact ⟨hl.resolved (i.items i.current_mem) i.resolved, i.resolved⟩

include i hl in
theorem write_linked : ∀ e ∈ ⟨t, l, next⟩ :: written, c.Linked (⟨t, l, next⟩ :: written) e.item e.next := by
  rw [List.forall_mem_cons]
  exact ⟨hl.mono (List.subset_cons_self _ _),
    fun e he => (i.linked e he).mono (List.subset_cons_self _ _)⟩

include i hl in
-- The item has been written, no item is waiting for it, and its location is noted if it has a key.
theorem note (hw : ∀ k, c.key t = some k → (∀ u ∈ waiting, c.target u ≠ some k) ∧ noted' k = some l)
    (heq : ∀ k, c.key t ≠ some k → noted' k = noted k) :
    c.Pass [] (⟨t, l, next⟩ :: written) waiting noted' seen where
  items    := i.items
  mem u    := by
    rw [i.mem u]
    simp only [List.map_cons, List.mem_cons, List.not_mem_nil]
    tauto
  nodup    := i.nodup
  resolved := i.write_resolved hl
  linked   := i.write_linked hl
  waits    := by
    intro u hu
    obtain ⟨k, hk, hn⟩ := i.waits u hu
    exact ⟨k, hk, List.forall_mem_cons.mpr ⟨fun ht => (hw k ht).1 u hu hk, hn⟩⟩
  found    := by
    intro k l' hl'
    by_cases hk : c.key t = some k
    case pos =>
      cases (hw k hk).2.symm.trans hl'
      exact ⟨_, List.mem_cons_self, hk, rfl⟩
    case neg =>
      rw [heq k hk] at hl'
      obtain ⟨e, he, h⟩ := i.found k l' hl'
      exact ⟨e, List.mem_cons_of_mem _ he, h⟩
  notes    := by
    intro e he k hek _ hc
    obtain ⟨ht, hc⟩ := List.forall_mem_cons.mp hc
    cases he
    case head    => exact (hw k hek).2
    case tail he =>
      rw [heq k fun hk => i.key_ne hk e he hek]
      exact i.notes e he k hek (by simpa using ht) hc

variable [DecidableEq κ]

include i hl in
-- The item has been written, and the one that has been waiting for it is next.
theorem resolve (hk : c.key t = some k) (hu : u ∈ waiting) (hut : c.target u = some k) :
    c.Pass [u] (⟨t, l, next⟩ :: written) (waiting.filter fun w => c.target w ≠ some k) noted seen ∧
    c.Linked (⟨t, l, next⟩ :: written) u (some l) := by
  have hus : u ∈ seen := (i.mem u).mpr (.inr (.inr hu))
  have hws (w) (hw : w ∈ waiting) : c.target w = some k ↔ w = u := by
    constructor
    case mp  => exact fun h => c.target_inj _ (i.items ((i.mem w).mpr (.inr (.inr hw)))) _ (i.items hus) k h hut
    case mpr => exact fun h => h ▸ hut
  have hn := i.nodup
  rw [List.singleton_append, List.nodup_cons, List.nodup_append] at hn
  obtain ⟨ht, hwn, hun, hd⟩ := hn
  refine ⟨?_, .next List.mem_cons_self hut hk⟩
  constructor
  case items    => exact i.items
  case resolved => exact i.write_resolved hl
  case linked   => exact i.write_linked hl
  case mem      =>
    intro w
    rw [i.mem w]
    simp only [List.map_cons, List.mem_cons, List.not_mem_nil, or_false, List.mem_filter, decide_eq_true_eq]
    by_cases hw : w ∈ waiting
    case neg =>
      have : w ≠ u := fun h => hw (h ▸ hu)
      tauto
    case pos =>
      have := hws w hw
      tauto
  case nodup    =>
    rw [List.singleton_append, List.nodup_cons, List.nodup_append, List.map_cons, List.nodup_cons]
    refine ⟨?_, ⟨fun h => ht (List.mem_append_left _ h), hwn⟩, hun.filter _, ?_⟩
    · simp only [List.mem_append, List.mem_cons, List.mem_filter, decide_eq_true_eq, not_or, not_and]
      refine ⟨⟨?_, fun h => hd _ h u hu rfl⟩, fun _ => absurd hut⟩
      rintro rfl
      exact ht (List.mem_append_right _ hu)
    · intro a ha b hb
      have hb := List.mem_of_mem_filter hb
      cases ha
      case head    =>
        rintro rfl
        exact ht (List.mem_append_right _ hb)
      case tail ha => exact hd a ha b hb
  case waits    =>
    intro w hw
    obtain ⟨hw, hne⟩ := List.mem_filter.mp hw
    obtain ⟨k', hk', hn⟩ := i.waits w hw
    refine ⟨k', hk', List.forall_mem_cons.mpr ⟨fun h => ?_, hn⟩⟩
    rw [hk', ←h, hk] at hne
    exact absurd rfl (of_decide_eq_true hne)
  case found    =>
    intro k' l' hl'
    obtain ⟨e, he, h⟩ := i.found k' l' hl'
    exact ⟨e, List.mem_cons_of_mem _ he, h⟩
  case notes    =>
    intro e he k' hek hc hw
    obtain ⟨ht, hw⟩ := List.forall_mem_cons.mp hw
    cases he
    case head    =>
      rw [hk] at hek
      exact absurd (hek ▸ hut) (hc u (List.mem_singleton_self u))
    case tail he => exact i.notes e he k' hek (by simpa using ht) hw

end Write

-- The item that has been waiting for a key is dropped. No item has the key.
theorem cancel [DecidableEq κ] (i : c.Pass [] written waiting noted seen) (hk : ∀ t ∈ c.items, c.key t ≠ some k) :
    c.Pass [] written (waiting.filter fun w => c.target w ≠ some k) noted {t ∈ seen | c.target t ≠ some k} where
  items    := fun _ h => i.items h.1
  mem      := by
    intro t
    have ht : t ∈ written.map (·.item) → c.target t ≠ some k := by
      intro h hkt
      obtain ⟨e, he, rfl⟩ := List.mem_map.mp h
      obtain ⟨e', he', hk'⟩ := (i.linked e he).exists_key hkt
      exact hk _ (i.items (i.written_mem he')) hk'
    simp only [Set.mem_ofPred_eq, i.mem t, List.mem_filter, decide_eq_true_eq]
    tauto
  nodup    := i.nodup.sublist (List.filter_sublist.append_left _)
  resolved := i.resolved
  linked   := i.linked
  waits    := fun w hw => i.waits w (List.mem_of_mem_filter hw)
  found    := i.found
  notes    := i.notes

-- In the end, the chains of the items that are still waiting are not complete.
theorem waiting_unresolved (i : c.Pass [] written waiting noted seen) (hs : ∀ t, c.Resolved t → t ∈ seen)
    (h : c.Resolved t) : t ∉ waiting := by
  induction h
  case last ht hk =>
    intro hw
    obtain ⟨k, hk', -⟩ := i.waits _ hw
    cases hk.symm.trans hk'
  case next u k ht hk hu hr hi =>
    intro hw
    obtain ⟨k', hk', hn⟩ := i.waits _ hw
    cases hk.symm.trans hk'
    obtain h | h | h := (i.mem u).mp (hs u hr)
    · cases h
    · obtain ⟨e, he, rfl⟩ := List.mem_map.mp h
      exact hn e he hu
    · exact hi h

end Pass

end Chains
