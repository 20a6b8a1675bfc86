import PgTde.Prune.Theorems.Scan

namespace Move

variable {b : Bool} {upper : Nat} {item : ItemIdCompactData} {items : List ItemIdCompactData} {m : Move}

theorem item_mem_of_mem_plan (h : m ∈ plan upper items) : m.item ∈ items := by
  rw [←@map_item_plan upper items]
  exact List.mem_map_of_mem h

theorem dst_le_of_mem_plan (h : m ∈ plan upper items) : m.dst ≤ upper := by
  induction items generalizing upper
  case nil             => simp [plan] at h
  case cons item items hi =>
    simp only [plan, List.mem_cons] at h
    cases h
    case inl h => subst h; simp
    case inr h => exact Nat.le_trans (hi h) (Nat.sub_le _ _)

theorem dst_add_le_of_mem_plan (hs : (items.map (·.alignedlen)).sum ≤ upper)
    (h : m ∈ plan upper items) : m.dst + m.item.alignedlen ≤ upper := by
  induction items generalizing upper
  case nil             => simp [plan] at h
  case cons item items hi =>
    simp only [List.map_cons, List.sum_cons] at hs
    simp only [plan, List.mem_cons] at h
    cases h
    case inl h => subst h; simp only; omega
    case inr h => exact Nat.le_trans (hi (by omega) h) (Nat.sub_le _ _)

-- The order of tuples in the presorted case: each one is below its predecessor.
def Below (item next : ItemIdCompactData) : Prop :=
  next.itemoff + next.alignedlen ≤ item.itemoff

theorem plan_precedes (hs : (items.map (·.alignedlen)).sum ≤ upper) (hp : b → items.IsChain Below) :
    (plan upper items).IsChain (Precedes b) := by
  induction items generalizing upper
  case nil             => simp [plan]
  case cons item items hi =>
    simp only [List.map_cons, List.sum_cons] at hs
    have hi : (plan (upper - item.alignedlen) items).IsChain (Precedes b) :=
      hi (by omega) fun h => (hp h).of_cons
    cases items
    case nil          => simp [plan]
    case cons next items =>
      simp only [List.map_cons, List.sum_cons] at hs
      refine List.isChain_cons_cons.mpr ⟨⟨?_, ?_⟩, hi⟩
      · simp only
        omega
      · exact fun h => (List.isChain_cons_cons.mp (hp h)).1

theorem plan_up (hs : (items.map (·.alignedlen)).sum ≤ upper) (hp : items.IsChain Below)
    (hf : ∀ item ∈ items.head?, item.itemoff + item.alignedlen ≤ upper) (h : m ∈ plan upper items) :
    m.src ≤ m.dst := by
  induction items generalizing upper
  case nil             => simp [plan] at h
  case cons item items hi =>
    simp only [List.head?_cons, Option.mem_def, Option.some.injEq, forall_eq'] at hf
    simp only [List.map_cons, List.sum_cons] at hs
    simp only [plan, List.mem_cons] at h
    cases h
    case inl h => subst h; simp only [src]; omega
    case inr h =>
      refine hi (by omega) hp.of_cons ?_ h
      intro next hn
      cases items
      case nil => simp at hn
      case cons next' items =>
        simp only [List.head?_cons, Option.mem_def, Option.some.injEq] at hn
        subst hn
        have := (List.isChain_cons_cons.mp hp).1
        simp only [Below] at this
        omega

-- Where the search for the first tuple to be moved ends.
theorem skipInPlace_eq (hs : (items.map (·.alignedlen)).sum ≤ upper) :
    Compaction.skipInPlace upper item items =
    match (plan upper items).dropWhile (·.inPlace) with
    | []      => (upper - (items.map (·.alignedlen)).sum, items.getLastD item, [])
    | m :: ms => (m.dst + m.item.alignedlen, m.item, (m :: ms).map (·.item)) := by
  induction items generalizing upper item
  case nil              => simp [Compaction.skipInPlace, plan]
  case cons next items hi =>
    simp only [List.map_cons, List.sum_cons] at hs
    rw [Compaction.skipInPlace]
    by_cases h : upper = next.itemoff + next.alignedlen
    case pos =>
      have hp : inPlace ⟨next, upper - next.alignedlen⟩ := by simp [inPlace, src, h]
      rw [if_neg (by simpa using h), hi (by omega)]
      simp only [plan, List.dropWhile_cons, hp, if_true]
      split
      case h_1 =>
        simp only [List.map_cons, List.sum_cons, List.getLastD_cons, Prod.mk.injEq, and_true]
        omega
      case h_2 => rfl
    case neg =>
      have hp : ¬inPlace ⟨next, upper - next.alignedlen⟩ := by
        simp only [inPlace, src, decide_eq_true_eq]
        omega
      simp only [ne_eq, h, not_false_eq_true, if_true, plan, List.dropWhile_cons, hp, List.map_cons,
        map_item_plan, Bool.false_eq_true, if_false, Prod.mk.injEq, and_true]
      omega

-- The tuples that are in place fill the space above those that are moved.
theorem below_of_dropWhile {x : ItemIdCompactData} {ms : List Move}
    (hd : (plan upper items).dropWhile (·.inPlace) = m :: ms)
    (hs : (items.map (·.alignedlen)).sum ≤ upper) (hv : ∀ item ∈ items, item.Valid)
    (hx : x.Valid) (hu : x.itemoff + x.alignedlen ≤ upper)
    (hxd : ∀ n ∈ (plan upper items).takeWhile (·.inPlace), n.item.extent.Disjoint x.extent) :
    x.itemoff + x.alignedlen ≤ m.dst + m.item.alignedlen := by
  induction items generalizing upper
  case nil              => simp [plan] at hd
  case cons next items hi =>
    simp only [List.map_cons, List.sum_cons] at hs
    by_cases hp : inPlace ⟨next, upper - next.alignedlen⟩
    case neg =>
      simp only [plan, List.dropWhile_cons, hp, Bool.false_eq_true, if_false, List.cons.injEq] at hd
      rw [←hd.1]
      simp only
      omega
    case pos =>
      simp only [plan, List.dropWhile_cons, List.takeWhile_cons, hp, if_true] at hd hxd
      refine hi hd (by omega) (fun i h => hv i (by simp [h])) ?_ fun n hn => hxd n (by simp [hn])
      have hdis := hxd _ (List.mem_cons_self ..)
      have hh := hx.header
      have ha := hx.aligned
      simp only [inPlace, src, decide_eq_true_eq] at hp
      simp only [sizeofHeapTupleHeaderData] at hh
      simp only [Extent.Disjoint, ItemIdCompactData.extent] at hdis
      omega

end Move

namespace Page

variable {page : Page} {m : Move}

theorem layout_moves :
    page.layout.skipped ++ page.layout.moved = Move.plan page.pdSpecial page.storage := by
  rw [layout]
  split
  case isTrue  => exact List.takeWhile_append_dropWhile
  case isFalse => rfl

theorem layout_inPlace (h : m ∈ page.layout.skipped) : m.inPlace := by
  rw [layout] at h
  split at h
  case isTrue  => exact List.all_eq_true.mp List.all_takeWhile _ h
  case isFalse => simp at h

theorem layout_of_some (h : page.presorted ∨ page.linp.length / 4 ≤ page.storage.length) :
    page.layout.moved = (Move.plan page.pdSpecial page.storage).dropWhile (·.inPlace) := by
  rw [layout, if_pos h]

theorem layout_of_few (h : ¬(page.presorted ∨ page.linp.length / 4 ≤ page.storage.length)) :
    page.layout.moved = Move.plan page.pdSpecial page.storage := by
  rw [layout, if_neg h]

end Page
