import PgTde.Prune.Execute
import PgTde.Prune.Theorems.Repair

theorem List.mem_modify {α : Type _} {l : List α} {i : Nat} {f : α → α} {a : α}
    (h : a ∈ l.modify i f) : a ∈ l ∨ ∃ b ∈ l, a = f b := by
  obtain ⟨j, hj⟩ := List.mem_iff_getElem?.mp h
  rw [List.getElem?_modify] at hj
  obtain ⟨b, hb, he⟩ := Option.map_eq_some_iff.mp hj
  split at he
  case isTrue  => exact .inr ⟨b, List.mem_of_getElem? hb, he.symm⟩
  case isFalse => exact .inl <| he ▸ List.mem_of_getElem? hb

theorem List.Pairwise.modify {α : Type _} {R : α → α → Prop} {l : List α} {i : Nat} {f : α → α}
    (hl : ∀ a b, R a b → R (f a) b) (hr : ∀ a b, R a b → R a (f b)) (h : l.Pairwise R) :
    (l.modify i f).Pairwise R := by
  induction l generalizing i
  case nil          => simp
  case cons a l hi =>
    rw [List.pairwise_cons] at h
    cases i
    case zero   => exact List.pairwise_cons.mpr ⟨fun b hb => hl a b (h.1 b hb), h.2⟩
    case succ i =>
      refine List.pairwise_cons.mpr ⟨fun b hb => ?_, hi h.2⟩
      cases List.mem_modify hb
      case inl hb => exact h.1 b hb
      case inr hb =>
        obtain ⟨c, hc, he⟩ := hb
        exact he ▸ hr a c (h.1 c hc)

-- The changes of line pointers that leave them without storage.
abbrev ItemIdData.Clearing :=
  { f : ItemIdData → ItemIdData // ∀ lp, ¬(f lp).hasStorage }

namespace HeapPage

variable {page : HeapPage} {f : ItemIdData.Clearing} {offnum : Nat}

-- A line pointer loses its storage, and the page stays well-formed.
def clear (page : HeapPage) (offnum : Nat) (f : ItemIdData.Clearing) : HeapPage where
  toPage          := page.modifyItemId offnum f.val
  lower_le        := by simpa [Page.modifyItemId, Page.pdLower] using page.lower_le
  upper_le        := page.upper_le
  special_le      := page.special_le
  special_aligned := page.special_aligned
  tuples          := by
    intro lp hl hs
    cases List.mem_modify hl
    case inl hl =>
      have ht := page.tuples lp hl hs
      exact ⟨ht.normal, ht.upper_le, ht.le_special, ht.aligned, ht.header, ht.hoff_le⟩
    case inr hl =>
      obtain ⟨lp', _, he⟩ := hl
      exact absurd (he ▸ hs) (f.property lp')
  disjoint        := page.disjoint.modify
    (fun lp _ _ hs => absurd hs (f.property lp)) (fun _ lp _ _ hs => absurd hs (f.property lp))

@[simp]
theorem clear_getMaxOffsetNumber :
    (page.clear offnum f).getMaxOffsetNumber = page.getMaxOffsetNumber := by
  simp [clear, Page.modifyItemId, Page.getMaxOffsetNumber]

theorem updateItemId_eq (h : 0 < offnum ∧ offnum ≤ page.getMaxOffsetNumber) :
    page.updateItemId offnum f.val = .ok (page.clear offnum f).toPage := by
  have hl : offnum - 1 < page.linp.length := by
    simp only [Page.getMaxOffsetNumber] at h
    omega
  simp [Page.updateItemId, Page.getItemId, Nat.pos_iff_ne_zero.mp h.1, hl, clear]

def clearAll (page : HeapPage) (cs : List (Nat × ItemIdData.Clearing)) : HeapPage :=
  cs.foldl (fun page c => page.clear c.1 c.2) page

theorem updateItemIds_eq {cs : List (Nat × ItemIdData.Clearing)}
    (h : ∀ c ∈ cs, 0 < c.1 ∧ c.1 ≤ page.getMaxOffsetNumber) :
    (cs.foldlM (fun p c => p.updateItemId c.1 c.2.val) page.toPage : Outcome Page) =
    .ok (page.clearAll cs).toPage := by
  induction cs generalizing page
  case nil          => rfl
  case cons c cs hi =>
    rw [List.foldlM_cons, updateItemId_eq (h c (by simp)), Outcome.ok_bind,
      hi fun d hd => by simpa using h d (by simp [hd])]
    rfl

end HeapPage

namespace PrunePlan

-- The line pointer changes of a plan, in their order.
def changes (plan : PrunePlan) : List (Nat × ItemIdData.Clearing) :=
  plan.redirected.map (fun p =>
    (p.1, ⟨(·.setRedirect p.2), by simp [ItemIdData.setRedirect, ItemIdData.hasStorage]⟩)) ++
  (plan.nowdead.map (·, ⟨(·.setDead), by simp [ItemIdData.setDead, ItemIdData.hasStorage]⟩) ++
  plan.nowunused.map (·, ⟨(·.setUnused), by simp [ItemIdData.setUnused, ItemIdData.hasStorage]⟩))

-- A plan is about line pointers that the page has.
def Valid (plan : PrunePlan) (page : Page) : Prop :=
  ∀ c ∈ plan.changes, 0 < c.1 ∧ c.1 ≤ page.getMaxOffsetNumber

instance (plan : PrunePlan) (page : Page) : Decidable (plan.Valid page) :=
  inferInstanceAs <| Decidable (∀ c ∈ plan.changes, 0 < c.1 ∧ c.1 ≤ page.getMaxOffsetNumber)

end PrunePlan

-- A plan for a page.
abbrev HeapPage.Plan (page : HeapPage) :=
  { plan : PrunePlan // plan.Valid page.toPage }

namespace HeapPage

variable {page : HeapPage} {P : Platform} {bn : Nat} {key : Block} {stack : Memory}

-- The page with the changes of a plan, before the compaction.
def pruned (page : HeapPage) (plan : page.Plan) : HeapPage :=
  page.clearAll plan.val.changes

variable (P bn key stack) in
theorem pgTdePagePruneExecute_eq_changes (plan : PrunePlan) (page : Page) :
    P.pgTdePagePruneExecute bn key stack plan page =
    (plan.changes.foldlM (fun p c => p.updateItemId c.1 c.2.val) page >>=
      P.tdePageRepairFragmentation bn key stack) := by
  simp only [Platform.pgTdePagePruneExecute, PrunePlan.changes, List.foldlM_append, List.foldlM_map,
    bind_assoc]

theorem pgTdePagePruneExecute_eq (plan : page.Plan) :
    P.pgTdePagePruneExecute bn key stack plan.val page.toPage =
    P.tdePageRepairFragmentation bn key stack (page.pruned plan).toPage := by
  rw [pgTdePagePruneExecute_eq_changes, updateItemIds_eq plan.property, Outcome.ok_bind, pruned]

-- A plan about other line pointers is not carried out.
theorem updateItemIds_valid {cs : List (Nat × ItemIdData.Clearing)} {page r : Page}
    (h : (cs.foldlM (fun p c => p.updateItemId c.1 c.2.val) page : Outcome Page) = .ok r) :
    ∀ c ∈ cs, 0 < c.1 ∧ c.1 ≤ page.getMaxOffsetNumber := by
  induction cs generalizing page
  case nil          => simp
  case cons c cs hi =>
    rw [List.foldlM_cons, Outcome.bind_eq_ok_iff] at h
    obtain ⟨p, hp, h⟩ := h
    simp only [Page.updateItemId, Page.getItemId] at hp
    split at hp
    case h_2       => cases hp
    case h_1 lp hl =>
      cases hp
      split at hl
      case isTrue => cases hl
      case isFalse hz =>
        obtain ⟨hlt, _⟩ := List.getElem?_eq_some_iff.mp hl
        refine List.forall_mem_cons.mpr ⟨⟨by omega, by simp only [Page.getMaxOffsetNumber]; omega⟩, ?_⟩
        simpa [Page.modifyItemId, Page.getMaxOffsetNumber] using hi h

theorem valid_of_execute {plan : PrunePlan} {page r : Page}
    (h : P.pgTdePagePruneExecute bn key stack plan page = .ok r) : plan.Valid page := by
  rw [pgTdePagePruneExecute_eq_changes, Outcome.bind_eq_ok_iff] at h
  obtain ⟨_, h, _⟩ := h
  exact updateItemIds_valid h

-- The line pointers that a plan leaves their storage are not changed by it.
theorem clearAll_line {cs : List (Nat × ItemIdData.Clearing)} {i : Nat} {lp : ItemIdData}
    (h : (page.clearAll cs).linp[i]? = some lp) (hs : lp.hasStorage) : page.linp[i]? = some lp := by
  induction cs generalizing page
  case nil          => exact h
  case cons c cs hi =>
    have h := hi h
    simp only [clear, Page.modifyItemId, List.getElem?_modify] at h
    obtain ⟨lp₀, hl, he⟩ := Option.map_eq_some_iff.mp h
    split at he
    case isTrue  => exact absurd (he ▸ hs) (c.2.property lp₀)
    case isFalse => exact he ▸ hl

end HeapPage
