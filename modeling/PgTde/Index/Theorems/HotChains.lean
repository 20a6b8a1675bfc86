import PgTde.Index.HotChains

open Relation

namespace Page

variable {page : Page} {updater : Nat → Nat} {j k n m : Nat} {lp : ItemIdData}
variable {rootOffsets rootOffsets' : RootOffsets} {fuel : Nat} {visited js : List Nat}

theorem exists_getItemId :
    (∃ lp, page.getItemId n = some lp) ↔ 1 ≤ n ∧ n ≤ page.getMaxOffsetNumber := by
  rw [getItemId, getMaxOffsetNumber]
  split
  case isTrue h  => simp [h]
  case isFalse h =>
    simp only [List.getElem?_eq_some_iff]
    constructor
    case mp =>
      rintro ⟨-, hl, -⟩
      omega
    case mpr =>
      rintro ⟨h₁, hl⟩
      exact ⟨_, by omega, rfl⟩

theorem nextOffset_normal (h : page.getItemId n = some lp) (hn : lp.isNormal) : page.nextOffset n =
    if heapTupleHeaderIsHotUpdated (page.getItem lp)
    then some (ctidOffsetNumber (page.getItem lp))
    else none := by
  have hf : lp.lpFlags = .normal := of_decide_eq_true hn
  simp only [nextOffset, h, hf]

theorem nextXmin_normal (h : page.getItemId n = some lp) (hn : lp.isNormal) :
    page.nextXmin updater n = heapTupleHeaderGetUpdateXid updater (page.getItem lp) := by
  simp only [nextXmin, h, hn, if_true]

theorem nextOffset_redirect (h : page.getItemId n = some lp) (hf : lp.lpFlags = .redirect) :
    page.nextOffset n = some lp.lpOff := by
  simp only [nextOffset, h, hf]

theorem nextXmin_redirect (h : page.getItemId n = some lp) (hf : lp.lpFlags = .redirect) :
    page.nextXmin updater n = invalidTransactionId := by
  have hn : lp.isNormal = false := by rw [ItemIdData.isNormal, hf]; rfl
  simp [nextXmin, h, hn]

-- An item has one next member at most.
theorem Linked.unique (h : page.Linked updater n m) (h' : page.Linked updater n k) : m = k :=
  Option.some.inj (h.next.symm.trans h'.next)

theorem transGen_linked_iff (h : page.Linked updater n m) :
    TransGen (page.Linked updater) n k ↔ k = m ∨ TransGen (page.Linked updater) m k := by
  constructor
  case mp =>
    intro ht
    obtain ⟨l, h', ht⟩ := TransGen.head'_iff.mp ht
    obtain rfl := h'.unique h
    exact reflTransGen_iff_eq_or_transGen.mp ht
  case mpr =>
    rintro (rfl | ht)
    · exact .single h
    · exact .head h ht

theorem not_transGen_linked (h : ∀ m, ¬page.Linked updater n m) : ¬TransGen (page.Linked updater) n k := by
  intro ht
  obtain ⟨m, hm, -⟩ := TransGen.head'_iff.mp ht
  exact h m hm

-- What an inspection of the line pointer that `n` names finds out.
theorem linked_iff (hm : page.nextOffset n = some m) (hl : page.getItemId m = some lp) (l : Nat) :
    page.Linked updater n l ↔ l = m ∧ lp.isNormal ∧
      ¬(page.nextXmin updater n ≠ invalidTransactionId ∧
        page.nextXmin updater n ≠ heapTupleHeaderGetXmin (page.getItem lp)) := by
  rw [not_and, not_not]
  constructor
  case mp =>
    rintro ⟨hn, lp', hl', hr⟩
    obtain rfl := Option.some.inj (hn.symm.trans hm)
    obtain rfl := Option.some.inj (hl'.symm.trans hl)
    exact ⟨rfl, hr⟩
  case mpr =>
    rintro ⟨rfl, hr⟩
    exact ⟨hm, lp, hl, hr⟩

-- The entries of the members of a chain are set to `j`.
open Classical in
noncomputable def setRoot (rootOffsets : RootOffsets) (j : Nat) (member : Nat → Prop) : RootOffsets :=
  fun i => if member (i + 1) then j else rootOffsets i

theorem setRoot_of_not {member : Nat → Prop} (h : ∀ k, ¬member k) :
    setRoot rootOffsets j member = rootOffsets := by
  funext i
  rw [setRoot, if_neg (h _)]

theorem setRoot_update {member : Nat → Prop} (hm : 1 ≤ m) :
    setRoot (Function.update rootOffsets (m - 1) j) j member =
      setRoot rootOffsets j fun k => k = m ∨ member k := by
  funext i
  rw [setRoot, setRoot]
  by_cases hi : member (i + 1)
  case pos => rw [if_pos hi, if_pos (.inr hi)]
  case neg =>
    rw [if_neg hi, Function.update_apply]
    by_cases he : i = m - 1
    case pos => rw [if_pos he, if_pos (.inl (by omega))]
    case neg =>
      have hne : i + 1 ≠ m := by omega
      rw [if_neg he, if_neg (not_or.mpr ⟨hne, hi⟩)]

-- The items from `n` on name line pointers of the page.
def Within (page : Page) (updater : Nat → Nat) (n : Nat) : Prop :=
  ∀ l, ReflTransGen (page.Linked updater) n l →
    ∀ m, page.nextOffset l = some m → 1 ≤ m ∧ m ≤ page.getMaxOffsetNumber

theorem Within.step (h : page.Within updater n) (hl : page.Linked updater n m) : page.Within updater m :=
  fun l hr => h l (.head hl hr)

theorem within_of_none (h : page.nextOffset n = none) : page.Within updater n := by
  intro l hr m hm
  obtain rfl | ht := reflTransGen_iff_eq_or_transGen.mp hr
  · cases h.symm.trans hm
  · exact absurd ht (not_transGen_linked fun m hl => by cases h.symm.trans hl.next)

theorem length_visited_le (hv : visited.Nodup)
    (hi : ∀ v ∈ visited, 1 ≤ v ∧ v ≤ page.getMaxOffsetNumber) :
    visited.length ≤ page.getMaxOffsetNumber := by
  have hs : visited ⊆ List.range' 1 page.getMaxOffsetNumber := by
    intro v hv
    have hb := hi v hv
    rw [List.mem_range'_1]
    omega
  simpa using (hv.subperm hs).length_le

-- The items behind `n`, all of which are still to be visited. There is enough fuel for them, as none of them
-- has been visited before.
theorem followHotChain_eq (hw : page.Within updater n) (ha : ∀ l, ¬TransGen (page.Linked updater) l l)
    (hm : page.nextOffset n = some m) (hv : visited.Nodup)
    (hi : ∀ v ∈ visited, 1 ≤ v ∧ v ≤ page.getMaxOffsetNumber)
    (hr : ∀ v ∈ visited, ReflTransGen (page.Linked updater) v n)
    (hf : page.getMaxOffsetNumber + 2 ≤ fuel + visited.length) :
    page.followHotChain updater j fuel m (page.nextXmin updater n) rootOffsets =
    .ok (setRoot rootOffsets j (TransGen (page.Linked updater) n)) := by
  induction fuel generalizing n m rootOffsets visited
  case zero =>
    have hlen := length_visited_le hv hi
    omega
  case succ fuel ih =>
    have hb := hw n .refl m hm
    obtain ⟨lp, hl⟩ := exists_getItemId.mpr hb
    have hiff := @linked_iff _ updater _ _ _ hm hl
    simp only [followHotChain, hl]
    by_cases hn : lp.isNormal
    case neg =>
      rw [if_pos hn, setRoot_of_not fun k => not_transGen_linked fun l h => hn ((hiff l).mp h).right.left]
    case pos =>
      rw [if_neg (not_not.mpr hn)]
      split
      case isTrue hx  =>
        rw [setRoot_of_not fun k => not_transGen_linked fun l h => ((hiff l).mp h).right.right hx]
      case isFalse hx =>
        have hlink := (hiff m).mpr ⟨rfl, hn, hx⟩
        have hset := @setRoot_update j m rootOffsets (TransGen (page.Linked updater) m) hb.left
        simp only [←transGen_linked_iff hlink] at hset
        have hnext := nextOffset_normal hl hn
        split
        case isTrue hu =>
          rw [if_pos hu] at hnext
          rw [←nextXmin_normal hl hn, ←hset]
          have hvis : m ∉ visited := fun hmem => ha m (.tail' (hr m hmem) hlink)
          refine ih (hw.step hlink) hnext (List.nodup_cons.mpr ⟨hvis, hv⟩) ?_ ?_ ?_
          · exact List.forall_mem_cons.mpr ⟨hb, hi⟩
          · exact List.forall_mem_cons.mpr ⟨.refl, fun v hv => (hr v hv).tail hlink⟩
          · rw [List.length_cons]
            omega
        case isFalse hu =>
          rw [if_neg hu] at hnext
          rw [←hset, setRoot_of_not fun k => not_transGen_linked fun l h => ?_]
          cases hnext.symm.trans h.next

-- Conversely, the walk along a chain is defined only within the array of line pointers.
theorem within_of_followHotChain (hm : page.nextOffset n = some m)
    (h : page.followHotChain updater j fuel m (page.nextXmin updater n) rootOffsets = .ok rootOffsets') :
    page.Within updater n := by
  induction fuel generalizing n m rootOffsets
  case zero         => cases h
  case succ fuel ih =>
    cases hl : page.getItemId m
    case none    => simp [followHotChain, hl] at h
    case some lp =>
      have hb := exists_getItemId.mp ⟨lp, hl⟩
      have hiff := @linked_iff _ updater _ _ _ hm hl
      have hrest : page.Linked updater n m → page.Within updater m := by
        intro hlink
        obtain ⟨-, hn, hx⟩ := (hiff m).mp hlink
        have hnext := nextOffset_normal hl hn
        simp only [followHotChain, hl, if_neg (not_not.mpr hn), if_neg hx] at h
        split at h
        case isTrue hu =>
          rw [if_pos hu] at hnext
          rw [←nextXmin_normal hl hn] at h
          exact ih hnext h
        case isFalse hu =>
          rw [if_neg hu] at hnext
          exact within_of_none hnext
      intro l hr k hk
      obtain rfl | ⟨m', hlink, hr⟩ := ReflTransGen.cases_head hr
      · cases hm.symm.trans hk
        exact hb
      · obtain ⟨rfl, -⟩ := (hiff m').mp hlink
        exact hrest hlink l hr k hk

def IsRoot (page : Page) (n : Nat) : Prop :=
  page.IsRootTuple n ∨ page.IsRedirect n

theorem hasRoot_of_not (h : ¬page.IsRoot j) : ¬page.HasRoot updater k j := by
  rintro (⟨-, ht⟩ | ⟨hr, -⟩)
  · exact h (.inl ht)
  · exact h hr

theorem hasRoot_tuple (h : page.IsRootTuple j) :
    page.HasRoot updater k j ↔ k = j ∨ TransGen (page.Linked updater) j k := by
  rw [HasRoot, and_iff_left h, and_iff_right (.inl h)]

theorem hasRoot_redirect (h : page.IsRedirect j) :
    page.HasRoot updater k j ↔ TransGen (page.Linked updater) j k := by
  obtain ⟨lp, hl, hf⟩ := h
  have ht : ¬page.IsRootTuple j := by
    rintro ⟨lp', hl', hn, -⟩
    cases hl.symm.trans hl'
    rw [ItemIdData.isNormal, hf] at hn
    cases hn
  have hr : page.IsRootTuple j ∨ page.IsRedirect j := .inr ⟨lp, hl, hf⟩
  rw [HasRoot, and_iff_right hr, or_iff_right fun h => ht h.right]

-- What the body of the loop over the line pointers does with an item.
inductive Collects (page : Page) (updater : Nat → Nat) (rootOffsets : RootOffsets) (j : Nat) :
    Outcome RootOffsets → Prop
  | skips : ¬page.IsRoot j → Collects page updater rootOffsets j (.ok rootOffsets)
  | plain : page.IsRootTuple j → page.nextOffset j = none →
    Collects page updater rootOffsets j (.ok (Function.update rootOffsets (j - 1) j))
  | root {m : Nat} : page.IsRootTuple j → page.nextOffset j = some m →
    Collects page updater rootOffsets j
      (page.followHotChain updater j (page.getMaxOffsetNumber + 1) m (page.nextXmin updater j)
        (Function.update rootOffsets (j - 1) j))
  | redirect {m : Nat} : page.IsRedirect j → page.nextOffset j = some m →
    Collects page updater rootOffsets j
      (page.followHotChain updater j (page.getMaxOffsetNumber + 1) m (page.nextXmin updater j) rootOffsets)

theorem not_isRoot (hl : page.getItemId j = some lp) (hf : lp.lpFlags ≠ .redirect)
    (hn : lp.isNormal → heapTupleHeaderIsHeapOnly (page.getItem lp)) : ¬page.IsRoot j := by
  rintro (⟨lp', hl', hn', ho⟩ | ⟨lp', hl', hf'⟩)
  · cases hl.symm.trans hl'
    exact ho (hn hn')
  · cases hl.symm.trans hl'
    exact hf hf'

theorem collects (hl : page.getItemId j = some lp) :
    page.Collects updater rootOffsets j (page.collectRootTuple updater rootOffsets j) := by
  simp only [collectRootTuple, hl]
  cases hf : lp.lpFlags
  case unused   => exact .skips (not_isRoot hl (by simp [hf]) (by simp [ItemIdData.isNormal, hf]))
  case dead     => exact .skips (not_isRoot hl (by simp [hf]) (by simp [ItemIdData.isNormal, hf]))
  case redirect =>
    have hr := @nextXmin_redirect _ updater _ _ hl hf
    rw [←hr]
    exact .redirect ⟨lp, hl, hf⟩ (nextOffset_redirect hl hf)
  case normal   =>
    have hn : lp.isNormal := decide_eq_true hf
    have hnext := nextOffset_normal hl hn
    simp only
    split
    case isTrue ho  => exact .skips (not_isRoot hl (by simp [hf]) fun _ => ho)
    case isFalse ho =>
      split
      case isTrue hu  =>
        rw [if_pos hu] at hnext
        rw [←nextXmin_normal hl hn]
        exact .root ⟨lp, hl, hn, ho⟩ hnext
      case isFalse hu =>
        rw [if_neg hu] at hnext
        exact .plain ⟨lp, hl, hn, ho⟩ hnext

theorem collectRootTuple_eq (hj : 1 ≤ j ∧ j ≤ page.getMaxOffsetNumber)
    (ha : ∀ l, ¬TransGen (page.Linked updater) l l) (hw : page.IsRoot j → page.Within updater j) :
    page.collectRootTuple updater rootOffsets j =
    .ok (setRoot rootOffsets j fun k => page.HasRoot updater k j) := by
  have hfollow {m : Nat} {rootOffsets : RootOffsets} (hr : page.IsRoot j) (hm : page.nextOffset j = some m) :=
    @followHotChain_eq page updater j j m rootOffsets (page.getMaxOffsetNumber + 1) [j] (hw hr) ha hm
      (List.nodup_singleton j) (by simpa using hj) (by simpa using ReflTransGen.refl) (Nat.le_refl _)
  obtain ⟨lp, hl⟩ := exists_getItemId.mpr hj
  have hc := @collects page updater _ _ rootOffsets hl
  generalize page.collectRootTuple updater rootOffsets j = r at hc
  cases hc
  case skips hr => rw [setRoot_of_not fun k => hasRoot_of_not hr]
  case plain ht hm =>
    have hn (k) : ¬TransGen (page.Linked updater) j k :=
      not_transGen_linked fun m hl => by cases hm.symm.trans hl.next
    have hset := @setRoot_update j j rootOffsets (TransGen (page.Linked updater) j) hj.left
    simp only [hasRoot_tuple ht, ←hset, setRoot_of_not hn]
  case root m ht hm =>
    have hset := @setRoot_update j j rootOffsets (TransGen (page.Linked updater) j) hj.left
    rw [hfollow (.inl ht) hm, hset]
    simp only [hasRoot_tuple ht]
  case redirect m hr hm =>
    rw [hfollow (.inr hr) hm]
    simp only [hasRoot_redirect hr]

theorem within_of_collectRootTuple (hj : 1 ≤ j ∧ j ≤ page.getMaxOffsetNumber)
    (h : page.collectRootTuple updater rootOffsets j = .ok rootOffsets') (hr : page.IsRoot j) :
    page.Within updater j := by
  obtain ⟨lp, hl⟩ := exists_getItemId.mpr hj
  have hc := @collects page updater _ _ rootOffsets hl
  rw [h] at hc
  generalize he : Except.ok rootOffsets' = r at hc
  cases hc
  case skips hs        => exact absurd hr hs
  case plain _ hm      => exact within_of_none hm
  case root m _ hm     => exact within_of_followHotChain hm he.symm
  case redirect m _ hm => exact within_of_followHotChain hm he.symm

-- The loop over the line pointers sets the entry of each item to a root of it, if it has one.
theorem foldlM_collectRootTuple (hj : ∀ j ∈ js, 1 ≤ j ∧ j ≤ page.getMaxOffsetNumber)
    (ha : ∀ l, ¬TransGen (page.Linked updater) l l)
    (hw : ∀ j ∈ js, page.IsRoot j → page.Within updater j) :
    ∃ rootOffsets', js.foldlM (page.collectRootTuple updater) rootOffsets = .ok rootOffsets' ∧
      ∀ i, (rootOffsets' i = rootOffsets i ∧ ∀ j ∈ js, ¬page.HasRoot updater (i + 1) j) ∨
        page.HasRoot updater (i + 1) (rootOffsets' i) := by
  induction js generalizing rootOffsets
  case nil          => exact ⟨rootOffsets, rfl, fun i => .inl ⟨rfl, by simp⟩⟩
  case cons j js ih =>
    rw [List.forall_mem_cons] at hj hw
    obtain ⟨r, hr, hi⟩ := @ih (setRoot rootOffsets j fun k => page.HasRoot updater k j) hj.right hw.right
    refine ⟨r, ?_, fun i => ?_⟩
    · rw [List.foldlM_cons, collectRootTuple_eq hj.left ha hw.left, Outcome.ok_bind, hr]
    · obtain ⟨he, hn⟩ | hroot := hi i
      · by_cases hroot : page.HasRoot updater (i + 1) j
        case pos =>
          rw [setRoot, if_pos hroot] at he
          exact .inr (he ▸ hroot)
        case neg =>
          rw [setRoot, if_neg hroot] at he
          exact .inl ⟨he, List.forall_mem_cons.mpr ⟨hroot, hn⟩⟩
      · exact .inr hroot

theorem within_of_foldlM (hj : ∀ j ∈ js, 1 ≤ j ∧ j ≤ page.getMaxOffsetNumber)
    (h : js.foldlM (page.collectRootTuple updater) rootOffsets = .ok rootOffsets') :
    ∀ j ∈ js, page.IsRoot j → page.Within updater j := by
  induction js generalizing rootOffsets
  case nil          => simp
  case cons j js ih =>
    rw [List.forall_mem_cons] at hj
    rw [List.foldlM_cons] at h
    obtain ⟨r, hr, h⟩ := Outcome.bind_eq_ok_iff.mp h
    exact List.forall_mem_cons.mpr ⟨within_of_collectRootTuple hj.left hr, ih hj.right h⟩

theorem IsRoot.bounds (h : page.IsRoot j) : 1 ≤ j ∧ j ≤ page.getMaxOffsetNumber := by
  obtain ⟨lp, hl, -⟩ | ⟨lp, hl, -⟩ := h
  · exact exists_getItemId.mp ⟨lp, hl⟩
  · exact exists_getItemId.mp ⟨lp, hl⟩

theorem HasRoot.isRoot (h : page.HasRoot updater k j) : page.IsRoot j :=
  h.elim (fun h => .inl h.right) And.left

-- An item that has a root is on the page.
theorem HasRoot.bounds (h : page.HasRoot updater k j) : 1 ≤ k ∧ k ≤ page.getMaxOffsetNumber := by
  obtain ⟨rfl, ht⟩ | ⟨-, ht⟩ := h
  · exact IsRoot.bounds (.inl ht)
  · obtain ⟨l, -, hl⟩ := TransGen.tail'_iff.mp ht
    obtain ⟨lp, hlp, -⟩ := hl.tuple
    exact exists_getItemId.mp ⟨lp, hlp⟩

end Page

namespace HotPage

variable {page : HotPage}

theorem mem_offnums {j : Nat} :
    j ∈ List.range' 1 page.getMaxOffsetNumber ↔ 1 ≤ j ∧ j ≤ page.getMaxOffsetNumber := by
  rw [List.mem_range'_1]
  omega

theorem findsRoots_of_within (hw : page.NamesWithin) (hd : page.Disjoint) : page.FindsRoots := by
  obtain ⟨r, hr, hi⟩ := @Page.foldlM_collectRootTuple page.toPage page.updater
    (fun _ => invalidOffsetNumber) _ (fun _ => mem_offnums.mp) page.acyclic fun j _ hj => hw j hj
  refine ⟨r, hr, fun k hk => ?_⟩
  have hi := hi (k - 1)
  rw [Nat.sub_add_cancel (Nat.one_le_iff_ne_zero.mpr hk)] at hi
  obtain ⟨he, hn⟩ | hroot := hi
  · have hnone (j) : ¬page.HasRoot page.updater k j :=
      fun h => hn j (mem_offnums.mpr h.isRoot.bounds) h
    exact ⟨fun j hj => iff_of_false (fun h => hj (h.symm.trans he)) (hnone j), iff_of_true he hnone⟩
  · have hne : r (k - 1) ≠ invalidOffsetNumber := Nat.one_le_iff_ne_zero.mp hroot.isRoot.bounds.left
    exact ⟨fun j _ => ⟨fun h => h ▸ hroot, hd k _ j hroot⟩, iff_of_false hne fun hn => hn _ hroot⟩

theorem namesWithin_of_findsRoots (h : page.FindsRoots) : page.NamesWithin := by
  obtain ⟨r, hr, -⟩ := h
  exact fun j hj => Page.within_of_foldlM (fun _ => mem_offnums.mp) hr j
    (mem_offnums.mpr (Page.IsRoot.bounds hj)) hj

theorem disjoint_of_findsRoots (h : page.FindsRoots) : page.Disjoint := by
  obtain ⟨r, -, hm⟩ := h
  have hne {k j} (h : page.HasRoot page.updater k j) : j ≠ invalidOffsetNumber :=
    Nat.one_le_iff_ne_zero.mp h.isRoot.bounds.left
  intro k j j' h h'
  have hk : k ≠ invalidOffsetNumber := Nat.one_le_iff_ne_zero.mp (Page.HasRoot.bounds h).left
  rw [←((hm k hk).left j (hne h)).mpr h, ((hm k hk).left j' (hne h')).mpr h']

-- The map is found iff the members of the chains name line pointers of the page, and no item has two roots.
theorem findsRoots_iff (page : HotPage) : page.FindsRoots ↔ page.NamesWithin ∧ page.Disjoint where
  mp h  := ⟨namesWithin_of_findsRoots h, disjoint_of_findsRoots h⟩
  mpr h := findsRoots_of_within h.left h.right

end HotPage

-- A tuple that has been updated, by a transaction that was aborted.
def updatedTuple : List UInt8 :=
  [3, 0, 0, 0, 4, 0, 0, 0] ++ List.replicate 8 0 ++ [2, 0, 1, 64, 0, 1, 24, 0, 42, 0, 0, 0, 0, 0, 0, 0]

def updatedPage : Page where
  pdUpper        := 8160
  pdSpecial      := 8192
  pdHasFreeLines := false
  linp           := [⟨8160, .normal, 32⟩]
  mem            := Memory.zero.write 8160 updatedTuple

theorem lower_le_updatedPage : updatedPage.pdLower ≤ updatedPage.pdUpper := by
  decide

theorem upper_le_updatedPage : updatedPage.pdUpper ≤ updatedPage.pdSpecial := by
  decide

theorem tuple_updatedPage : ∀ lp ∈ updatedPage.linp, lp.hasStorage → lp.Tuple updatedPage := by
  simp only [updatedPage, List.forall_mem_cons, List.not_mem_nil, false_imp_iff, implies_true, and_true]
  exact fun _ => by constructor <;> decide

theorem disjoint_updatedPage : updatedPage.linp.Pairwise fun lp₁ lp₂ =>
    lp₁.hasStorage → lp₂.hasStorage → lp₁.extent.Disjoint lp₂.extent :=
  List.pairwise_singleton _ _

-- The array of line pointers has been truncated after the heap-only tuple of the update had been removed.
def truncatedPage : HeapPage where
  toPage          := updatedPage
  lower_le        := lower_le_updatedPage
  upper_le        := upper_le_updatedPage
  special_le      := emptySpecial_le
  special_aligned := emptySpecial_aligned
  tuples          := tuple_updatedPage
  disjoint        := disjoint_updatedPage

theorem not_linked_truncatedPage {n m : Nat} : ¬truncatedPage.Linked id n m := by
  rintro ⟨hn, lp, hl, -⟩
  have hm := Page.exists_getItemId.mp ⟨lp, hl⟩
  have hmax : truncatedPage.getMaxOffsetNumber = 1 := rfl
  have hn' : 1 ≤ n ∧ n ≤ truncatedPage.getMaxOffsetNumber := by
    refine Page.exists_getItemId.mp ?_
    cases hi : truncatedPage.getItemId n
    case none    => simp [Page.nextOffset, hi] at hn
    case some lp => exact ⟨lp, rfl⟩
  have hone : n = 1 := by omega
  have htwo : truncatedPage.nextOffset 1 = some 2 := by decide
  rw [hone, htwo, Option.some.injEq] at hn
  omega

def truncatedHotPage : HotPage where
  toHeapPage := truncatedPage
  updater    := id
  acyclic _  := Page.not_transGen_linked fun _ => not_linked_truncatedPage

-- The line pointer behind the array is inspected.
theorem not_findsRoots_truncatedHotPage : ¬truncatedHotPage.FindsRoots := by
  intro h
  have hr : truncatedPage.IsRootTuple 1 := ⟨⟨8160, .normal, 32⟩, rfl, rfl, by decide⟩
  have hn : truncatedPage.nextOffset 1 = some 2 := by decide
  exact absurd (HotPage.namesWithin_of_findsRoots h 1 (.inl hr) 1 .refl 2 hn).right (by decide)
