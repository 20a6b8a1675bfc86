import PgTde.Hot.Search
import PgTde.Index.Theorems.HotChains

open Relation

namespace Page

variable {page : Page} {updater : Nat → Nat} {satisfies : List UInt8 → Bool × List UInt8}
variable {isSurelyDead : List UInt8 → Bool} {n m : Nat} {lp : ItemIdData} {allDead : Bool} {r : HotSearch}
variable {fuel : Nat} {visited : List Nat}

theorem Follows.unique {k : Nat} (h : page.Follows updater satisfies n m) (h' : page.Follows updater satisfies n k) :
    m = k :=
  h.left.unique h'.left

theorem hits_normal (hl : page.getItemId n = some lp) (hn : lp.isNormal) :
    page.Hits satisfies n ↔ (satisfies (page.getItem lp)).1 := by
  constructor
  case mp =>
    rintro ⟨lp', hl', -, h⟩
    obtain rfl := Option.some.inj (hl'.symm.trans hl)
    exact h
  case mpr => exact fun h => ⟨lp, hl, hn, h⟩

theorem not_hits (hl : page.getItemId n = some lp) (hn : ¬lp.isNormal) : ¬page.Hits satisfies n := by
  rintro ⟨lp', hl', hn', -⟩
  obtain rfl := Option.some.inj (hl'.symm.trans hl)
  exact hn hn'

theorem follows_normal (hl : page.getItemId n = some lp) (hn : lp.isNormal) :
    page.Follows updater satisfies n m ↔
    page.Linked updater n m ∧ heapTupleHeaderIsHotUpdated (satisfies (page.getItem lp)).2 := by
  refine and_congr_right fun _ => ⟨fun h => h lp hl hn, fun h lp' hl' _ => ?_⟩
  obtain rfl := Option.some.inj (hl'.symm.trans hl)
  exact h

theorem follows_redirect (hl : page.getItemId n = some lp) (hn : ¬lp.isNormal) :
    page.Follows updater satisfies n m ↔ page.Linked updater n m := by
  refine and_iff_left fun lp' hl' hn' => ?_
  obtain rfl := Option.some.inj (hl'.symm.trans hl)
  exact absurd hn' hn

-- What the search from a member of a chain returns.
structure Searched (page : Page) (updater : Nat → Nat) (satisfies : List UInt8 → Bool × List UInt8)
    (isSurelyDead : List UInt8 → Bool) (n : Nat) (allDead : Bool) (r : HotSearch) : Prop where
  found : FirstHit (page.Follows updater satisfies) (page.Hits satisfies) n r.found
  dead  : r.allDead → allDead ∧ r.found = none ∧
    ∀ m lp, ReflTransGen (page.Follows updater satisfies) n m → page.getItemId m = some lp → lp.isNormal →
      isSurelyDead (satisfies (page.getItem lp)).2

-- What the search returns that goes on behind a member.
def SearchedBehind (page : Page) (updater : Nat → Nat) (satisfies : List UInt8 → Bool × List UInt8)
    (isSurelyDead : List UInt8 → Bool) (n : Nat) (allDead : Bool) (r : HotSearch) : Prop :=
  (∃ m, page.Linked updater n m ∧ page.Searched updater satisfies isSurelyDead m allDead r) ∨
  (∀ m, ¬page.Linked updater n m) ∧ r = ⟨none, allDead⟩

theorem searched_here (h : page.Hits satisfies n) :
    page.Searched updater satisfies isSurelyDead n allDead ⟨some n, false⟩ where
  found := .here h
  dead h := by cases h

theorem searched_last (hl : page.getItemId n = some lp) (hh : ¬page.Hits satisfies n)
    (hf : ∀ m, ¬page.Follows updater satisfies n m) :
    page.Searched updater satisfies isSurelyDead n allDead
      ⟨none, allDead && isSurelyDead (satisfies (page.getItem lp)).2⟩ where
  found  := .last hh hf
  dead h := by
    rw [Bool.and_eq_true] at h
    refine ⟨h.left, rfl, fun m lp' hr hl' _ => ?_⟩
    obtain rfl | ⟨m', hs, -⟩ := ReflTransGen.cases_head hr
    · obtain rfl := Option.some.inj (hl'.symm.trans hl)
      exact h.right
    · exact absurd hs (hf m')

theorem Searched.behind (hl : page.getItemId n = some lp) (hh : ¬page.Hits satisfies n)
    (hf : page.Follows updater satisfies n m)
    (h : page.Searched updater satisfies isSurelyDead m
      (allDead && isSurelyDead (satisfies (page.getItem lp)).2) r) :
    page.Searched updater satisfies isSurelyDead n allDead r where
  found   := .step hh hf h.found
  dead hd := by
    obtain ⟨ha, hr, hm⟩ := h.dead hd
    rw [Bool.and_eq_true] at ha
    refine ⟨ha.left, hr, fun m' lp' hr' hl' hn' => ?_⟩
    obtain rfl | ⟨k, hs, hr'⟩ := ReflTransGen.cases_head hr'
    · obtain rfl := Option.some.inj (hl'.symm.trans hl)
      exact ha.right
    · obtain rfl := hf.unique hs
      exact hm m' lp' hr' hl' hn'

-- A redirection is passed, and does not count for `all_dead`.
theorem searched_redirect (hl : page.getItemId n = some lp) (hn : ¬lp.isNormal)
    (h : page.SearchedBehind updater satisfies isSurelyDead n allDead r) :
    page.Searched updater satisfies isSurelyDead n allDead r := by
  have hh := @not_hits page satisfies _ _ hl hn
  have hself {m : Nat} {lp' : ItemIdData} (he : n = m) (hl' : page.getItemId m = some lp') : ¬lp'.isNormal := by
    subst he
    obtain rfl := Option.some.inj (hl'.symm.trans hl)
    exact hn
  obtain ⟨m, hs, h⟩ | ⟨hs, rfl⟩ := h
  · have hf : page.Follows updater satisfies n m := (follows_redirect hl hn).mpr hs
    refine ⟨.step hh hf h.found, fun hd => ?_⟩
    obtain ⟨ha, hr, hm⟩ := h.dead hd
    refine ⟨ha, hr, fun m' lp' hr' hl' hn' => ?_⟩
    obtain rfl | ⟨k, hk, hr'⟩ := ReflTransGen.cases_head hr'
    · exact absurd hn' (hself rfl hl')
    · obtain rfl := hf.unique hk
      exact hm m' lp' hr' hl' hn'
  · refine ⟨.last hh fun m hf => hs m hf.left, fun hd => ⟨hd, rfl, fun m lp' hr' hl' hn' => ?_⟩⟩
    obtain rfl | ⟨k, hk, -⟩ := ReflTransGen.cases_head hr'
    · exact absurd hn' (hself rfl hl')
    · exact absurd hk.left (hs k)

-- The part of the loop's body that deals with a tuple of the chain.
theorem searched_member (hk : page.KeepsLinks updater satisfies) (hl : page.getItemId n = some lp)
    (hn : lp.isNormal) (hb : ∀ m allDead, page.nextOffset n = some m → ∃ r,
      page.searchHotChain updater satisfies isSurelyDead fuel m (page.nextXmin updater n) false false allDead =
      .ok r ∧ page.SearchedBehind updater satisfies isSurelyDead n allDead r) :
    ∃ r, (if (satisfies (page.getItem lp)).1 then
        .ok ⟨some n, false⟩
      else if heapTupleHeaderIsHotUpdated (satisfies (page.getItem lp)).2 then
        page.searchHotChain updater satisfies isSurelyDead fuel
          (ctidOffsetNumber (satisfies (page.getItem lp)).2)
          (heapTupleHeaderGetUpdateXid updater (satisfies (page.getItem lp)).2) false false
          (allDead && isSurelyDead (satisfies (page.getItem lp)).2)
      else
        .ok ⟨none, allDead && isSurelyDead (satisfies (page.getItem lp)).2⟩) = .ok r ∧
      page.Searched updater satisfies isSurelyDead n allDead r := by
  split
  case isTrue hv  => exact ⟨_, rfl, searched_here ((hits_normal hl hn).mpr hv)⟩
  case isFalse hv =>
    have hh := mt (hits_normal hl hn).mp hv
    split
    case isTrue hu  =>
      obtain ⟨hu', hc, hx⟩ := hk n lp hl hn hu
      have hnext := nextOffset_normal hl hn
      rw [if_pos hu'] at hnext
      obtain ⟨r, hr, hb⟩ := hb _ (allDead && isSurelyDead (satisfies (page.getItem lp)).2) hnext
      refine ⟨r, by rw [hc, hx, ←nextXmin_normal hl hn, hr], ?_⟩
      obtain ⟨m, hs, hb⟩ | ⟨hs, rfl⟩ := hb
      · exact hb.behind hl hh ((follows_normal hl hn).mpr ⟨hs, hu⟩)
      · exact searched_last hl hh fun m hf => hs m hf.left
    case isFalse hu => exact ⟨_, rfl, searched_last hl hh fun m hf => hu ((follows_normal hl hn).mp hf).right⟩

-- The search that has come from item `n` to the one that `n` names. There is enough fuel for it, as none of the
-- items that are still to be visited has been visited before.
theorem searchHotChain_behind (ha : ∀ l, ¬TransGen (page.Linked updater) l l)
    (hk : page.KeepsLinks updater satisfies) (hm : page.nextOffset n = some m) (hv : visited.Nodup)
    (hi : ∀ v ∈ visited, 1 ≤ v ∧ v ≤ page.getMaxOffsetNumber)
    (hr : ∀ v ∈ visited, ReflTransGen (page.Linked updater) v n)
    (hf : page.getMaxOffsetNumber + 1 ≤ fuel + visited.length) (hf₀ : 0 < fuel) :
    ∃ r, page.searchHotChain updater satisfies isSurelyDead fuel m (page.nextXmin updater n) false false allDead =
      .ok r ∧ page.SearchedBehind updater satisfies isSurelyDead n allDead r := by
  induction fuel generalizing n m visited allDead
  case zero         => cases hf₀
  case succ fuel ih =>
    cases hl : page.getItemId m
    case none    =>
      refine ⟨⟨none, allDead⟩, by simp only [searchHotChain, hl], .inr ⟨fun k hs => ?_, rfl⟩⟩
      obtain ⟨lp, hl', -⟩ := hs.tuple
      obtain rfl := Option.some.inj (hs.next.symm.trans hm)
      cases hl'.symm.trans hl
    case some lp =>
      have hiff := @linked_iff _ updater _ _ _ hm hl
      simp only [searchHotChain, hl, Bool.false_eq_true, and_false, false_and, if_false]
      by_cases hn : lp.isNormal
      case neg =>
        rw [if_pos hn]
        exact ⟨_, rfl, .inr ⟨fun k hs => hn ((hiff k).mp hs).right.left, rfl⟩⟩
      case pos =>
        rw [if_neg (not_not.mpr hn)]
        split
        case isTrue hx  => exact ⟨_, rfl, .inr ⟨fun k hs => ((hiff k).mp hs).right.right hx, rfl⟩⟩
        case isFalse hx =>
          have hlink := (hiff m).mpr ⟨rfl, hn, hx⟩
          have hb := exists_getItemId.mp ⟨lp, hl⟩
          have hvis : m ∉ visited := fun hmem => ha m (.tail' (hr m hmem) hlink)
          have hnd := List.nodup_cons.mpr ⟨hvis, hv⟩
          have hin : ∀ v ∈ m :: visited, 1 ≤ v ∧ v ≤ page.getMaxOffsetNumber :=
            List.forall_mem_cons.mpr ⟨hb, hi⟩
          have hlen := length_visited_le hnd hin
          rw [List.length_cons] at hlen
          obtain ⟨r, hr', hs⟩ := searched_member hk hl hn fun k allDead hnext => by
            refine ih hnext hnd hin (List.forall_mem_cons.mpr ⟨.refl, fun v hv => (hr v hv).tail hlink⟩) ?_ ?_
            · rw [List.length_cons]
              omega
            · omega
          exact ⟨r, hr', .inl ⟨m, hlink, hs⟩⟩

-- The search from the start of a chain.
theorem pgTdeHotSearchBuffer_root (ha : ∀ l, ¬TransGen (page.Linked updater) l l)
    (hk : page.KeepsLinks updater satisfies) (hr : page.IsRoot n) :
    ∃ r, page.pgTdeHotSearchBuffer updater satisfies isSurelyDead n true = .ok r ∧
      page.Searched updater satisfies isSurelyDead n true r := by
  have hb := hr.bounds
  obtain ⟨max, hmax⟩ : ∃ max, page.getMaxOffsetNumber = max + 1 := ⟨page.getMaxOffsetNumber - 1, by omega⟩
  have hbehind (m : Nat) (allDead : Bool) (hm : page.nextOffset n = some m) :=
    @searchHotChain_behind page updater satisfies isSurelyDead n m allDead page.getMaxOffsetNumber [n] ha hk hm
      (List.nodup_singleton n) (List.forall_mem_singleton.mpr hb) (List.forall_mem_singleton.mpr .refl)
      (Nat.le_refl _) (by omega)
  rw [pgTdeHotSearchBuffer, searchHotChain]
  obtain ⟨lp, hl, hn, ho⟩ | ⟨lp, hl, hf⟩ := hr
  · obtain ⟨r, hr, hs⟩ := @searched_member page updater satisfies isSurelyDead n lp true _ hk hl hn hbehind
    refine ⟨r, ?_, hs⟩
    simpa [hl, hn, ho] using hr
  · have hn : ¬lp.isNormal := by simp [ItemIdData.isNormal, hf]
    obtain ⟨r, hr, hs⟩ := hbehind _ true (nextOffset_redirect hl hf)
    rw [nextXmin_redirect hl hf] at hr
    refine ⟨r, ?_, searched_redirect hl hn hs⟩
    simpa [hl, hn, hf] using hr

-- Nothing is found from other line pointers.
theorem pgTdeHotSearchBuffer_other (hr : ¬page.IsRoot n) :
    page.pgTdeHotSearchBuffer updater satisfies isSurelyDead n true = .ok ⟨none, true⟩ := by
  rw [pgTdeHotSearchBuffer, searchHotChain]
  cases hl : page.getItemId n
  case none    => rfl
  case some lp =>
    by_cases hn : lp.isNormal
    case pos =>
      have ho : heapTupleHeaderIsHeapOnly (page.getItem lp) := by
        by_contra ho
        exact hr (.inl ⟨lp, hl, hn, ho⟩)
      simp [hn, ho]
    case neg =>
      have hf : lp.lpFlags ≠ .redirect := fun hf => hr (.inr ⟨lp, hl, hf⟩)
      simp [hn, hf]

end Page
