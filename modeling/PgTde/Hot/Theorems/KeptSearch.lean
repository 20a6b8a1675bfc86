import PgTde.Hot.Theorems.Pruned
import PgTde.Hot.Theorems.Search
import PgTde.Prune.Theorems.Replay

open Relation

namespace HeapPage

variable {page : HeapPage} {f : ItemIdData.Clearing} {n offnum : Nat} {cs : List (Nat × ItemIdData.Clearing)}

theorem getItemId_clear (h : 1 ≤ offnum) : (page.clear offnum f).getItemId n =
    if n = offnum then (page.getItemId n).map f.val else page.getItemId n := by
  simp only [clear, Page.getItemId, Page.modifyItemId, List.getElem?_modify]
  by_cases hz : n = 0
  case pos => simp [hz]
  case neg =>
    by_cases hn : n = offnum
    case pos =>
      subst hn
      simp [hz]
    case neg =>
      have hne : offnum - 1 ≠ n - 1 := by omega
      simp [hz, hn, hne]

theorem getItemId_clearAll_of_not_mem (hb : ∀ c ∈ cs, 1 ≤ c.1) (h : n ∉ cs.map (·.1)) :
    (page.clearAll cs).getItemId n = page.getItemId n := by
  induction cs generalizing page
  case nil          => rfl
  case cons c cs ih =>
    rw [List.forall_mem_cons] at hb
    rw [List.map_cons, List.mem_cons, not_or] at h
    exact (ih hb.right h.right).trans ((getItemId_clear hb.left).trans (if_neg h.left))

theorem getItemId_clearAll_of_mem {c : Nat × ItemIdData.Clearing} (hb : ∀ c ∈ cs, 1 ≤ c.1)
    (hd : (cs.map (·.1)).Nodup) (h : c ∈ cs) :
    (page.clearAll cs).getItemId c.1 = (page.getItemId c.1).map c.2.val := by
  induction cs generalizing page
  case nil          => cases h
  case cons c' cs ih =>
    rw [List.forall_mem_cons] at hb
    rw [List.map_cons, List.nodup_cons] at hd
    have hclear : (page.clearAll (c' :: cs)) = (page.clear c'.1 c'.2).clearAll cs := rfl
    obtain rfl | h := List.mem_cons.mp h
    · rw [hclear, getItemId_clearAll_of_not_mem hb.right hd.left, getItemId_clear hb.left, if_pos rfl]
    · have hne : c.1 ≠ c'.1 := fun he => hd.left (he ▸ List.mem_map_of_mem h)
      rw [hclear, ih hb.right hd.right h, getItemId_clear hb.left, if_neg hne]

end HeapPage

namespace TestedPage

variable {page : TestedPage} {plan : page.toHeapPage.Plan} {n m r t : Nat}

-- What has become of the line pointers of the page.
theorem getItemId_kept (h : n ∉ plan.val.offnums) :
    (page.toHeapPage.pruned plan).getItemId n = page.getItemId n :=
  HeapPage.getItemId_clearAll_of_not_mem (fun c hc => (plan.property c hc).left)
    (PrunePlan.fst_changes ▸ h)

theorem getItemId_changed {c : Nat × ItemIdData.Clearing} (hd : plan.val.offnums.Nodup)
    (h : c ∈ plan.val.changes) :
    (page.toHeapPage.pruned plan).getItemId c.1 = (page.getItemId c.1).map c.2.val :=
  HeapPage.getItemId_clearAll_of_mem (fun c hc => (plan.property c hc).left) (PrunePlan.fst_changes ▸ hd) h

theorem getItem_pruned (lp : ItemIdData) : (page.toHeapPage.pruned plan).getItem lp = page.getItem lp := by
  rw [Page.getItem, Page.getItem, HeapPage.pruned_mem]

theorem changed_line (hd : plan.val.offnums.Nodup) (h : n ∈ plan.val.offnums) :
    ∃ lp, (page.toHeapPage.pruned plan).getItemId n = some lp ∧
      ((∃ t, (n, t) ∈ plan.val.redirected ∧ lp = ⟨t, .redirect, 0⟩) ∨ lp = ⟨0, .dead, 0⟩ ∨ lp = ⟨0, .unused, 0⟩) := by
  have hline {c : Nat × ItemIdData.Clearing} (h : c ∈ plan.val.changes) :
      ∃ lp, (page.toHeapPage.pruned plan).getItemId c.1 = some (c.2.val lp) := by
    obtain ⟨lp, hl⟩ := Page.exists_getItemId.mpr (plan.property c h)
    exact ⟨lp, by rw [getItemId_changed hd h, hl, Option.map_some]⟩
  obtain ⟨t, h⟩ | h | h := PrunePlan.mem_offnums.mp h
  · obtain ⟨lp, hl⟩ := hline (List.mem_append_left _ (List.mem_map_of_mem h))
    exact ⟨_, hl, .inl ⟨t, h, rfl⟩⟩
  · obtain ⟨lp, hl⟩ := hline (List.mem_append_right _ (List.mem_append_left _ (List.mem_map_of_mem h)))
    exact ⟨_, hl, .inr (.inl rfl)⟩
  · obtain ⟨lp, hl⟩ := hline (List.mem_append_right _ (List.mem_append_right _ (List.mem_map_of_mem h)))
    exact ⟨_, hl, .inr (.inr rfl)⟩

theorem kept_of_normal {lp : ItemIdData} (hd : plan.val.offnums.Nodup)
    (hl : (page.toHeapPage.pruned plan).getItemId n = some lp) (hn : lp.isNormal) : n ∉ plan.val.offnums := by
  intro h
  obtain ⟨lp', hl', h⟩ := changed_line hd h
  obtain rfl := Option.some.inj (hl.symm.trans hl')
  obtain ⟨t, -, rfl⟩ | rfl | rfl := h
  all_goals cases hn

theorem nextOffset_kept (h : n ∉ plan.val.offnums) :
    (page.toHeapPage.pruned plan).nextOffset n = page.nextOffset n := by
  simp only [Page.nextOffset, getItemId_kept h, getItem_pruned]

theorem nextXmin_kept {updater : Nat → Nat} (h : n ∉ plan.val.offnums) :
    (page.toHeapPage.pruned plan).nextXmin updater n = page.nextXmin updater n := by
  simp only [Page.nextXmin, getItemId_kept h, getItem_pruned]

-- The links between line pointers that are kept stay as they are.
theorem linked_kept (hd : plan.val.offnums.Nodup) (h : n ∉ plan.val.offnums) :
    (page.toHeapPage.pruned plan).Linked page.updater n m ↔
    page.Linked page.updater n m ∧ m ∉ plan.val.offnums := by
  constructor
  case mp =>
    rintro ⟨hn, lp, hl, hnorm, hx⟩
    have hm := kept_of_normal hd hl hnorm
    rw [nextOffset_kept h] at hn
    rw [getItemId_kept hm] at hl
    rw [nextXmin_kept h, getItem_pruned] at hx
    exact ⟨⟨hn, lp, hl, hnorm, hx⟩, hm⟩
  case mpr =>
    rintro ⟨⟨hn, lp, hl, hnorm, hx⟩, hm⟩
    refine ⟨by rwa [nextOffset_kept h], lp, by rwa [getItemId_kept hm], hnorm, ?_⟩
    rwa [nextXmin_kept h, getItem_pruned]

-- A line pointer that has been changed is linked to an item only if it has been redirected to it.
theorem redirected_of_linked (hd : plan.val.offnums.Nodup) (h : n ∈ plan.val.offnums)
    (hl : (page.toHeapPage.pruned plan).Linked page.updater n m) : (n, m) ∈ plan.val.redirected := by
  have hn := hl.next
  obtain ⟨lp, hlp, h⟩ := changed_line hd h
  rw [Page.nextOffset, hlp] at hn
  obtain ⟨t, h, rfl⟩ | rfl | rfl := h
  · exact Option.some.inj hn ▸ h
  · cases hn
  · cases hn

theorem getItemId_redirected (hd : plan.val.offnums.Nodup) (h : (r, t) ∈ plan.val.redirected) :
    (page.toHeapPage.pruned plan).getItemId r = some ⟨t, .redirect, 0⟩ := by
  have hc : (r, ⟨(·.setRedirect t), by simp [ItemIdData.setRedirect, ItemIdData.hasStorage]⟩) ∈ plan.val.changes :=
    List.mem_append_left _ (List.mem_map_of_mem h)
  obtain ⟨lp, hl⟩ := Page.exists_getItemId.mpr (plan.property _ hc)
  rw [getItemId_changed hd hc, hl]
  rfl

theorem linked_redirected (hw : plan.val.WellFormed page) (h : (r, t) ∈ plan.val.redirected) :
    (page.toHeapPage.pruned plan).Linked page.updater r t := by
  obtain ⟨-, -, ⟨lp, hl, hn, -⟩, ht⟩ := hw.redirected r t h
  have hr := getItemId_redirected hw.once h
  refine ⟨Page.nextOffset_redirect hr rfl, lp, by rwa [getItemId_kept ht], hn, fun hx => ?_⟩
  exact absurd (Page.nextXmin_redirect hr rfl) hx

-- A root is kept as a root, unless its chain is removed.
theorem isRoot_pruned (hw : plan.val.WellFormed page) :
    (page.toHeapPage.pruned plan).IsRoot n ↔ page.IsRoot n ∧ n ∉ plan.val.offnums ∨
      ∃ t, (n, t) ∈ plan.val.redirected := by
  by_cases h : n ∈ plan.val.offnums
  case neg =>
    have hred : ¬∃ t, (n, t) ∈ plan.val.redirected := fun ht => h (PrunePlan.mem_offnums.mpr (.inl ht))
    rw [or_iff_left hred, and_iff_left h]
    simp only [Page.IsRoot, Page.IsRootTuple, Page.IsRedirect, getItemId_kept h, getItem_pruned]
  case pos =>
    rw [or_iff_right fun hr => hr.right h]
    obtain ⟨lp, hl, hlp⟩ := changed_line hw.once h
    constructor
    case mp =>
      rintro (⟨lp', hl', hn, -⟩ | ⟨lp', hl', hf⟩)
      · exact absurd h (kept_of_normal hw.once hl' hn)
      · obtain rfl := Option.some.inj (hl.symm.trans hl')
        obtain ⟨t, ht, -⟩ | rfl | rfl := hlp
        · exact ⟨t, ht⟩
        · cases hf
        · cases hf
    case mpr => exact fun ⟨t, ht⟩ => .inr ⟨_, getItemId_redirected hw.once ht, rfl⟩

-- The chains stay acyclic, as each of their links stands for a path on the page before.
theorem transGen_pruned (hd : plan.val.offnums.Nodup)
    (ht : ∀ r t, (r, t) ∈ plan.val.redirected → TransGen (page.Linked page.updater) r t)
    (h : TransGen ((page.toHeapPage.pruned plan).Linked page.updater) n m) :
    TransGen (page.Linked page.updater) n m := by
  have hlink {a b : Nat} (h : (page.toHeapPage.pruned plan).Linked page.updater a b) :
      TransGen (page.Linked page.updater) a b := by
    by_cases ha : a ∈ plan.val.offnums
    case pos => exact ht a b (redirected_of_linked hd ha h)
    case neg => exact .single ((linked_kept hd ha).mp h).left
  induction h
  case single hl      => exact hlink hl
  case tail hl ih     => exact ih.trans (hlink hl)

variable {satisfies : List UInt8 → Bool × List UInt8} {isSurelyDead : List UInt8 → Bool} {res : Option Nat}

theorem Settles.leads (hd : plan.val.offnums.Nodup) (hs : plan.val.Settles page r)
    (h : (r, t) ∈ plan.val.redirected) : page.LeadsTo r t ∧ TransGen (page.Linked page.updater) r t ∧
      ∀ m, TransGen (page.Linked page.updater) t m → m ∈ plan.val.offnums → page.Loose m := by
  have hr : r ∈ plan.val.redirected.map (·.1) := List.mem_map_of_mem h
  cases hs
  case kept hn _ _               => exact absurd (PrunePlan.mem_offnums.mpr (.inl ⟨t, h⟩)) hn
  case removed hdead _ _         =>
    exact absurd rfl ((List.nodup_append.mp hd).right.right r hr r (List.mem_append_left _ hdead))
  case redirected t' h' hl ht hm =>
    have he := List.inj_on_of_nodup_map (List.nodup_append.mp hd).left h h' rfl
    obtain rfl : t = t' := (Prod.mk.inj he).right
    exact ⟨hl, ht, hm⟩

theorem hits_kept (h : n ∉ plan.val.offnums) :
    (page.toHeapPage.pruned plan).Hits satisfies n ↔ page.Hits satisfies n := by
  simp only [Page.Hits, getItemId_kept h, getItem_pruned]

theorem follows_kept (hd : plan.val.offnums.Nodup) (h : n ∉ plan.val.offnums) :
    (page.toHeapPage.pruned plan).Follows page.updater satisfies n m ↔
    page.Follows page.updater satisfies n m ∧ m ∉ plan.val.offnums := by
  simp only [Page.Follows, linked_kept hd h, getItemId_kept h, getItem_pruned]
  tauto

theorem keepsLinks_pruned (hd : plan.val.offnums.Nodup) (hk : page.KeepsLinks page.updater satisfies) :
    (page.toHeapPage.pruned plan).KeepsLinks page.updater satisfies := by
  intro n lp hl hn hhot
  rw [getItem_pruned] at hhot ⊢
  exact hk n lp (getItemId_kept (kept_of_normal hd hl hn) ▸ hl) hn hhot

theorem Misses.not_hits (hm : page.Misses satisfies) (h : page.IsRedirect n ∨ page.Doomed n) :
    ¬page.Hits satisfies n := by
  rintro ⟨lp, hl, hn, hv⟩
  obtain ⟨lp', hl', hf⟩ | h := h
  · obtain rfl := Option.some.inj (hl.symm.trans hl')
    rw [ItemIdData.isNormal, hf] at hn
    cases hn
  · exact hm.invisible n lp h hl hv

-- A search passes what leads to an item.
theorem Misses.passes (hm : page.Misses satisfies) (h : page.LeadsTo n m) :
    ReflTransGen (fun n m => page.Follows page.updater satisfies n m ∧ ¬page.Hits satisfies n) n m := by
  refine ReflTransGen.mono (fun a b hab => ⟨⟨hab.left, fun lp hl hn => ?_⟩, hm.not_hits hab.right⟩) _ _ h
  obtain ⟨lp', hl', hf⟩ | hdoom := hab.right
  · obtain rfl := Option.some.inj (hl.symm.trans hl')
    rw [ItemIdData.isNormal, hf] at hn
    cases hn
  · refine hm.goesOn a lp hdoom hl ?_
    by_contra hhot
    have hnext := hab.left.next
    rw [Page.nextOffset_normal hl hn, if_neg hhot] at hnext
    cases hnext

-- A chain loses nothing that a search would find if only dead tuples at its end are removed.
theorem firstHit_pruned (hd : plan.val.offnums.Nodup) (hm : page.Misses satisfies) (hn : n ∉ plan.val.offnums)
    (hl : ∀ m, TransGen (page.Linked page.updater) n m → m ∈ plan.val.offnums → page.Loose m)
    (h : FirstHit (page.Follows page.updater satisfies) (page.Hits satisfies) n res) :
    FirstHit ((page.toHeapPage.pruned plan).Follows page.updater satisfies)
      ((page.toHeapPage.pruned plan).Hits satisfies) n res := by
  have hc : FirstHit.Cuts (page.Follows page.updater satisfies)
      ((page.toHeapPage.pruned plan).Follows page.updater satisfies) (page.Hits satisfies)
      ((page.toHeapPage.pruned plan).Hits satisfies)
      fun m => m ∉ plan.val.offnums ∧ ReflTransGen (page.Linked page.updater) n m := by
    constructor
    case hits  => exact fun a ha => hits_kept ha.left
    case keeps => exact fun a b ha hb hf => (follows_kept hd ha.left).mpr ⟨hf, hb.left⟩
    case only  =>
      intro a b ha hf
      obtain ⟨hf, hb⟩ := (follows_kept hd ha.left).mp hf
      exact ⟨hf, hb, ha.right.tail hf.left⟩
    case last  =>
      intro a b ha hb hf
      have hnb := TransGen.tail' ha.right hf.left
      have hloose : page.Loose b := hl b hnb (not_not.mp fun h => hb ⟨h, hnb.to_reflTransGen⟩)
      refine ⟨hm.not_hits (.inr (.dead hloose.right.left)), fun c hc => ?_⟩
      cases hloose.right.right.symm.trans hc.left.next
  exact h.cut hc (fun _ _ _ => Page.Follows.unique) ⟨hn, .refl⟩

-- What a search finds from the start of a chain, once what has been settled for the chain has been done.
theorem firstHit_settled (hw : plan.val.WellFormed page) (hr : page.IsRoot n) (hs : plan.val.Settles page n)
    (hm : page.Misses satisfies)
    (h : FirstHit (page.Follows page.updater satisfies) (page.Hits satisfies) n res) :
    (page.toHeapPage.pruned plan).IsRoot n ∧ FirstHit ((page.toHeapPage.pruned plan).Follows page.updater satisfies)
      ((page.toHeapPage.pruned plan).Hits satisfies) n res ∨
    ¬(page.toHeapPage.pruned plan).IsRoot n ∧ res = none := by
  rw [isRoot_pruned hw]
  cases hs
  case kept hn _ hl              => exact .inl ⟨.inl ⟨hr, hn⟩, firstHit_pruned hw.once hm hn hl h⟩
  case removed hdead hd hl       =>
    refine .inr ⟨?_, h.misses fun b hb => hm.not_hits ?_⟩
    · rintro (⟨-, hn⟩ | ⟨t, ht⟩)
      · exact hn (PrunePlan.mem_offnums.mpr (.inr (.inl hdead)))
      · exact (List.nodup_append.mp hw.once).right.right n (List.mem_map_of_mem ht) n
          (List.mem_append_left _ hdead) rfl
    · obtain rfl | ht := reflTransGen_iff_eq_or_transGen.mp hb
      · exact hd
      · exact .inr (hl b (TransGen.mono (fun _ _ hf => hf.left) _ _ ht))
  case redirected t hred hlead ht hl =>
    obtain ⟨-, -, -, hkept⟩ := hw.redirected n t hred
    have hline := getItemId_redirected hw.once hred
    have hu : ∀ a b c, page.Follows page.updater satisfies a b → page.Follows page.updater satisfies a c → b = c :=
      fun _ _ _ => Page.Follows.unique
    have hfirst := firstHit_pruned hw.once hm hkept hl (h.pass hu (hm.passes hlead))
    refine .inl ⟨.inr ⟨t, hred⟩, .step (Page.not_hits hline Bool.false_ne_true) ?_ hfirst⟩
    exact (Page.follows_redirect hline Bool.false_ne_true).mpr (linked_redirected hw hred)

theorem getItem_of_hits (hd : plan.val.offnums.Nodup) (h : (page.toHeapPage.pruned plan).Hits satisfies m) :
    ((page.toHeapPage.pruned plan).getItemId m).map (page.toHeapPage.pruned plan).getItem =
    (page.getItemId m).map page.getItem := by
  obtain ⟨lp, hl, hn, -⟩ := h
  rw [←getItemId_kept (kept_of_normal hd hl hn), hl, Option.map_some, Option.map_some, getItem_pruned]

-- Pruning keeps what a search finds from whatever line pointer.
theorem findsSame_pruned (hw : plan.val.WellFormed page) (hs : ∀ r, page.IsRoot r → plan.val.Settles page r)
    (hk : page.KeepsLinks page.updater satisfies) (hm : page.Misses satisfies) (n : Nat) :
    page.FindsSame page.updater satisfies isSurelyDead (page.toHeapPage.pruned plan).toPage n := by
  have hk' := keepsLinks_pruned hw.once hk
  have ha' (l : Nat) : ¬TransGen ((page.toHeapPage.pruned plan).Linked page.updater) l l := fun h =>
    page.acyclic l (transGen_pruned hw.once
      (fun r t hrt => (Settles.leads hw.once (hs r (hw.redirected r t hrt).left) hrt).right.left) h)
  by_cases hr : page.IsRoot n
  case neg =>
    have hr' : ¬(page.toHeapPage.pruned plan).IsRoot n := by
      rw [isRoot_pruned hw]
      rintro (h | ⟨t, h⟩)
      · exact hr h.left
      · exact hr (hw.redirected n t h).left
    exact ⟨_, _, Page.pgTdeHotSearchBuffer_other hr, Page.pgTdeHotSearchBuffer_other hr', rfl, fun m hm => by cases hm⟩
  case pos =>
    obtain ⟨r, he, hf⟩ := @Page.pgTdeHotSearchBuffer_root page.toPage page.updater satisfies isSurelyDead n
      page.acyclic hk hr
    obtain ⟨hr', hf'⟩ | ⟨hr', hf'⟩ := firstHit_settled hw hr (hs n hr) hm hf.found
    · obtain ⟨r', he', hs'⟩ := @Page.pgTdeHotSearchBuffer_root (page.toHeapPage.pruned plan).toPage page.updater
        satisfies isSurelyDead n ha' hk' hr'
      have hu : ∀ a b c, (page.toHeapPage.pruned plan).Follows page.updater satisfies a b →
          (page.toHeapPage.pruned plan).Follows page.updater satisfies a c → b = c :=
        fun _ _ _ => Page.Follows.unique
      refine ⟨r, r', he, he', FirstHit.unique hu hs'.found hf', fun m hm => ?_⟩
      exact getItem_of_hits hw.once (FirstHit.hits (hm ▸ hf')).left
    · exact ⟨r, _, he, Page.pgTdeHotSearchBuffer_other hr', hf'.symm, fun m hm => by cases hf'.symm.trans hm⟩

-- The planning for a page keeps what a search finds that is blind to dead tuples.
theorem Planned.findsSame {nd : Nat} {s : PruneState} (h : page.Planned (page.getMaxOffsetNumber + 1) nd s)
    (he : s.plan = plan.val) (hk : page.KeepsLinks page.updater satisfies) (hm : page.Misses satisfies) (n : Nat) :
    page.FindsSame page.updater satisfies isSurelyDead (page.toHeapPage.pruned plan).toPage n := by
  refine findsSame_pruned (he ▸ h.wellFormed) (fun r hr => ?_) hk hm n
  have hb := hr.bounds
  exact he ▸ h.settled r (by omega) hr

end TestedPage
