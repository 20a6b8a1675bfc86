import PgTde.Hot.PagePrune
import PgTde.Hot.Theorems.KeptSearch

open Relation XactStatus

namespace PrunablePage

variable {env : PruneEnv} {page : PrunablePage env} {oldSnapXmin n : Nat} {lp : ItemIdData}

theorem testTuples_eq (page : PrunablePage env) (oldSnapXmin : Nat) :
    env.testTuples page.getMaxOffsetNumber (page.toPage, .init oldSnapXmin) =
    ((page.tested oldSnapXmin).toPage, page.testedState oldSnapXmin) :=
  Prod.ext ((testedAbove_init page oldSnapXmin).run (Nat.le_refl _)).hinted rfl

theorem fresh_tested (page : PrunablePage env) (oldSnapXmin : Nat) :
    (page.tested oldSnapXmin).Fresh (page.testedState oldSnapXmin) := by
  have h := (testedAbove_init page oldSnapXmin).run (Nat.le_refl _)
  exact ⟨rfl, h.fresh.left, h.fresh.right⟩

-- What the test of a tuple has told, and the hints that it has set.
theorem tells_tested (hl : page.getItemId n = some lp) (hn : lp.isNormal) : ∃ res,
    (page.tested oldSnapXmin).htsv n = some res ∧
    (env.status n).Hinted (page.getItem lp) ((page.tested oldSnapXmin).getItem lp) ∧
    env.Tells (page.testedState oldSnapXmin) n ((page.tested oldSnapXmin).getItem lp) res := by
  have h := (testedAbove_init page oldSnapXmin).run (Nat.le_refl _)
  have hb := Page.exists_getItemId.mp ⟨lp, hl⟩
  have ht := h.tuples n (by omega) lp hl hn
  rw [h.hinted] at ht
  exact ht

theorem line_of_htsv {res : HTSVResult} (h : (page.tested oldSnapXmin).htsv n = some res) :
    ∃ lp, page.getItemId n = some lp ∧ lp.isNormal := by
  by_contra hno
  have htests := (testedAbove_init page oldSnapXmin).run (Nat.le_refl _)
  have hnone := htests.others n (by omega) fun lp hl hn => hno ⟨lp, hl, hn⟩
  cases hnone.symm.trans h

-- The changes come to an end as planned.
theorem prunes (page : PrunablePage env) (oldSnapXmin : Nat) : ∃ plan nd s,
    page.Prunes oldSnapXmin plan nd s ∧ (page.tested oldSnapXmin).Planned (page.getMaxOffsetNumber + 1) nd s := by
  obtain ⟨nd, s, he, hp⟩ := TestedPage.planPrune_planned page.sameUpdater (page.fresh_tested oldSnapXmin)
  refine ⟨⟨s.plan, hp.valid⟩, nd, s, ⟨rfl, fun P bn key stack => ?_⟩, hp⟩
  rw [Platform.pgTdePagePrune, testTuples_eq]
  simp only [he, Outcome.ok_bind, PrunePlan.offnums, List.append_eq_nil_iff, List.map_eq_nil_iff]
  split
  case isTrue  => rfl
  case isFalse => rw [HeapPage.pgTdePagePruneExecute_eq ⟨s.plan, hp.valid⟩]; rfl

section Seen

variable {x : XactStatus} {snapshot : MvccSnapshot x} {xid m : Nat}

-- The link to the next member of a chain names the transaction that the tuple has been updated by.
theorem xmin_of_linked {page : Page} {lp' : ItemIdData}
    (hlink : page.Linked x.updater n m) (hl : page.getItemId n = some lp) (hn : lp.isNormal)
    (hl' : page.getItemId m = some lp') (ht : x.Truthful (page.getItem lp))
    (hx : updateXid x.updater (page.getItem lp) = some xid) (hf : x.fate xid = .committed) :
    heapTupleHeaderGetXmin (page.getItem lp') = xid := by
  have hi : ¬heapTupleHas heapXmaxInvalid (page.getItem lp) := by
    intro hi
    have hd := (ht.xmaxInvalid hi).right (x.fate xid) (by rw [deletion, deletionFate, hx]; rfl)
    cases hd.symm.trans hf
  have hxid : xid ≠ invalidTransactionId := by
    rintro rfl
    cases fate_invalid.symm.trans hf
  obtain ⟨-, lp'', hl'', -, hmin⟩ := hlink
  obtain rfl := Option.some.inj (hl''.symm.trans hl')
  rw [Page.nextXmin_normal hl hn, heapTupleHeaderGetUpdateXid_eq hx hi] at hmin
  exact (hmin hxid).symm

-- The snapshot does not count a transaction as running if it has seen an insertion by it.
theorem not_contains_of_xmin {tup : List UInt8} (hs : ¬snapshot.contains frozenTransactionId)
    (hi : insertionFate snapshot.fate tup = .committed) : ¬snapshot.contains (heapTupleHeaderGetXmin tup) := by
  rw [heapTupleHeaderGetXmin]
  rw [insertionFate] at hi
  split at hi
  case isTrue hf  => rwa [if_pos hf]
  case isFalse hf =>
    rw [if_neg hf]
    intro hc
    by_cases hown : x.isCurrent (heapTupleHeaderGetRawXmin tup)
    · cases (MvccSnapshot.fate_own_iff.mpr hown).symm.trans hi
    · cases (MvccSnapshot.fate_running hown hc).symm.trans hi

-- The insertion of the tuple is known to be aborted, or the snapshot sees its deletion.
def SeesGone (snapshot : MvccSnapshot x) (tup : List UInt8) : Prop :=
  heapTupleHeaderXminInvalid tup ∨ x.insertion tup = .committed ∧
    ∃ xid, updateXid x.updater tup = some xid ∧ x.fate xid = .committed ∧ ¬snapshot.contains xid

theorem SeesGone.not_visible {tup : List UInt8} (h : SeesGone snapshot tup) (ht : x.Truthful tup) :
    ¬snapshot.Visible tup := by
  have hd : x.Dead (fun xid => !snapshot.contains xid) tup := by
    obtain hi | ⟨-, xid, hx, hf, hc⟩ := h
    · exact .inl (ht.xminInvalid hi)
    · exact .inr ⟨xid, hx, hf, by simpa using hc⟩
  exact hd.not_visible fun xid hr => by simpa using hr

-- What finds out that a tuple is gone does not find out that its update has been aborted.
theorem SeesGone.goesOn {tup tup' : List UInt8} (h : SeesGone snapshot tup) (ht : x.Truthful tup)
    (hh : x.Hinted tup tup') (hu : heapTupleHeaderIsHotUpdated tup) : heapTupleHeaderIsHotUpdated tup' := by
  have hl : 20 ≤ tup.length := Nat.le_trans (by decide) ht.header
  rw [heapTupleHeaderIsHotUpdated, decide_eq_true_iff] at hu ⊢
  obtain ⟨h₂, -, hx⟩ := hu
  obtain ⟨hi, xid, hxid, hf, -⟩ := h.resolve_left hx
  refine ⟨by rwa [hh.tInfomask2_eq hl], ?_, fun hx' => ?_⟩
  · by_contra hi'
    have hd := (hh.truthful.xmaxInvalid (heapTupleHas_eq_true.mpr hi')).right (x.fate xid)
      (by rw [deletion, hh.deletionFate_eq hl, deletionFate, hxid]; rfl)
    cases hd.symm.trans hf
  · have hins : x.insertion tup' = x.insertion tup := hh.insertionFate_eq hl
    cases (hh.truthful.xminInvalid hx').symm.trans (hins.trans hi)

variable (h : page.SeenBy oldSnapXmin snapshot)

include h

theorem SeenBy.insertion_committed {tup : List UInt8} (hi : (env.status n).insertion tup = .committed) :
    x.insertion tup = .committed := by
  rw [insertion, insertionFate] at hi ⊢
  split at hi
  case isTrue hf  => rw [if_pos hf]
  case isFalse hf =>
    rw [if_neg hf]
    exact h.committed n _ hi

-- A tuple that has been updated to one that is gone has been updated by a transaction that the snapshot has seen.
theorem SeenBy.gone_linked {lp' : ItemIdData} (hl : page.getItemId n = some lp) (hn : lp.isNormal)
    (hl' : page.getItemId m = some lp') (hn' : lp'.isNormal)
    (hlink : (page.tested oldSnapXmin).Linked page.updater n m)
    (hx : updateXid x.updater ((page.tested oldSnapXmin).getItem lp) = some xid) (hf : x.fate xid = .committed)
    (hg : SeesGone snapshot ((page.tested oldSnapXmin).getItem lp')) : ¬snapshot.contains xid := by
  have hlink : (page.tested oldSnapXmin).Linked x.updater n m := by rwa [h.updater]
  have hmin := xmin_of_linked hlink hl hn hl' (h.truthful n lp hl hn) hx hf
  rw [←hmin]
  refine not_contains_of_xmin h.special ?_
  obtain hi | ⟨-, xid', hx', hf', hc'⟩ := hg
  case inl =>
    -- The insertion would have to be that of a transaction that has been committed.
    have hi := (h.truthful m lp' hl' hn').xminInvalid hi
    by_cases hfr : heapTupleHeaderXminFrozen ((page.tested oldSnapXmin).getItem lp')
    case pos => exact insertionFate_of_frozen hfr
    case neg =>
      rw [insertion, insertionFate, if_neg hfr] at hi
      rw [heapTupleHeaderGetXmin, if_neg hfr] at hmin
      have hraw : heapTupleHeaderGetRawXmin ((page.tested oldSnapXmin).getItem lp') = xid := hmin
      rw [hraw] at hi
      cases hi.symm.trans hf
  case inr =>
    refine h.ordered m lp' hl' hn' ?_
    rw [deletionFate, hx', Option.map_some, MvccSnapshot.fate_eq hc', hf']

-- The snapshot sees that the tuples are gone that can be removed.
theorem SeenBy.gone (hd : (page.tested oldSnapXmin).Doomed n) : ∃ lp, page.getItemId n = some lp ∧ lp.isNormal ∧
    SeesGone snapshot ((page.tested oldSnapXmin).getItem lp) := by
  induction hd
  case dead n hd                        =>
    obtain ⟨lp, hl, hn⟩ := line_of_htsv hd
    obtain ⟨res, hres, -, ht⟩ := @tells_tested env page oldSnapXmin n lp hl hn
    refine ⟨lp, hl, hn, (ht.dead (Option.some.inj (hres.symm.trans hd))).imp_right ?_⟩
    rintro ⟨hi, xid, hx, hf, hr⟩
    rw [page.updaters] at hx
    exact ⟨h.insertion_committed hi, xid, h.updater ▸ hx, h.committed n xid hf, h.respects n xid hr⟩
  case recentlyDead n m hrec hlink _ ih =>
    obtain ⟨lp, hl, hn⟩ := line_of_htsv hrec
    obtain ⟨lp', hl', hn', hg⟩ := ih
    obtain ⟨res, hres, -, ht⟩ := @tells_tested env page oldSnapXmin n lp hl hn
    obtain ⟨hi, hd⟩ := ht.recentlyDead (Option.some.inj (hres.symm.trans hrec))
    rw [deletion, deletionFate, page.updaters, Option.map_eq_some_iff] at hd
    obtain ⟨xid, hx, hf⟩ := hd
    have hx : updateXid x.updater ((page.tested oldSnapXmin).getItem lp) = some xid := h.updater ▸ hx
    have hf := h.committed n xid hf
    exact ⟨lp, hl, hn, .inr ⟨h.insertion_committed hi, xid, hx, hf, h.gone_linked hl hn hl' hn' hlink hx hf hg⟩⟩

theorem SeenBy.misses : (page.tested oldSnapXmin).Misses snapshot.heapTupleSatisfiesMVCC where
  invisible n lp hd hl := by
    obtain ⟨lp', hl', hn, hg⟩ := h.gone hd
    obtain rfl := Option.some.inj (hl'.symm.trans hl)
    have ht := h.truthful n lp' hl hn
    obtain ⟨tup', -, he⟩ := snapshot.heapTupleSatisfiesMVCC_eq ht
    rw [he]
    simpa using hg.not_visible ht
  goesOn n lp hd hl hu := by
    obtain ⟨lp', hl', hn, hg⟩ := h.gone hd
    obtain rfl := Option.some.inj (hl'.symm.trans hl)
    have ht := h.truthful n lp' hl hn
    obtain ⟨tup', hh, he⟩ := snapshot.heapTupleSatisfiesMVCC_eq ht
    rw [he]
    exact hg.goesOn ht hh hu

theorem SeenBy.keepsLinks : (page.tested oldSnapXmin).KeepsLinks page.updater snapshot.heapTupleSatisfiesMVCC := by
  intro n lp hl hn hu
  have ht := h.truthful n lp hl hn
  obtain ⟨tup', hh, he⟩ := snapshot.heapTupleSatisfiesMVCC_eq ht
  have hlen : 20 ≤ ((page.tested oldSnapXmin).getItem lp).length := Nat.le_trans (by decide) ht.header
  rw [he] at hu ⊢
  exact ⟨hh.isHotUpdated_of hlen hu, hh.ctidOffsetNumber_eq hlen, hh.getUpdateXid_eq hlen hu⟩

end Seen

-- What `pg_tde_page_prune` changes meets all assertions, and the number of tuples deleted is that of the line
-- pointers to be changed that have a tuple.
theorem prune_wellFormed (page : PrunablePage env) (oldSnapXmin : Nat) : ∃ plan nd s,
    page.Prunes oldSnapXmin plan nd s ∧ plan.val.WellFormed (page.tested oldSnapXmin) ∧
    nd = plan.val.offnums.countP (page.tested oldSnapXmin).hasTuple := by
  obtain ⟨plan, nd, s, hp, h⟩ := page.prunes oldSnapXmin
  exact ⟨plan, nd, s, hp, hp.planned ▸ h.wellFormed, hp.planned ▸ h.deleted⟩

-- No other tuples are removed than dead ones, and recently dead ones that have been updated to them. A dead tuple
-- is left only where it is in the middle of a chain that cannot be pruned up to it.
theorem prune_removesDead (page : PrunablePage env) (oldSnapXmin : Nat) : ∃ plan nd s,
    page.Prunes oldSnapXmin plan nd s ∧
    (∀ n ∈ plan.val.offnums, page.IsRedirect n ∨ (page.tested oldSnapXmin).Doomed n) ∧
    ∀ n, (page.tested oldSnapXmin).Dead n → n ∉ plan.val.offnums →
      (page.tested oldSnapXmin).IsHeapOnlyTuple n ∧ (page.tested oldSnapXmin).nextOffset n ≠ none ∧
      ∀ r, (page.tested oldSnapXmin).IsRoot r → ¬(page.tested oldSnapXmin).PassesTo r n := by
  obtain ⟨plan, nd, s, hp, h⟩ := page.prunes oldSnapXmin
  refine ⟨plan, nd, s, hp, hp.planned ▸ h.doomed, fun n hd hn => ?_⟩
  obtain ⟨lp, hl, hnorm⟩ := line_of_htsv hd
  exact h.left_dead hl hnorm hd (hp.planned ▸ hn)

-- Pruning hides no tuple from a snapshot that does not count transactions as running that are below the horizon.
theorem prune_findsSame (page : PrunablePage env) (oldSnapXmin : Nat) {x : XactStatus} (snapshot : MvccSnapshot x)
    (isSurelyDead : List UInt8 → Bool) (h : page.SeenBy oldSnapXmin snapshot) : ∃ plan nd s,
      page.Prunes oldSnapXmin plan nd s ∧ ∀ n, (page.tested oldSnapXmin).FindsSame page.updater
        snapshot.heapTupleSatisfiesMVCC isSurelyDead (page.pruned oldSnapXmin plan).toPage n := by
  obtain ⟨plan, nd, s, hp, hplanned⟩ := page.prunes oldSnapXmin
  exact ⟨plan, nd, s, hp, hplanned.findsSame hp.planned h.keepsLinks h.misses⟩

-- The version of a row that has been updated.
def oldVersion : List UInt8 :=
  [3, 0, 0, 0, 4, 0, 0, 0] ++ List.replicate 8 0 ++ [2, 0, 1, 64, 0, 0, 24, 0, 41, 0, 0, 0, 0, 0, 0, 0]

-- The heap-only tuple that it has been updated to.
def newVersion : List UInt8 :=
  [4, 0, 0, 0, 0, 0, 0, 0] ++ List.replicate 8 0 ++ [2, 0, 1, 128, 0, 8, 24, 0, 42, 0, 0, 0, 0, 0, 0, 0]

-- Both transactions have been committed.
def committedStatus : XactStatus where
  isCurrent _    := false
  inProgress _   := false
  didCommit xid  := xid = 3 ∨ xid = 4
  updater        := id
  isRunning _ _  := false
  unflushed _    := false
  realCmin       := id
  realCmax       := id
  current        := by simp
  invalid        := by decide
  no_members     := rfl
  runs_updater   := by simp

def committedEnv : PruneEnv where
  status _                   := committedStatus
  isRemovable _ xid          := xid < 5
  oldSnapshotThresholdActive := false
  limitedXmin                := invalidTransactionId
  didCommit                  := committedStatus.didCommit
  updater                    := id

def updatedRow : HeapPage where
  pdUpper         := 8128
  pdSpecial       := 8192
  pdHasFreeLines  := false
  linp            := [⟨8160, .normal, 32⟩, ⟨8128, .normal, 32⟩]
  mem             := (Memory.zero.write 8160 oldVersion).write 8128 newVersion
  lower_le        := by decide
  upper_le        := by decide
  special_le      := emptySpecial_le
  special_aligned := emptySpecial_aligned
  tuples          := by
    simp only [List.forall_mem_cons, List.not_mem_nil, false_imp_iff, implies_true, and_true]
    exact ⟨fun _ => by constructor <;> decide, fun _ => by constructor <;> decide⟩
  disjoint        := by decide

theorem getItemId_updatedRow {n : Nat} {lp : ItemIdData} (h : updatedRow.getItemId n = some lp) :
    n = 1 ∧ lp = ⟨8160, .normal, 32⟩ ∨ n = 2 ∧ lp = ⟨8128, .normal, 32⟩ := by
  have hb : 1 ≤ n ∧ n ≤ 2 := Page.exists_getItemId.mp ⟨lp, h⟩
  obtain rfl | rfl : n = 1 ∨ n = 2 := by omega
  · exact .inl ⟨rfl, (Option.some.inj h).symm⟩
  · exact .inr ⟨rfl, (Option.some.inj h).symm⟩

theorem linked_updatedRow {n m : Nat} (h : updatedRow.Linked id n m) : n = 1 ∧ m = 2 := by
  obtain ⟨hnext, -⟩ := h
  cases hi : updatedRow.getItemId n
  case none    => simp [Page.nextOffset, hi] at hnext
  case some lp =>
    obtain ⟨rfl, -⟩ | ⟨rfl, -⟩ := getItemId_updatedRow hi
    · exact ⟨rfl, Option.some.inj (hnext.symm.trans (by decide : updatedRow.nextOffset 1 = some 2))⟩
    · cases hnext.symm.trans (by decide : updatedRow.nextOffset 2 = none)

theorem transGen_updatedRow {n m : Nat} (h : TransGen (updatedRow.Linked id) n m) : n = 1 ∧ m = 2 := by
  induction h
  case single h    => exact linked_updatedRow h
  case tail h ih   =>
    have hl := linked_updatedRow h
    omega

theorem root_updatedRow {n : Nat} (h : updatedRow.IsRoot n) : n = 1 := by
  obtain ⟨lp, hl, -, ho⟩ | ⟨lp, hl, hf⟩ := h
  all_goals obtain ⟨rfl, rfl⟩ | ⟨rfl, rfl⟩ := getItemId_updatedRow hl
  · rfl
  · exact absurd (by decide) ho
  · rfl
  · cases hf

def updatedRowPage : PrunablePage committedEnv where
  toHeapPage       := updatedRow
  updater          := id
  acyclic n h      := by
    have := transGen_updatedRow h
    omega
  oneRoot k j j' h h' := (root_updatedRow (Page.HasRoot.isRoot h)).trans (root_updatedRow (Page.HasRoot.isRoot h')).symm
  heapOnly n m h   := by
    obtain ⟨-, rfl⟩ := linked_updatedRow h
    exact ⟨_, rfl, rfl, by decide⟩
  few              := by decide
  sameUpdater      := rfl
  updaters _       := rfl
  truthful n lp hl _ := by
    obtain ⟨rfl, rfl⟩ | ⟨rfl, rfl⟩ := getItemId_updatedRow hl
    · constructor <;> decide
    · constructor <;> decide

def laterSnapshot : MvccSnapshot committedStatus where
  contains xid := 5 ≤ xid
  curcid       := 0
  running      := by simp [committedStatus]

theorem seenBy_laterSnapshot : updatedRowPage.SeenBy 0 laterSnapshot where
  updater           := rfl
  committed _ _ h   := h
  aborted _ _ h     := h
  truthful n lp hl _ := by
    obtain ⟨rfl, rfl⟩ | ⟨rfl, rfl⟩ := getItemId_updatedRow hl
    · constructor <;> decide
    · constructor <;> decide
  respects n xid hr := by
    have hu : (updatedRowPage.testedState 0).oldSnapUsed = false := by decide
    rw [PruneEnv.removable, hu, Bool.false_and, Bool.or_false] at hr
    have hlt : xid < 5 := of_decide_eq_true hr
    simpa [laterSnapshot] using hlt
  special           := by decide
  ordered n lp hl _ := by
    obtain ⟨rfl, rfl⟩ | ⟨rfl, rfl⟩ := getItemId_updatedRow hl
    · decide
    · decide

theorem prune_findsSame_updatedRowPage : ∃ plan nd s, updatedRowPage.Prunes 0 plan nd s ∧
    ∀ n, (updatedRowPage.tested 0).FindsSame id laterSnapshot.heapTupleSatisfiesMVCC (fun _ => false)
      (updatedRowPage.pruned 0 plan).toPage n :=
  updatedRowPage.prune_findsSame 0 laterSnapshot (fun _ => false) seenBy_laterSnapshot

-- The search starts from the old version, and finds the new one.
example : (updatedRowPage.tested 0).pgTdeHotSearchBuffer id laterSnapshot.heapTupleSatisfiesMVCC (fun _ => false) 1
    true = .ok ⟨some 2, false⟩ := by
  decide

end PrunablePage
