import PgTde.Hot.Theorems.PagePrune
import PgTde.Vacuum.Theorems.LinePointers

open XactStatus

namespace Page

variable {page : Page} {n : Nat}

theorem lineUse_eq_root : page.lineUse n = .root ↔ page.IsRoot n := by
  rw [IsRoot, IsRootTuple, IsRedirect]
  cases hl : page.getItemId n
  case none    => simp [lineUse, hl]
  case some lp =>
    rw [lineUse_some hl, itemUse]
    cases hf : lp.lpFlags
    all_goals simp [hf, ItemIdData.isNormal]

theorem lineUse_eq_heapOnly : page.lineUse n = .heapOnly ↔ page.IsHeapOnlyTuple n := by
  rw [IsHeapOnlyTuple]
  cases hl : page.getItemId n
  case none    => simp [lineUse, hl]
  case some lp =>
    rw [lineUse_some hl, itemUse]
    cases hf : lp.lpFlags
    all_goals simp [hf, ItemIdData.isNormal]

end Page

theorem HeapPage.clearAll_getMaxOffsetNumber {page : HeapPage} {cs : List (Nat × ItemIdData.Clearing)} :
    (page.clearAll cs).getMaxOffsetNumber = page.getMaxOffsetNumber := by
  induction cs generalizing page
  case nil          => rfl
  case cons c cs ih => exact ih.trans clear_getMaxOffsetNumber

namespace TestedPage

variable {page : TestedPage} {plan : page.toHeapPage.Plan} {n r t : Nat}

theorem lineUse_kept (h : n ∉ plan.val.offnums) : (page.toHeapPage.pruned plan).lineUse n = page.lineUse n := by
  have hitem : (page.toHeapPage.pruned plan).itemUse = page.itemUse := by
    funext lp
    rw [Page.itemUse, Page.itemUse, getItem_pruned]
  rw [Page.lineUse, Page.lineUse, getItemId_kept h, hitem]

theorem lineUse_nowdead (hd : plan.val.offnums.Nodup) (h : n ∈ plan.val.nowdead) :
    (page.toHeapPage.pruned plan).lineUse n = .dead := by
  have hc : (n, ⟨(·.setDead), by simp [ItemIdData.setDead, ItemIdData.hasStorage]⟩) ∈ plan.val.changes :=
    List.mem_append_right _ (List.mem_append_left _ (List.mem_map_of_mem h))
  obtain ⟨lp, hl⟩ := Page.exists_getItemId.mpr (plan.property _ hc)
  have hl' := getItemId_changed hd hc
  rw [hl] at hl'
  exact (Page.lineUse_some hl').trans rfl

theorem lineUse_nowunused (hd : plan.val.offnums.Nodup) (h : n ∈ plan.val.nowunused) :
    (page.toHeapPage.pruned plan).lineUse n = .unused := by
  have hc : (n, ⟨(·.setUnused), by simp [ItemIdData.setUnused, ItemIdData.hasStorage]⟩) ∈ plan.val.changes :=
    List.mem_append_right _ (List.mem_append_right _ (List.mem_map_of_mem h))
  obtain ⟨lp, hl⟩ := Page.exists_getItemId.mpr (plan.property _ hc)
  have hl' := getItemId_changed hd hc
  rw [hl] at hl'
  exact (Page.lineUse_some hl').trans rfl

-- Only starts of chains and heap-only tuples are changed, the former to redirections or dead line pointers.
theorem prunedTo (hw : plan.val.WellFormed page) : page.PrunedTo (page.toHeapPage.pruned plan).toPage := by
  have hcases (n : Nat) (h : n ∈ plan.val.offnums) : page.lineUse n = .root ∨ page.lineUse n = .heapOnly := by
    obtain ⟨t, h⟩ | h | h := PrunePlan.mem_offnums.mp h
    · exact .inl (Page.lineUse_eq_root.mpr (hw.redirected n t h).left)
    · exact .inl (Page.lineUse_eq_root.mpr (hw.nowdead n h))
    · exact .inr (Page.lineUse_eq_heapOnly.mpr (hw.nowunused n h))
  have hkept {n : Nat} {use : LineUse} (hu : page.lineUse n = use) (hr : use ≠ .root) (ho : use ≠ .heapOnly) :
      (page.toHeapPage.pruned plan).lineUse n = use := by
    subst hu
    exact lineUse_kept fun h => (hcases n h).elim hr ho
  constructor
  case unused   => exact fun n hu => hkept hu (by decide) (by decide)
  case dead     => exact fun n hu => hkept hu (by decide) (by decide)
  case root     =>
    intro n hu
    by_cases h : n ∈ plan.val.offnums
    case neg => exact .inl ((lineUse_kept h).trans hu)
    case pos =>
      obtain ⟨t, h⟩ | h | h := PrunePlan.mem_offnums.mp h
      · exact .inl (Page.lineUse_eq_root.mpr ((isRoot_pruned hw).mpr (.inr ⟨t, h⟩)))
      · exact .inr (lineUse_nowdead hw.once h)
      · cases hu.symm.trans (Page.lineUse_eq_heapOnly.mpr (hw.nowunused n h))
  case heapOnly =>
    intro n hu
    by_cases h : n ∈ plan.val.offnums
    case neg => exact .inl ((lineUse_kept h).trans hu)
    case pos =>
      obtain ⟨t, h⟩ | h | h := PrunePlan.mem_offnums.mp h
      · cases hu.symm.trans (Page.lineUse_eq_root.mpr (hw.redirected n t h).left)
      · cases hu.symm.trans (Page.lineUse_eq_root.mpr (hw.nowdead n h))
      · exact .inr (lineUse_nowunused hw.once h)

end TestedPage

namespace PrunablePage

variable {env : PruneEnv} {page : PrunablePage env} {oldSnapXmin n : Nat} {lp : ItemIdData}

-- The tests of the tuples do not change what line pointers are used for.
theorem lineUse_tested : (page.tested oldSnapXmin).lineUse n = page.lineUse n := by
  have h := (testedAbove_init page oldSnapXmin).run (Nat.le_refl _)
  have hget : (page.tested oldSnapXmin).getItemId n = page.getItemId n := rfl
  cases hl : page.getItemId n
  case none    => rw [Page.lineUse, Page.lineUse, hget, hl, Option.elim_none, Option.elim_none]
  case some lp =>
    rw [Page.lineUse_some hl, Page.lineUse_some (hget.trans hl), Page.itemUse, Page.itemUse]
    cases hf : lp.lpFlags
    case normal =>
      have ho := h.isHeapOnly hl (decide_eq_true hf)
      rw [h.hinted] at ho
      simp only
      exact congrArg (fun b => if b then LineUse.heapOnly else .root) ho
    all_goals rfl

-- A tuple is not removed while the transaction that has inserted it is running.
theorem not_doomed (hl : page.getItemId n = some lp) (hn : lp.isNormal)
    (hi : (env.status n).insertion (page.getItem lp) = .running) : ¬(page.tested oldSnapXmin).Doomed n := by
  obtain ⟨res, hres, hh, ht⟩ := @tells_tested env page oldSnapXmin n lp hl hn
  have hlen : 20 ≤ (page.getItem lp).length := Nat.le_trans (by decide) (page.truthful n lp hl hn).header
  have hi' : (env.status n).insertion ((page.tested oldSnapXmin).getItem lp) = .running :=
    (hh.insertionFate_eq hlen).trans hi
  rintro (hd | ⟨hrec, -, -⟩)
  · obtain hx | ⟨hc, -⟩ := ht.dead (Option.some.inj (hres.symm.trans hd))
    · cases hi'.symm.trans (hh.truthful.xminInvalid hx)
    · cases hi'.symm.trans hc
  · cases hi'.symm.trans (ht.recentlyDead (Option.some.inj (hres.symm.trans hrec))).left

-- What `pg_tde_page_prune` does to a page of a table is what the table takes pruning for, if the transactions that
-- are about to insert index entries for tuples of the page are running.
theorem prune_prunesPage (page : PrunablePage env) (oldSnapXmin : Nat) {t : TableState} {blkno : Nat}
    (hp : t.pages[blkno]? = some ⟨page.toPage, page.few⟩)
    (hr : ∀ p ∈ t.pending, p.2.tid.blkno = blkno → page.lineUse p.2.tid.offnum = .root ∧
      ∃ lp, page.getItemId p.2.tid.offnum = some lp ∧ lp.isNormal ∧
        (env.status p.2.tid.offnum).insertion (page.getItem lp) = .running) : ∃ plan nd s, ∃ page' : TablePage,
      page.Prunes oldSnapXmin plan nd s ∧ page'.toPage = (page.pruned oldSnapXmin plan).toPage ∧
      t.PrunesPage blkno ⟨page.toPage, page.few⟩ page' := by
  obtain ⟨plan, nd, s, hprunes, h⟩ := page.prunes oldSnapXmin
  have hw : plan.val.WellFormed (page.tested oldSnapXmin) := hprunes.planned ▸ h.wellFormed
  have hto := TestedPage.prunedTo hw
  have htested (n : Nat) : (page.tested oldSnapXmin).lineUse n = page.lineUse n := lineUse_tested
  have hfew : (page.pruned oldSnapXmin plan).getMaxOffsetNumber ≤ maxHeapTuplesPerPage :=
    (HeapPage.clearAll_getMaxOffsetNumber ..).trans_le page.few
  refine ⟨plan, nd, s, ⟨(page.pruned oldSnapXmin plan).toPage, hfew⟩, hprunes, rfl, hp, ?_, fun p hmem hb => ?_⟩
  · exact ⟨fun n hu => hto.unused n ((htested n).trans hu), fun n hu => hto.root n ((htested n).trans hu),
      fun n hu => hto.heapOnly n ((htested n).trans hu), fun n hu => hto.dead n ((htested n).trans hu)⟩
  · obtain ⟨hroot, lp, hl, hn, hi⟩ := hr p hmem hb
    have hkept : p.2.tid.offnum ∉ plan.val.offnums := by
      intro hm
      obtain ⟨lp', hl', hf⟩ | hd := h.doomed _ (hprunes.planned.symm ▸ hm)
      · have hf' : lp'.lpFlags = .normal := by
          obtain rfl := Option.some.inj (hl.symm.trans hl')
          simpa [ItemIdData.isNormal] using hn
        cases hf.symm.trans hf'
      · exact not_doomed hl hn hi hd
    exact (TestedPage.lineUse_kept hkept).trans ((htested _).trans hroot)

theorem no_members_id : id invalidTransactionId = invalidTransactionId :=
  rfl

-- Transaction 7 is running.
def runningStatus : XactStatus where
  isCurrent _      := false
  inProgress xid   := xid = 7
  didCommit _      := false
  updater          := id
  isRunning xid _  := xid = 7
  unflushed _      := false
  realCmin         := id
  realCmax         := id
  current _ h      := (Bool.false_ne_true h).elim
  invalid          := by decide
  no_members       := no_members_id
  runs_updater _ h := h

def runningEnv : PruneEnv where
  status _                   := runningStatus
  isRemovable _ xid          := xid < 7
  oldSnapshotThresholdActive := false
  limitedXmin                := invalidTransactionId
  didCommit                  := runningStatus.didCommit
  updater                    := id

-- A page with a tuple that the transaction has inserted.
def insertedPage : Page where
  pdUpper        := 8160
  pdSpecial      := 8192
  pdHasFreeLines := false
  linp           := [⟨8160, .normal, 32⟩]
  mem            := Memory.zero.write 8160 <|
    [7, 0, 0, 0, 0, 0, 0, 0] ++ List.replicate 8 0 ++ [1, 0, 1, 0, 0, 8, 24, 0, 43, 0, 0, 0, 0, 0, 0, 0]

theorem lower_le_insertedPage : insertedPage.pdLower ≤ insertedPage.pdUpper := by
  decide

theorem upper_le_insertedPage : insertedPage.pdUpper ≤ insertedPage.pdSpecial := by
  decide

theorem tuple_insertedPage : ∀ lp ∈ insertedPage.linp, lp.hasStorage → lp.Tuple insertedPage :=
  List.forall_mem_singleton.mpr fun _ => by constructor <;> decide

theorem disjoint_insertedPage : insertedPage.linp.Pairwise fun lp₁ lp₂ =>
    lp₁.hasStorage → lp₂.hasStorage → lp₁.extent.Disjoint lp₂.extent :=
  List.pairwise_singleton _ _

def insertedRow : HeapPage where
  toPage          := insertedPage
  lower_le        := lower_le_insertedPage
  upper_le        := upper_le_insertedPage
  special_le      := emptySpecial_le
  special_aligned := emptySpecial_aligned
  tuples          := tuple_insertedPage
  disjoint        := disjoint_insertedPage

theorem getItemId_insertedRow {n : Nat} {lp : ItemIdData} (h : insertedRow.getItemId n = some lp) :
    n = 1 ∧ lp = ⟨8160, .normal, 32⟩ := by
  have hb : 1 ≤ n ∧ n ≤ 1 := Page.exists_getItemId.mp ⟨lp, h⟩
  obtain rfl : n = 1 := by omega
  exact ⟨rfl, (Option.some.inj h).symm⟩

theorem not_linked_insertedRow {n m : Nat} : ¬insertedRow.Linked id n m := by
  rintro ⟨hnext, -⟩
  cases hi : insertedRow.getItemId n
  case none    => simp [Page.nextOffset, hi] at hnext
  case some lp =>
    obtain ⟨rfl, -⟩ := getItemId_insertedRow hi
    cases hnext.symm.trans (by decide : insertedRow.nextOffset 1 = none)

theorem root_insertedRow {n : Nat} (h : insertedRow.IsRoot n) : n = 1 := by
  obtain ⟨lp, hl, -⟩ | ⟨lp, hl, -⟩ := h
  · exact (getItemId_insertedRow hl).left
  · exact (getItemId_insertedRow hl).left

def insertedRowPage : PrunablePage runningEnv where
  toHeapPage         := insertedRow
  updater            := id
  acyclic _          := Page.not_transGen_linked fun _ => not_linked_insertedRow
  oneRoot k j j' h h' := (root_insertedRow (Page.HasRoot.isRoot h)).trans (root_insertedRow (Page.HasRoot.isRoot h')).symm
  heapOnly n m h     := absurd h not_linked_insertedRow
  few                := by decide
  sameUpdater        := rfl
  updaters _         := rfl
  truthful n lp hl _ := by
    obtain ⟨rfl, rfl⟩ := getItemId_insertedRow hl
    constructor <;> decide

-- A backend is about to insert the index entry of the tuple.
def insertingTable : TableState where
  pages   := [⟨insertedRowPage.toPage, insertedRowPage.few⟩]
  indexes := [[]]
  pending := [(0, ⟨⟨0, 1⟩, 0⟩)]
  rowOf _ := 0
  rows    := 1

theorem prune_prunesPage_insertedRowPage : ∃ plan nd s, ∃ page' : TablePage,
    insertedRowPage.Prunes 0 plan nd s ∧ page'.toPage = (insertedRowPage.pruned 0 plan).toPage ∧
    insertingTable.PrunesPage 0 ⟨insertedRowPage.toPage, insertedRowPage.few⟩ page' :=
  insertedRowPage.prune_prunesPage 0 rfl fun p hp _ => by
    obtain rfl := List.mem_singleton.mp hp
    exact ⟨by decide, ⟨8160, .normal, 32⟩, rfl, rfl, by decide⟩

end PrunablePage
