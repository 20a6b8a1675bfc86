import PgTde.Vacuum.Theorems.Run

namespace TableState

variable {t : TableState} {tid : ItemPointer} {blkno n : Nat} {page page' : TablePage}
variable {items freed rest : List ItemPointer}

-- The use of the line pointers once some of a page have been freed.
theorem use_freed (h : t.pages[blkno]? = some page) (hb : ∀ tid ∈ freed, tid.blkno = blkno)
    (hl : ∀ n, page'.lineUse n = if ⟨blkno, n⟩ ∈ freed then .unused else page.lineUse n) :
    (t.setPage blkno page').use tid = if tid ∈ freed then .unused else t.use tid := by
  rw [use_setPage h]
  by_cases ht : tid.blkno = blkno
  case pos =>
    subst ht
    rw [if_pos rfl, hl, use_page h]
  case neg => rw [if_neg ht, if_neg fun hm => ht (hb tid hm)]

-- Dead line pointers that no index refers to can be freed.
theorem Consistent.free (hc : t.Consistent) (h : t.pages[blkno]? = some page) (hb : ∀ tid ∈ freed, tid.blkno = blkno)
    (hl : ∀ n, page'.lineUse n = if ⟨blkno, n⟩ ∈ freed then .unused else page.lineUse n)
    (hd : ∀ tid ∈ freed, t.use tid = .dead) (hu : ∀ i, t.Unreferenced i freed) :
    (t.setPage blkno page').Consistent := by
  have hkept {tid : ItemPointer} (hn : tid ∉ freed) : (t.setPage blkno page').use tid = t.use tid := by
    rw [use_freed h hb hl, if_neg hn]
  constructor
  case entries =>
    intro es hes e he
    obtain ⟨i, hi⟩ := List.getElem?_of_mem hes
    have hp := hc.entries es hes e he
    exact ⟨hkept (hu i es hi e he) ▸ hp.use, hp.row⟩
  case pending =>
    intro p hp
    obtain ⟨hroot, hrow⟩ := hc.pending p hp
    have hn : p.2.tid ∉ freed := fun hm => by cases hroot.symm.trans (hd _ hm)
    exact ⟨(hkept hn).trans hroot, hrow⟩

-- The line pointers of pages without any that are in use can be truncated away.
theorem use_take (h : ∀ (b : Nat) (page : TablePage), n ≤ b → t.pages[b]? = some page → ∀ m, page.lineUse m = .unused) :
    { t with pages := t.pages.take n }.use tid = t.use tid := by
  rw [use, use, List.getElem?_take]
  by_cases hb : tid.blkno < n
  case pos => rw [if_pos hb]
  case neg =>
    rw [if_neg hb]
    cases hp : t.pages[tid.blkno]?
    case none      => rfl
    case some page => exact (h _ page (Nat.le_of_not_lt hb) hp tid.offnum).symm

theorem unreferenced_of_subset {i : Nat} (h : t.Unreferenced i items) (hs : rest ⊆ items) : t.Unreferenced i rest :=
  fun es hes e he hm => h es hes e he (hs hm)

theorem unreferenced_of_length {i : Nat} (h : t.indexes.length ≤ i) : t.Unreferenced i items := by
  intro es hes
  rw [List.getElem?_eq_none h] at hes
  cases hes

end TableState

-- The pages that `count_nondeletable_pages` counts as deletable have no line pointers in use.
theorem LVRelState.countNondeletablePages_unused {v : LVRelState} {pages : List TablePage} {waiters : Nat → Bool}
    {start b : Nat} {page : TablePage} (hle : v.countNondeletablePages pages waiters start ≤ b) (hlt : b < start)
    (hp : pages[b]? = some page) : ∀ lp ∈ page.linp, ¬lp.isUsed := by
  induction start
  case zero           => cases hlt
  case succ blkno ih =>
    rw [countNondeletablePages] at hle
    split_ifs at hle
    case pos             => omega
    case pos             => omega
    case pos             => omega
    case neg hn hw hused =>
      obtain hlt | rfl := Nat.lt_or_eq_of_le (Nat.le_of_lt_succ hlt)
      · exact ih hle hlt
      · simpa [hp] using hused

namespace VacuumEnv

variable {env : VacuumEnv} {t : TableState} {v v' : LVRelState} {blkno next : Nat} {page page' page'' : TablePage}
variable {done : List Nat} {tid : ItemPointer} {rest rest' : List ItemPointer} {vacuumedPages : Nat}

theorem Runs.start {maxItems : Nat} {indexCleanup : IndexCleanup} {truncate : Bool}
    (hm : maxHeapTuplesPerPage ≤ maxItems) :
    Runs t (.init t.indexes.length t.pages.length maxItems indexCleanup truncate) (.scanHeap 0) := by
  refine ⟨rfl, .empty hm rfl, scanning_forgotten (Nat.zero_le _) (Nat.le_refl _) rfl fun _ => ?_⟩
  exact ⟨rfl, fun h => (Bool.false_ne_true h).elim, fun _ => rfl, fun _ _ _ => ⟨rfl, rfl⟩⟩

theorem Runs.failsafe (h : Runs t v (.scanHeap blkno)) :
    Runs t (v.lazyCheckWraparoundFailsafe true).2 (.scanHeap blkno) := by
  rw [LVRelState.lazyCheckWraparoundFailsafe]
  split
  case isTrue  => exact h
  case isFalse =>
    obtain ⟨hi, hs, (hd : Scanning t v blkno)⟩ := h
    refine ⟨hi, ⟨hs.room, hs.fits, hs.sorted, hs.pages⟩, hd.le, hd.pages, hd.dead, hd.onePass, fun h => ?_⟩
    exact ⟨rfl, fun _ => Bool.false_ne_true, (hd.steady h).bypass, fun _ hv => (Bool.false_ne_true hv).elim⟩

theorem Runs.skip (h : Runs t v (.scanHeap blkno)) (hlt : blkno + 1 < v.relPages) :
    Runs t v (.scanHeap (blkno + 1)) := by
  obtain ⟨hi, hs, (hd : Scanning t v blkno)⟩ := h
  refine ⟨hi, hs, hlt.le, hd.pages, fun tid ht => ?_, hd.onePass, fun _ => hd.steady (.inr (Nat.lt_of_succ_lt hlt))⟩
  exact ⟨Nat.lt_succ_of_lt (hd.dead tid ht).left, (hd.dead tid ht).right⟩

theorem Runs.pause {few : LVRelState → Bool} {trigger : Bool} (h : Runs t v (.scanHeap blkno))
    (hlt : blkno < v.relPages) (hs : v.IsShort) :
    Runs t ({ v with considerBypassOptimization := false }.lazyVacuum few trigger blkno).1
      ({ v with considerBypassOptimization := false }.lazyVacuum few trigger blkno).2 := by
  obtain ⟨hi, hst, (hd : Scanning t v blkno)⟩ := h
  obtain ⟨hc, hf, -, hn⟩ := hd.steady (.inr hlt)
  have hsteady : { v with considerBypassOptimization := false }.Steady :=
    ⟨hc, hf, fun h => (Bool.false_ne_true h).elim, hn⟩
  refine Runs.lazyVacuum ⟨hi, ⟨hst.room, hst.fits, hst.sorted, hst.pages⟩, ?_⟩ (hst.nonempty hs)
    (fun _ => Bool.false_ne_true) hsteady
  exact ⟨hd.le, hd.pages, hd.dead, hd.onePass, fun _ => hsteady⟩

theorem Runs.noprune (h : Runs t v (.scanHeap blkno)) (hlt : blkno < v.relPages) (hs : ¬v.IsShort)
    (hp : t.pages[blkno]? = some page) : Runs t (v.lazyScanNoprune blkno page.toPage) (.scanHeap (blkno + 1)) := by
  rw [LVRelState.lazyScanNoprune]
  split
  case isFalse hn => exact h.collect hlt hs hp fun h0 => absurd h0 hn
  case isTrue hn  =>
    -- The items are those of a page without any.
    obtain ⟨hi, hst, (hd : Scanning t v blkno)⟩ := h
    obtain ⟨hc, hf, hb, -⟩ := hd.steady (.inr hlt)
    rw [LVRelState.remember_same]
    refine ⟨hi, .empty hst.room (hd.onePass hn), scanning_forgotten hlt hd.pages (hd.onePass hn) fun _ => ?_⟩
    exact ⟨hc, hf, hb, fun hpos => absurd hn (Nat.ne_of_gt hpos)⟩

-- What a page is replaced by once it has been pruned.
theorem scanPruned_cases {r : Page} (h : env.scanPruned v blkno page.toPage = .ok (v', r)) :
    ((v.nindexes = 0 → page.deadOffsets = []) ∧ v' = v.lazyScanPrune blkno page.toPage ∧ r = page.toPage) ∨
    (v.nindexes = 0 ∧ v' = (v.lazyScanPrune blkno page.toPage).forgetDeadItems ∧ ∃ rest,
      Freed blkno (v.lazyScanPrune blkno page.toPage).deadItems page.toPage r rest) := by
  rw [scanPruned, LVRelState.nindexes_lazyScanPrune] at h
  split at h
  case isTrue hd  =>
    obtain ⟨⟨page₁, rest⟩, hf, he⟩ := Outcome.bind_eq_ok_iff.mp h
    cases he
    exact .inr ⟨hd.left, rfl, rest, lazyVacuumPgTdePage_freed hf⟩
  case isFalse hd =>
    cases h
    exact .inl ⟨fun h0 => not_not.mp fun hne => hd ⟨h0, hne⟩, rfl, rfl⟩

-- The table once a page has been pruned, and freed of LP_DEAD items if there are no indexes.
theorem Runs.prune (hc : t.Consistent) (h : Runs t v (.scanHeap blkno)) (hlt : blkno < v.relPages)
    (hs : ¬v.IsShort) (hp : t.PrunesPage blkno page page')
    (hr : env.scanPruned v blkno page'.toPage = .ok (v', page''.toPage)) :
    (t.setPage blkno page'').Consistent ∧ Runs (t.setPage blkno page'') v' (.scanHeap (blkno + 1)) := by
  have hstep := TableState.Step.prune hp
  have hc₁ := hstep.consistent hc
  have hruns := h.evolves (hstep.evolves hc)
  have hfound : (t.setPage blkno page').pages[blkno]? = some page' := by
    rw [TableState.setPage, List.getElem?_set_self (List.getElem?_eq_some_iff.mp hp.found).choose]
  obtain ⟨h0, rfl, he⟩ | ⟨h0, rfl, rest, ⟨freed, hsplit, hb, hl⟩, -⟩ := scanPruned_cases hr
  case inl =>
    have he : page'' = page' := by
      cases page'
      cases page''
      cases he
      rfl
    subst he
    exact ⟨hc₁, hruns.collect hlt hs hfound h0⟩
  case inr =>
    obtain ⟨hi, hst, (hd : Scanning (t.setPage blkno page') v blkno)⟩ := hruns
    have hlen : (t.setPage blkno page').indexes.length = 0 := hi.symm.trans h0
    have hset : (t.setPage blkno page').setPage blkno page'' = t.setPage blkno page'' := by
      rw [TableState.setPage, TableState.setPage, TableState.setPage, List.set_set]
    rw [← hset]
    constructor
    case left  =>
      refine hc₁.free hfound hb hl (fun tid ht => ?_) fun i => ?_
      · have hmem : tid ∈ (v.lazyScanPrune blkno page'.toPage).deadItems := hsplit ▸ List.mem_append_left _ ht
        obtain ⟨rfl, hdead⟩ := LVRelState.mem_deadItems_lazyScanPrune (hd.onePass h0) hmem
        exact (TableState.use_page hfound).trans hdead
      · exact TableState.unreferenced_of_length (hlen.trans_le (Nat.zero_le i))
    case right =>
      obtain ⟨hcl, hf, hby, -⟩ := hd.steady (.inr hlt)
      rw [LVRelState.lazyScanPrune, LVRelState.remember_same, LVRelState.save_same]
      refine ⟨hi, .empty hst.room rfl, scanning_forgotten hlt ?_ rfl fun _ => ?_⟩
      · exact hd.pages.trans_eq TableState.length_setPage.symm
      · exact ⟨hcl, hf, hby, fun hpos => absurd h0 (Nat.ne_of_gt hpos)⟩

-- An index is vacuumed like entries are killed.
theorem step_index {i : Nat} {es : List IndexTuple} (hes : t.indexes[i]? = some es) : TableState.Step t
    { t with indexes := t.indexes.set i (es.filter fun e => !env.vacTidReaped v.deadItems e.tid) } :=
  .killEntries hes (List.filter_subset_self _)

theorem Runs.index {i : Nat} {es : List IndexTuple} (hc : t.Consistent) (h : Runs t v (.vacuumIndexes done next))
    (hes : t.indexes[i]? = some es) :
    Runs { t with indexes := t.indexes.set i (es.filter fun e => !env.vacTidReaped v.deadItems e.tid) } v
      (.vacuumIndexes (i :: done) next) := by
  obtain ⟨hi, hst, hd⟩ := h.evolves ((step_index hes).evolves hc)
  refine ⟨hi, hst, hd.toRound, hd.dead, List.forall_mem_cons.mpr ⟨?_, hd.cleared⟩, hd.counted⟩
  intro es' hes' e he hm
  rw [List.getElem?_set_self (List.getElem?_eq_some_iff.mp hes).choose] at hes'
  obtain rfl := Option.some.inj hes'
  have hr := (env.reaped v.deadItems e.tid hst.sorted).mpr hm
  simp [hr] at he

theorem Runs.indexFailsafe (h : Runs t v (.vacuumIndexes done next)) :
    Runs t { (v.lazyCheckWraparoundFailsafe true).2.forgetDeadItems with numIndexScans := v.numIndexScans + 1 }
      (.scanHeap next) := by
  obtain ⟨hi, hst, (hd : IndexRound t v done next)⟩ := h
  rw [LVRelState.lazyCheckWraparoundFailsafe, if_neg hd.failsafe]
  refine ⟨hi, .empty hst.room rfl, scanning_forgotten hd.le hd.pages rfl fun hlt => ?_⟩
  exact ⟨rfl, fun _ => Bool.false_ne_true, fun hb => absurd hb (hd.bypass hlt), fun _ hv => (Bool.false_ne_true hv).elim⟩

theorem Runs.indexesDone (h : Runs t v (.vacuumIndexes done next)) (hdone : ∀ i < v.nindexes, i ∈ done) :
    Runs t { v with numIndexScans := v.numIndexScans + 1 } (.vacuumHeap v.deadItems 0 next) := by
  obtain ⟨hi, hst, (hd : IndexRound t v done next)⟩ := h
  refine ⟨hi, ⟨hst.room, hst.fits, hst.sorted, hst.pages⟩,
    ⟨hd.le, hd.pages, hd.indexes, hd.nonempty, hd.before, hd.decided, hd.failsafe, hd.bypass⟩,
    List.suffix_refl _, hd.dead, fun i => ?_, Nat.succ_pos _, fun hs => hd.counted (Nat.succ.inj hs), Nat.zero_add _⟩
  obtain hlt | hge := Nat.lt_or_ge i t.indexes.length
  · exact hd.cleared i (hdone i (hi ▸ hlt))
  · exact TableState.unreferenced_of_length hge

-- The items behind those of a page are those of other pages.
theorem Freed.blocks {b : Nat} {items : List ItemPointer} {p p' : Page} (h : Freed b items p p' rest)
    (hs : items.Pairwise (· < ·)) (hb : ∀ tid ∈ items.head?, tid.blkno = b) : ∀ tid ∈ rest, tid.blkno ≠ b := by
  obtain ⟨⟨freed, rfl, hfb, -⟩, ho⟩ := h
  cases rest
  case nil             => exact List.forall_mem_nil _
  case cons tid₁ rest  =>
    cases freed
    case nil             => exact absurd (hb tid₁ rfl) (ho tid₁ rfl)
    case cons tid₀ freed =>
      have hle {tid tid' : ItemPointer} (hlt : tid < tid') : tid.blkno ≤ tid'.blkno := by
        obtain hlt | ⟨heq, -⟩ := ItemPointer.lt_iff.mp hlt
        · exact hlt.le
        · exact heq.le
      have h₁ : tid₀.blkno ≤ tid₁.blkno :=
        hle ((List.pairwise_append.mp hs).right.right tid₀ List.mem_cons_self tid₁ List.mem_cons_self)
      have h₁b : tid₁.blkno ≠ b := ho tid₁ rfl
      have h₀b : tid₀.blkno = b := hfb tid₀ List.mem_cons_self
      intro tid ht
      obtain rfl | ht := List.mem_cons.mp ht
      · exact h₁b
      · have h₂ := hle ((List.pairwise_cons.mp (List.pairwise_append.mp hs).right.left).left tid ht)
        omega

-- What freeing the LP_DEAD items of the next page comes to.
theorem Runs.heapPage (hc : t.Consistent) (h : Runs t v (.vacuumHeap (tid :: rest) vacuumedPages next))
    (hp : t.pages[tid.blkno]? = some page)
    (hr : env.lazyVacuumPgTdePage tid.blkno (tid :: rest) page.toPage = .ok (page'.toPage, rest')) :
    (t.setPage tid.blkno page').Consistent ∧
      Runs (t.setPage tid.blkno page') v (.vacuumHeap rest' (vacuumedPages + 1) next) := by
  obtain ⟨hi, hst, (hd : HeapRound t v (tid :: rest) vacuumedPages next)⟩ := h
  have hfreed := lazyVacuumPgTdePage_freed hr
  have hblocks := hfreed.blocks (hst.sorted.sublist hd.suffix.sublist) (by simp)
  obtain ⟨⟨freed, hsplit, hfb, hl⟩, ho⟩ := hfreed
  have hne : freed ≠ [] := by
    rintro rfl
    rw [List.nil_append] at hsplit
    exact hblocks tid (hsplit ▸ List.mem_cons_self) rfl
  have hfsub : freed ⊆ tid :: rest := hsplit ▸ List.subset_append_left _ _
  have hrsuf : rest' <:+ tid :: rest := hsplit ▸ List.suffix_append _ _
  have hbc := LVRelState.blockCount_freed hne hfb hblocks
  rw [← hsplit] at hbc
  refine ⟨hc.free hp hfb hl (fun tid' ht => hd.dead tid' (hfsub ht))
    (fun i => TableState.unreferenced_of_subset (hd.cleared i) hfsub), hi, hst,
    { hd.toRound with pages := hd.pages.trans_eq TableState.length_setPage.symm },
    hrsuf.trans hd.suffix, fun tid' ht => ?_,
    fun i => TableState.unreferenced_of_subset (hd.cleared i) hrsuf.subset, hd.scans, hd.counted, ?_⟩
  · rw [TableState.use_freed hp hfb hl, if_neg fun hm => hblocks tid' ht (hfb tid' hm)]
    exact hd.dead tid' (hrsuf.subset ht)
  · have hblk := hd.blocks
    omega

theorem Runs.heapDone (h : Runs t v (.vacuumHeap [] vacuumedPages next)) :
    Runs t v.forgetDeadItems (.scanHeap next) := by
  obtain ⟨hi, hst, (hd : HeapRound t v [] vacuumedPages next)⟩ := h
  obtain ⟨hv, hcl⟩ := hd.decided
  refine ⟨hi, .empty hst.room rfl, scanning_forgotten hd.le hd.pages rfl fun hlt => ?_⟩
  exact ⟨hcl.trans hv.symm, fun hf => absurd hf hd.failsafe, fun hb => absurd hb (hd.bypass hlt),
    fun _ _ hz => absurd hz (Nat.ne_of_gt hd.scans)⟩

theorem Runs.scanned (h : Runs t v (.scanHeap v.relPages)) (he : v.deadItems = []) : Runs t v .truncateHeap := by
  obtain ⟨hi, hst, (hd : Scanning t v v.relPages)⟩ := h
  exact ⟨hi, hst, he, hd.pages⟩

theorem Runs.lastRound {few : LVRelState → Bool} {trigger : Bool} (h : Runs t v (.scanHeap v.relPages))
    (hne : v.deadItems ≠ []) :
    Runs t (v.lazyVacuum few trigger v.relPages).1 (v.lazyVacuum few trigger v.relPages).2 := by
  have hd : Scanning t v v.relPages := h.during
  exact h.lazyVacuum hne (fun hlt => absurd hlt (Nat.lt_irrefl _)) (hd.steady (.inl hne))

theorem Runs.truncate {waiters : Nat → Bool} {n : Nat} (hc : t.Consistent) (h : Runs t v .truncateHeap)
    (hp : t.pending = []) (hl : t.pages.length = v.relPages)
    (hn : v.countNondeletablePages t.pages waiters v.relPages = n) (hlt : n < v.relPages) :
    { t with pages := t.pages.take n }.Consistent ∧
      Runs { t with pages := t.pages.take n } { v with relPages := n } .truncateHeap := by
  obtain ⟨hi, hst, (hd : v.deadItems = [] ∧ v.relPages ≤ t.pages.length)⟩ := h
  have huse (tid : ItemPointer) : { t with pages := t.pages.take n }.use tid = t.use tid := by
    refine TableState.use_take fun b page hb hpage m => Page.lineUse_of_not_used ?_
    have hb' : b < v.relPages := hl ▸ (List.getElem?_eq_some_iff.mp hpage).choose
    exact LVRelState.countNondeletablePages_unused (hn.trans_le hb) hb' hpage
  refine ⟨hc.retained (TableState.retains_of_use huse rfl) rfl fun p hmem => ?_, hi, .empty hst.room hd.left, hd.left, ?_⟩
  · rw [hp] at hmem
    cases hmem
  · rw [List.length_take]
    exact Nat.le_min.mpr ⟨Nat.le_refl n, hl ▸ hlt.le⟩

end VacuumEnv
