import PgTde.Vacuum.Asserts
import PgTde.Vacuum.Theorems.Table

namespace LVRelState

variable {v v' : LVRelState} {blkno : Nat} {offsets : List Nat} {few : LVRelState → Bool} {trigger : Bool}

-- What is so about the counters and flags before the last round.
structure Steady (v : LVRelState) : Prop where
  cleanup  : v.doIndexCleanup = v.doIndexVacuuming
  failsafe : v.failsafeActive → ¬v.doIndexVacuuming
  bypass   : v.considerBypassOptimization → v.numIndexScans = 0
  counted  : 0 < v.nindexes → v.doIndexVacuuming → v.numIndexScans = 0 → v.Counted

-- What is so about the array of LP_DEAD items.
structure Stored (v : LVRelState) : Prop where
  room   : maxHeapTuplesPerPage ≤ v.maxItems
  fits   : v.deadItems.length ≤ v.maxItems
  sorted : v.deadItems.Pairwise (· < ·)
  pages  : v.deadItems ≠ [] → 0 < v.lpdeadItemPages

theorem deadItems_save : (v.saveDeadItems blkno offsets).deadItems = v.deadItems ++ offsets.map (⟨blkno, ·⟩) := by
  rw [saveDeadItems]
  split
  case isTrue h => simp [h]
  case isFalse  => rfl

-- The LP_DEAD items of a page change nothing but the array and its counters.
theorem save_same : (v.saveDeadItems blkno offsets) = { v with
    lpdeadItemPages := (v.saveDeadItems blkno offsets).lpdeadItemPages
    deadItems       := (v.saveDeadItems blkno offsets).deadItems
    lpdeadItems     := (v.saveDeadItems blkno offsets).lpdeadItems } := by
  rw [saveDeadItems]
  split <;> rfl

theorem remember_same {hastup : Bool} : v.rememberTuples blkno hastup =
    { v with nonemptyPages := (v.rememberTuples blkno hastup).nonemptyPages } := by
  rw [rememberTuples]
  split <;> rfl

theorem nindexes_lazyScanPrune {page : Page} : (v.lazyScanPrune blkno page).nindexes = v.nindexes := by
  rw [lazyScanPrune, remember_same, save_same]

-- Where no items have been left by other pages, they are those of the page.
theorem mem_deadItems_lazyScanPrune {page : Page} {tid : ItemPointer} (h : v.deadItems = [])
    (ht : tid ∈ (v.lazyScanPrune blkno page).deadItems) : tid.blkno = blkno ∧ page.lineUse tid.offnum = .dead := by
  rw [lazyScanPrune, remember_same, deadItems_save, h, List.nil_append, List.mem_map] at ht
  obtain ⟨n, hn, rfl⟩ := ht
  exact ⟨rfl, Page.mem_deadOffsets.mp hn⟩

-- The items of a block, and those of other blocks.
theorem blockCount_freed {freed rest : List ItemPointer} (hne : freed ≠ []) (hf : ∀ tid ∈ freed, tid.blkno = blkno)
    (hr : ∀ tid ∈ rest, tid.blkno ≠ blkno) : blockCount (freed ++ rest) = blockCount rest + 1 := by
  have hmem : blkno ∉ (rest.map (·.blkno)).toFinset := by
    rw [List.mem_toFinset, List.mem_map]
    rintro ⟨tid, ht, he⟩
    exact hr tid ht he
  have hins : ((freed ++ rest).map (·.blkno)).toFinset = insert blkno (rest.map (·.blkno)).toFinset := by
    ext b
    simp only [List.map_append, List.mem_toFinset, List.mem_append, List.mem_map, Finset.mem_insert]
    obtain ⟨tid, freed, rfl⟩ := List.exists_cons_of_ne_nil hne
    constructor
    case mp  =>
      rintro (⟨tid', ht, rfl⟩ | h)
      · exact .inl (hf tid' ht)
      · exact .inr h
    case mpr =>
      rintro (rfl | h)
      · exact .inl ⟨tid, List.mem_cons_self, hf tid List.mem_cons_self⟩
      · exact .inr h
  rw [blockCount, blockCount, hins, Finset.card_insert_of_notMem hmem]

theorem blockCount_append {items : List ItemPointer} (hne : offsets ≠ []) (hb : ∀ tid ∈ items, tid.blkno < blkno) :
    blockCount (items ++ offsets.map (⟨blkno, ·⟩)) = blockCount items + 1 := by
  have hcomm : blockCount (items ++ offsets.map (⟨blkno, ·⟩)) = blockCount (offsets.map (⟨blkno, ·⟩) ++ items) := by
    simp only [blockCount, List.map_append, List.toFinset_append, Finset.union_comm]
  rw [hcomm]
  refine blockCount_freed (by simpa using hne) (fun tid ht => ?_) fun tid ht => Nat.ne_of_lt (hb tid ht)
  obtain ⟨o, -, rfl⟩ := List.mem_map.mp ht
  rfl

theorem Stored.empty (hr : maxHeapTuplesPerPage ≤ v.maxItems) (he : v.deadItems = []) : v.Stored where
  room      := hr
  fits      := by simp [he]
  sorted    := by simp [he]
  pages hne := absurd he hne

-- There are items when there may not be space enough for those of another page.
theorem Stored.nonempty (hs : v.Stored) (h : v.IsShort) : v.deadItems ≠ [] := by
  intro he
  have hroom := hs.room
  rw [IsShort, he, List.length_nil] at h
  omega

-- The LP_DEAD items of a page are stored behind those of the pages before it.
theorem Stored.save (h : v.Stored) (hs : ¬v.IsShort) (hl : offsets.length ≤ maxHeapTuplesPerPage)
    (ho : offsets.Pairwise (· < ·)) (hb : ∀ tid ∈ v.deadItems, tid.blkno < blkno) :
    (v.saveDeadItems blkno offsets).Stored := by
  rw [IsShort, Nat.not_lt] at hs
  have hfits := h.fits
  constructor
  case room   => rw [save_same]; exact h.room
  case fits   =>
    rw [deadItems_save, save_same, List.length_append, List.length_map]
    exact (by omega : v.deadItems.length + offsets.length ≤ v.maxItems)
  case sorted =>
    rw [deadItems_save, List.pairwise_append]
    refine ⟨h.sorted, ?_, fun tid ht tid' ht' => ?_⟩
    · refine List.pairwise_map.mpr (List.Pairwise.imp (fun {a b} hlt => ?_) ho)
      exact ItemPointer.lt_iff.mpr (.inr ⟨rfl, hlt⟩)
    · obtain ⟨o, -, rfl⟩ := List.mem_map.mp ht'
      exact ItemPointer.lt_iff.mpr (.inl (hb tid ht))
  case pages  =>
    intro hne
    rw [saveDeadItems] at hne ⊢
    split
    case isTrue ho  =>
      rw [if_pos ho] at hne
      exact h.pages hne
    case isFalse ho => exact Nat.succ_pos _

theorem Steady.save (h : v.Steady) (hb : ∀ tid ∈ v.deadItems, tid.blkno < blkno) :
    (v.saveDeadItems blkno offsets).Steady := by
  constructor
  case cleanup  => rw [save_same]; exact h.cleanup
  case failsafe => rw [save_same]; exact h.failsafe
  case bypass   => rw [save_same]; exact h.bypass
  case counted  =>
    rw [saveDeadItems]
    split
    case isTrue ho  => exact h.counted
    case isFalse ho =>
      intro hn hv hs
      obtain ⟨hi, hp⟩ := h.counted hn hv hs
      refine ⟨?_, ?_⟩
      · simp [hi]
      · simp only [blockCount_append ho hb, hp]

end LVRelState

namespace VacuumEnv

-- What is so while the heap is being scanned. Steadiness is over once the last round has been.
structure Scanning (t : TableState) (v : LVRelState) (blkno : Nat) : Prop where
  le      : blkno ≤ v.relPages
  pages   : v.relPages ≤ t.pages.length
  dead    : ∀ tid ∈ v.deadItems, tid.blkno < blkno ∧ t.use tid = .dead
  onePass : v.nindexes = 0 → v.deadItems = []
  steady  : v.deadItems ≠ [] ∨ blkno < v.relPages → v.Steady

-- What is so during a round.
structure Round (t : TableState) (v : LVRelState) (next : Nat) : Prop where
  le       : next ≤ v.relPages
  pages    : v.relPages ≤ t.pages.length
  indexes  : 0 < v.nindexes
  nonempty : v.deadItems ≠ []
  before   : ∀ tid ∈ v.deadItems, tid.blkno < next
  decided  : v.doIndexVacuuming ∧ v.doIndexCleanup
  failsafe : ¬v.failsafeActive
  bypass   : next < v.relPages → ¬v.considerBypassOptimization

structure IndexRound (t : TableState) (v : LVRelState) (done : List Nat) (next : Nat) : Prop
    extends Round t v next where
  dead    : ∀ tid ∈ v.deadItems, t.use tid = .dead
  cleared : ∀ i ∈ done, t.Unreferenced i v.deadItems
  counted : v.numIndexScans = 0 → v.Counted

structure HeapRound (t : TableState) (v : LVRelState) (rest : List ItemPointer) (vacuumedPages next : Nat) : Prop
    extends Round t v next where
  suffix  : rest <:+ v.deadItems
  dead    : ∀ tid ∈ rest, t.use tid = .dead
  cleared : ∀ i, t.Unreferenced i rest
  scans   : 0 < v.numIndexScans
  counted : v.numIndexScans = 1 → v.Counted
  blocks  : vacuumedPages + blockCount rest = blockCount v.deadItems

def During (t : TableState) (v : LVRelState) : VacuumPhase → Prop
  | .scanHeap blkno                     => Scanning t v blkno
  | .vacuumIndexes done next            => IndexRound t v done next
  | .vacuumHeap rest vacuumedPages next => HeapRound t v rest vacuumedPages next
  | .truncateHeap                       => v.deadItems = [] ∧ v.relPages ≤ t.pages.length

-- What is so of a VACUUM that is running.
structure Runs (t : TableState) (v : LVRelState) (phase : VacuumPhase) : Prop where
  indexes : v.nindexes = t.indexes.length
  stored  : v.Stored
  during  : During t v phase

variable {env : VacuumEnv} {t t' : TableState} {v v' : LVRelState} {phase : VacuumPhase} {blkno next : Nat}
variable {done : List Nat} {rest : List ItemPointer} {vacuumedPages : Nat}

theorem Round.evolves (h : Round t v next) (he : t.Evolves t') : Round t' v next :=
  { h with pages := Nat.le_trans h.pages he.pages }

-- Other backends do not get in the way of a VACUUM.
theorem Runs.evolves (h : Runs t v phase) (he : t.Evolves t') : Runs t' v phase := by
  refine ⟨h.indexes.trans he.indexes.symm, h.stored, ?_⟩
  have hd := h.during
  cases phase
  case scanHeap blkno                     =>
    exact { hd with
      pages := Nat.le_trans hd.pages he.pages
      dead  := fun tid ht => ⟨(hd.dead tid ht).left, he.dead tid (hd.dead tid ht).right⟩ }
  case vacuumIndexes done next            =>
    exact { hd.toRound.evolves he, hd with
      dead    := fun tid ht => he.dead tid (hd.dead tid ht)
      cleared := fun i hi => he.entries i _ hd.dead (hd.cleared i hi) }
  case vacuumHeap rest vacuumedPages next =>
    exact { hd.toRound.evolves he, hd with
      dead    := fun tid ht => he.dead tid (hd.dead tid ht)
      cleared := fun i => he.entries i _ hd.dead (hd.cleared i) }
  case truncateHeap                       => exact ⟨hd.left, Nat.le_trans hd.right he.pages⟩

-- The scan goes on after a round, or instead of one. The items have been forgotten.
theorem scanning_forgotten (hle : next ≤ v.relPages) (hp : v.relPages ≤ t.pages.length) (he : v.deadItems = [])
    (hs : next < v.relPages → v.Steady) : Scanning t v next where
  le             := hle
  pages          := hp
  dead           := by simp [he]
  onePass _      := he
  steady h       := hs (h.resolve_left fun hne => hne he)

-- The decision of `lazy_vacuum`.
theorem Runs.lazyVacuum {few : LVRelState → Bool} {trigger : Bool} (h : Runs t v (.scanHeap blkno))
    (hne : v.deadItems ≠ []) (hb : blkno < v.relPages → ¬v.considerBypassOptimization) (hst : v.Steady) :
    Runs t (v.lazyVacuum few trigger blkno).1 (v.lazyVacuum few trigger blkno).2 := by
  obtain ⟨hi, hs, (hd : Scanning t v blkno)⟩ := h
  have hforget {v' : LVRelState} (hr : v'.relPages = v.relPages) (he : v'.deadItems = [])
      (hs' : blkno < v.relPages → v'.Steady) : Scanning t v' blkno :=
    scanning_forgotten (hr ▸ hd.le) (hr ▸ hd.pages) he (hr ▸ hs')
  rw [LVRelState.lazyVacuum]
  split
  case isTrue hv  =>
    refine ⟨hi, .empty hs.room rfl, hforget rfl rfl fun hlt => ⟨hst.cleanup, hst.failsafe, hst.bypass, ?_⟩⟩
    exact fun _ hv' => absurd hv' hv
  case isFalse hv =>
    rw [not_not] at hv
    split
    case isTrue hbyp  =>
      refine ⟨hi, .empty hs.room rfl, hforget rfl rfl fun hlt => absurd hbyp.left (hb hlt)⟩
    case isFalse hbyp =>
      have hf : ¬v.failsafeActive := fun hf => hst.failsafe hf hv
      rw [LVRelState.lazyCheckWraparoundFailsafe, if_neg hf]
      cases trigger
      case true  =>
        refine ⟨hi, .empty hs.room rfl, hforget rfl rfl fun hlt => ⟨rfl, fun _ => Bool.false_ne_true, hst.bypass, ?_⟩⟩
        exact fun _ hv' => absurd hv' Bool.false_ne_true
      case false =>
        have hpos : 0 < v.nindexes := Nat.pos_of_ne_zero fun h0 => hne (hd.onePass h0)
        exact ⟨hi, hs, ⟨hd.le, hd.pages, hpos, hne, fun tid ht => (hd.dead tid ht).left,
          ⟨hv, hst.cleanup ▸ hv⟩, hf, hb⟩, fun tid ht => (hd.dead tid ht).right, List.forall_mem_nil _,
          hst.counted hpos hv⟩

-- The LP_DEAD items of a page are collected, unless there are no indexes.
theorem Runs.collect {page : TablePage} {hastup : Bool} (h : Runs t v (.scanHeap blkno)) (hlt : blkno < v.relPages)
    (hs : ¬v.IsShort) (hpage : t.pages[blkno]? = some page) (h0 : v.nindexes = 0 → page.deadOffsets = []) :
    Runs t ((v.saveDeadItems blkno page.deadOffsets).rememberTuples blkno hastup) (.scanHeap (blkno + 1)) := by
  obtain ⟨hi, hst, (hd : Scanning t v blkno)⟩ := h
  have hbefore : ∀ tid ∈ v.deadItems, tid.blkno < blkno := fun tid ht => (hd.dead tid ht).left
  have hstored := hst.save hs (page.length_deadOffsets.trans page.few) page.pairwise_deadOffsets hbefore
  have hsteady : (v.saveDeadItems blkno page.deadOffsets).Steady := (hd.steady (.inr hlt)).save hbefore
  rw [LVRelState.remember_same]
  refine ⟨?_, ⟨hstored.room, hstored.fits, hstored.sorted, hstored.pages⟩, ?_⟩
  · rw [LVRelState.save_same]
    exact hi
  · constructor
    case le      => rw [LVRelState.save_same]; exact hlt
    case pages   => rw [LVRelState.save_same]; exact hd.pages
    case steady  => exact fun _ => ⟨hsteady.cleanup, hsteady.failsafe, hsteady.bypass, hsteady.counted⟩
    case onePass =>
      rw [LVRelState.save_same]
      intro hn
      simp only [LVRelState.deadItems_save, hd.onePass hn, h0 hn, List.map_nil, List.append_nil]
    case dead    =>
      simp only [LVRelState.deadItems_save, List.mem_append, List.mem_map]
      rintro tid (ht | ⟨n, hn, rfl⟩)
      · exact ⟨Nat.lt_succ_of_lt (hbefore tid ht), (hd.dead tid ht).right⟩
      · refine ⟨Nat.lt_succ_self _, ?_⟩
        exact (TableState.use_mk hpage).trans (Page.mem_deadOffsets.mp hn)

end VacuumEnv
