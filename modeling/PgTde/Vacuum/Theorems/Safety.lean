import Mathlib.Data.List.DropRight
import PgTde.Vacuum.Theorems.Steps

namespace VacuumEnv

variable {env : VacuumEnv} {s s' : VacuumState} {t : TableState} {v : LVRelState} {phase : VacuumPhase}
variable {blkno next vacuumedPages : Nat} {done : List Nat} {rest : List ItemPointer}

structure Safe (s : VacuumState) : Prop where
  table  : s.table.Consistent
  vacuum : ∀ v phase, s.vacuum = some (v, phase) → Runs s.table v phase

theorem Safe.running (h : t.Consistent ∧ Runs t v phase) : Safe ⟨t, some (v, phase)⟩ where
  table           := h.left
  vacuum v' ph' e := by
    cases e
    exact h.right

theorem Safe.runs (h : Safe ⟨t, some (v, phase)⟩) : Runs t v phase :=
  h.vacuum v phase rfl

theorem Safe.step (h : Safe s) (hs : env.Step s s') : Safe s' := by
  have ht := h.table
  cases hs
  case start hm              => exact .running ⟨ht, .start hm⟩
  case stop                  => exact ⟨ht, fun _ _ h => by cases h⟩
  case failsafe              => exact .running ⟨ht, h.runs.failsafe⟩
  case skip hlt              => exact .running ⟨ht, h.runs.skip hlt⟩
  case pause hlt hs          => exact .running ⟨ht, h.runs.pause hlt hs⟩
  case noprune hlt hs hp     => exact .running ⟨ht, h.runs.noprune hlt hs hp⟩
  case prune hlt hs hp hr    => exact .running (h.runs.prune ht hlt hs hp hr)
  case scanned he            => exact .running ⟨ht, h.runs.scanned he⟩
  case lastRound hne         => exact .running ⟨ht, h.runs.lastRound hne⟩
  case index hes             => exact .running ⟨(step_index hes).consistent ht, h.runs.index ht hes⟩
  case indexFailsafe         => exact .running ⟨ht, h.runs.indexFailsafe⟩
  case indexesDone hdone     => exact .running ⟨ht, h.runs.indexesDone hdone⟩
  case heapPage hp hr        => exact .running (h.runs.heapPage ht hp hr)
  case heapDone              => exact .running ⟨ht, h.runs.heapDone⟩
  case truncate hp hl hn hlt => exact .running (h.runs.truncate ht hp hl hn hlt)

-- Other backends and VACUUM get on with each other.
theorem safe_invariant : env.system.Invariant Safe where
  initial s h := by
    obtain ⟨-, hi, hp, hv⟩ := h
    refine ⟨⟨fun es hes e he => ?_, fun p hm => ?_⟩, fun v phase h => ?_⟩
    · rw [hi es hes] at he
      cases he
    · rw [hp] at hm
      cases hm
    · cases hv.symm.trans h
  step s a s' h hs := by
    cases a
    case vacuum  => exact h.step hs
    case backend =>
      obtain ⟨hs, hv⟩ := hs
      refine ⟨TableState.Step.consistent h.table hs, fun v phase he => ?_⟩
      exact (h.vacuum v phase (hv.symm.trans he)).evolves (TableState.Step.evolves h.table hs)

section Asserts

-- The LP_DEAD items of a page fit into an array for its line pointers.
theorem length_takeWhile_le {tid : ItemPointer} {rest : List ItemPointer} {page : TablePage}
    (hs : (tid :: rest).Pairwise (· < ·)) (hp : t.pages[tid.blkno]? = some page)
    (hd : ∀ tid' ∈ tid :: rest, t.use tid' = .dead) :
    ((tid :: rest).takeWhile (·.blkno = tid.blkno)).length ≤ maxHeapTuplesPerPage := by
  have hpre : (tid :: rest).takeWhile (·.blkno = tid.blkno) <+: tid :: rest := List.takeWhile_prefix _
  have hblk : ∀ tid' ∈ (tid :: rest).takeWhile (·.blkno = tid.blkno), tid'.blkno = tid.blkno := by
    intro tid' ht
    simpa using List.mem_takeWhile_imp ht
  have hnodup : (((tid :: rest).takeWhile (·.blkno = tid.blkno)).map (·.offnum)).Nodup := by
    refine List.Nodup.map_on (fun a ha b hb he => ?_) ((hs.sublist hpre.sublist).imp fun hlt => ne_of_lt hlt)
    have hblk' := (hblk a ha).trans (hblk b hb).symm
    cases a
    cases b
    cases hblk'
    cases he
    rfl
  have hsub : ((tid :: rest).takeWhile (·.blkno = tid.blkno)).map (·.offnum) ⊆ page.deadOffsets := by
    intro n hn
    obtain ⟨tid', ht, rfl⟩ := List.mem_map.mp hn
    have hp' : t.pages[tid'.blkno]? = some page := (hblk tid' ht).symm ▸ hp
    rw [Page.mem_deadOffsets, ← TableState.use_page hp']
    exact hd tid' (hpre.subset ht)
  have hlen := (List.subperm_of_subset hnodup hsub).length_le
  rw [List.length_map] at hlen
  exact hlen.trans (Page.length_deadOffsets.trans page.few)

theorem scanPruned_ok (h0 : v.nindexes = 0 → v.deadItems = []) (page : TablePage) :
    ∃ (v' : LVRelState) (page' : TablePage), env.scanPruned v blkno page.toPage = .ok (v', page'.toPage) := by
  rw [scanPruned, LVRelState.nindexes_lazyScanPrune]
  split
  case isFalse    => exact ⟨_, page, rfl⟩
  case isTrue hd  =>
    have hdead : ∀ tid ∈ (v.lazyScanPrune blkno page.toPage).deadItems, tid.blkno = blkno →
        page.lineUse tid.offnum = .dead :=
      fun tid ht _ => (LVRelState.mem_deadItems_lazyScanPrune (h0 hd.left) ht).right
    obtain ⟨page', rest, hr⟩ := env.lazyVacuumPgTdePage_ok hdead
    exact ⟨_, page', by rw [hr]; rfl⟩

-- What `lazy_vacuum` asserts is so whenever there are items.
theorem Scanning.lazyVacuumAsserts (hd : Scanning t v blkno) (hst : v.Stored) (hsteady : v.Steady)
    (hne : v.deadItems ≠ []) : v.LazyVacuumAsserts := by
  have hpos : 0 < v.nindexes := Nat.pos_of_ne_zero fun h0 => hne (hd.onePass h0)
  refine ⟨hpos, hst.pages hne, fun hv => hsteady.cleanup ▸ hv, fun hv hb _ => ?_⟩
  exact ⟨hsteady.bypass hb, (hsteady.counted hpos hv (hsteady.bypass hb)).left, hsteady.cleanup ▸ hv⟩

theorem Scanning.asserts (hd : Scanning t v blkno) (hst : v.Stored) : env.Asserts t v (.scanHeap blkno) := by
  refine ⟨hst.room, hst.fits, fun hlt hs => ?_, fun hlt => ⟨?_, scanPruned_ok hd.onePass⟩, fun he hne => ?_⟩
  · have ha := hd.lazyVacuumAsserts hst (hd.steady (.inr hlt)) (hst.nonempty hs)
    exact ⟨ha.indexes, ha.pages, ha.cleanup, fun _ hb => (Bool.false_ne_true hb).elim⟩
  · exact ⟨_, List.getElem?_eq_getElem (Nat.lt_of_lt_of_le hlt hd.pages)⟩
  · exact hd.lazyVacuumAsserts hst (hd.steady (.inl hne)) hne

theorem IndexRound.asserts (hd : IndexRound t v done next) (hst : v.Stored) :
    env.Asserts t v (.vacuumIndexes done next) := by
  refine ⟨hd.indexes, hd.decided.left, hd.decided.right, ?_, hst.sorted⟩
  obtain h0 | hpos := Nat.eq_zero_or_pos v.numIndexScans
  · exact .inr (hd.counted h0).left.symm
  · exact .inl hpos

theorem HeapRound.asserts (hd : HeapRound t v rest vacuumedPages next) (hst : v.Stored) :
    env.Asserts t v (.vacuumHeap rest vacuumedPages next) := by
  cases rest
  case nil           =>
    refine ⟨List.length_pos_iff.mpr hd.nonempty, ?_⟩
    obtain h1 | hgt := Nat.eq_or_lt_of_le hd.scans
    · obtain ⟨hl, hp⟩ := hd.counted h1.symm
      exact .inr ⟨hl.symm, hd.blocks.trans hp.symm⟩
    · exact .inl hgt
  case cons tid rest =>
    obtain ⟨page, hp⟩ := TableState.page_of_use (hd.dead tid List.mem_cons_self) (by decide)
    have hdead : ∀ tid' ∈ tid :: rest, tid'.blkno = tid.blkno → page.lineUse tid'.offnum = .dead := by
      intro tid' ht hb
      rw [← TableState.use_page (hb ▸ hp)]
      exact hd.dead tid' ht
    obtain ⟨page', rest', hr⟩ := env.lazyVacuumPgTdePage_ok hdead
    exact ⟨hd.decided.left, hd.decided.right, hd.scans, hd.dead,
      length_takeWhile_le (hst.sorted.sublist hd.suffix.sublist) hp hd.dead, page, page', rest', hp, hr⟩

theorem Runs.asserts (h : Runs t v phase) : env.Asserts t v phase := by
  obtain ⟨-, hst, hd⟩ := h
  cases phase
  case scanHeap blkno                     => exact Scanning.asserts hd hst
  case vacuumIndexes done next            => exact IndexRound.asserts hd hst
  case vacuumHeap rest vacuumedPages next => exact HeapRound.asserts hd hst
  case truncateHeap                       => trivial

end Asserts

-- The first line pointer is kept in any case.
def plainEnv : VacuumEnv where
  truncateLinePointerArray page :=
    { page with linp := page.linp.take 1 ++ (page.linp.drop 1).rdropWhile (!·.isUsed) }
  truncates page                := by
    refine ⟨rfl, (page.linp.drop 1).rtakeWhile (!·.isUsed), ?_, fun lp hl => ?_⟩
    · rw [List.append_assoc, List.rdropWhile_append_rtakeWhile, List.take_append_drop]
    · simpa using List.mem_rtakeWhile_imp hl
  vacTidReaped items tid        := tid ∈ items
  reaped _ _ _                  := decide_eq_true_iff
  few _                         := false

def emptyPage : TablePage where
  toPage := .init
  few    := by decide

-- A page with a tuple.
def rowPage : TablePage where
  toPage := { Page.init with pdUpper := 8160, linp := [⟨8160, .normal, 32⟩] }
  few    := by decide

-- The page once the tuple has been pruned.
def deadPage : TablePage where
  toPage := { Page.init with linp := [⟨0, .dead, 0⟩] }
  few    := by decide

theorem lineUse_rowPage (n : Nat) : rowPage.lineUse n = if n = 1 then .root else .unused := by
  match n with
  | 0     => rfl
  | 1     => decide
  | _ + 2 => rfl

theorem lineUse_deadPage (n : Nat) : deadPage.lineUse n = if n = 1 then .dead else .unused := by
  match n with
  | 0     => rfl
  | 1     => rfl
  | _ + 2 => rfl

theorem lineUse_emptyPage (n : Nat) : emptyPage.lineUse n = .unused := by
  match n with
  | 0     => rfl
  | _ + 1 => rfl

def noTable : TableState where
  pages   := []
  indexes := [[]]
  pending := []
  rowOf _ := 0
  rows    := 0

-- A table whose only row is dead, but still has an index entry.
def deadRow : TableState where
  pages   := [deadPage]
  indexes := [[⟨⟨0, 1⟩, 0⟩]]
  pending := []
  rowOf   := Function.update (fun _ => 0) ⟨0, 1⟩ 0
  rows    := 1

-- The LP_DEAD item of the page has been found.
def deadFound : LVRelState :=
  (LVRelState.init 1 1 maxHeapTuplesPerPage .auto true).lazyScanNoprune 0 deadPage.toPage

theorem reachable_backend {t' : TableState} {vacuum : Option (LVRelState × VacuumPhase)}
    (h : env.system.Reachable ⟨t, vacuum⟩) (hs : t.Step t') : env.system.Reachable ⟨t', vacuum⟩ :=
  h.step (a := .backend) ⟨hs, rfl⟩

theorem reachable_vacuum (h : env.system.Reachable s) (hs : env.Step s s') : env.system.Reachable s' :=
  h.step (a := .vacuum) hs

theorem reachable_deadRow : plainEnv.system.Reachable ⟨deadRow, none⟩ := by
  have h₀ : plainEnv.system.Reachable ⟨noTable, none⟩ :=
    .initial ⟨rfl, fun es hes => List.mem_singleton.mp hes, rfl, rfl⟩
  have h₁ := reachable_backend h₀ (.extend lineUse_emptyPage)
  have ht : emptyPage.TakesLine rowPage.toPage 1 .root := by
    refine ⟨lineUse_emptyPage 1, lineUse_rowPage 1, fun n hn => ?_⟩
    rw [lineUse_rowPage, lineUse_emptyPage, if_neg hn]
  have h₂ := reachable_backend h₁ (@TableState.Step.insert _ _ _ ⟨0, 1⟩ [0] rfl ht (by simp [noTable]))
  have h₃ := reachable_backend h₂ (@TableState.Step.insertEntry _ [] _ _ _ rfl)
  refine reachable_backend h₃ (@TableState.Step.prune _ rowPage deadPage 0 ⟨rfl, ⟨?_, ?_, ?_, ?_⟩, by simp⟩)
  all_goals
    intro n h
    rw [lineUse_rowPage] at h
    rw [lineUse_deadPage]
    split_ifs at h ⊢
    all_goals simp_all

-- A VACUUM of the table that has found the dead row and is about to vacuum the index.
theorem reachable_deadFound : plainEnv.system.Reachable ⟨deadRow, some (deadFound, .vacuumIndexes [] 1)⟩ := by
  have h₁ := reachable_vacuum reachable_deadRow
    (@VacuumEnv.Step.start _ _ maxHeapTuplesPerPage .auto true (Nat.le_refl _))
  have h₂ := reachable_vacuum h₁ (.noprune (by decide) (by decide) rfl)
  exact reachable_vacuum h₂ (@VacuumEnv.Step.lastRound _ _ _ false (by decide))

-- The index does not refer to the row any more, which is about to be freed.
theorem reachable_deadCleared : plainEnv.system.Reachable ⟨{ deadRow with indexes := [[]] },
    some ({ deadFound with numIndexScans := 1 }, .vacuumHeap [⟨0, 1⟩] 0 1)⟩ := by
  have h := reachable_vacuum reachable_deadFound (.index (List.not_mem_nil : 0 ∉ []) rfl)
  exact reachable_vacuum h (.indexesDone fun i hi => List.mem_singleton.mpr (Nat.lt_one_iff.mp hi))

-- Whatever backends and VACUUM do, an index entry refers to the row that it has been made for, in the heap or dead,
-- and never to a line pointer that is free or has been taken for another row.
theorem index_points (h : env.system.Reachable s) {es : List IndexTuple} (hes : es ∈ s.table.indexes)
    {e : IndexTuple} (he : e ∈ es) : s.table.Points e :=
  (safe_invariant.reachable h).table.entries es hes e he

theorem index_points_deadRow : deadRow.Points ⟨⟨0, 1⟩, 0⟩ :=
  index_points reachable_deadFound (List.mem_singleton_self _) (List.mem_singleton_self _)

-- The assertions of VACUUM are met at all times, its array of LP_DEAD items is sorted and has always space enough
-- for another page, and all that it accesses is there, whatever backends do meanwhile.
theorem vacuum_asserts (h : env.system.Reachable s) (hv : s.vacuum = some (v, phase)) : env.Asserts s.table v phase :=
  ((safe_invariant.reachable h).vacuum v phase hv).asserts

theorem vacuum_asserts_deadCleared : plainEnv.Asserts { deadRow with indexes := [[]] }
    { deadFound with numIndexScans := 1 } (.vacuumHeap [⟨0, 1⟩] 0 1) :=
  vacuum_asserts reachable_deadCleared rfl

end VacuumEnv
