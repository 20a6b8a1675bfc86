import Mathlib.Data.Finset.Card
import PgTde.Vacuum.Run

-- The number of blocks that the items are from.
def blockCount (items : List ItemPointer) : Nat :=
  (items.map (·.blkno)).toFinset.card

namespace LVRelState

variable (v : LVRelState)

-- The items are all that have been found so far.
def Counted : Prop :=
  v.lpdeadItems = v.deadItems.length ∧ v.lpdeadItemPages = blockCount v.deadItems

-- What `lazy_vacuum` asserts.
structure LazyVacuumAsserts : Prop where
  indexes : 0 < v.nindexes
  pages   : 0 < v.lpdeadItemPages
  cleanup : ¬v.doIndexVacuuming → ¬v.doIndexCleanup
  bypass  : v.doIndexVacuuming → v.considerBypassOptimization → 0 < v.relPages →
    v.numIndexScans = 0 ∧ v.lpdeadItems = v.deadItems.length ∧ v.doIndexCleanup

end LVRelState

namespace VacuumEnv

variable (env : VacuumEnv) (t : TableState) (v : LVRelState)

-- What the functions assert by which a VACUUM goes on, and that they do not access what is not there.
def Asserts : VacuumPhase → Prop
  | .scanHeap blkno                    =>
    -- `lazy_scan_heap`, `lazy_scan_prune` and `lazy_scan_noprune`
    maxHeapTuplesPerPage ≤ v.maxItems ∧ v.deadItems.length ≤ v.maxItems ∧
    (blkno < v.relPages → v.IsShort → { v with considerBypassOptimization := false }.LazyVacuumAsserts) ∧
    (blkno < v.relPages → (∃ page, t.pages[blkno]? = some page) ∧
      ∀ page : TablePage, ∃ v' page', env.scanPruned v blkno page.toPage = .ok (v', TablePage.toPage page')) ∧
    (blkno = v.relPages → v.deadItems ≠ [] → v.LazyVacuumAsserts)
  | .vacuumIndexes _ _                 =>
    -- `lazy_vacuum_all_indexes`, and the order that the binary search relies on
    0 < v.nindexes ∧ v.doIndexVacuuming ∧ v.doIndexCleanup ∧
    (v.numIndexScans > 0 ∨ v.deadItems.length = v.lpdeadItems) ∧ v.deadItems.Pairwise (· < ·)
  | .vacuumHeap [] vacuumedPages _     =>
    -- the end of `lazy_vacuum_pg_tde_rel`
    v.deadItems.length > 0 ∧
    (v.numIndexScans > 1 ∨ v.deadItems.length = v.lpdeadItems ∧ vacuumedPages = v.lpdeadItemPages)
  | .vacuumHeap (tid :: rest) _ _      =>
    -- `lazy_vacuum_pg_tde_rel` and `lazy_vacuum_pg_tde_page`, whose array of offset numbers is that of a page
    v.doIndexVacuuming ∧ v.doIndexCleanup ∧ v.numIndexScans > 0 ∧ (∀ tid' ∈ tid :: rest, t.use tid' = .dead) ∧
    ((tid :: rest).takeWhile (·.blkno = tid.blkno)).length ≤ maxHeapTuplesPerPage ∧
    ∃ page page' rest', t.pages[tid.blkno]? = some page ∧
      env.lazyVacuumPgTdePage tid.blkno (tid :: rest) page.toPage = .ok (TablePage.toPage page', rest')
  | .truncateHeap                      => True

end VacuumEnv
