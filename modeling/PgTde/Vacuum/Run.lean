import PgTde.Vacuum.Lazy

-- A table, and the VACUUM that is running on it, if there is one. It keeps others away.
structure VacuumState where
  table  : TableState
  vacuum : Option (LVRelState × VacuumPhase)

inductive Actor
  | backend
  | vacuum
  deriving DecidableEq, Repr

namespace VacuumEnv

variable (env : VacuumEnv)

-- The steps of a VACUUM. Pages and indexes are locked one at a time only, so that other backends go on in between.
inductive Step : VacuumState → VacuumState → Prop
  | start {t : TableState} {maxItems : Nat} {indexCleanup : IndexCleanup} {truncate : Bool} :
    maxHeapTuplesPerPage ≤ maxItems → Step ⟨t, none⟩
      ⟨t, some (.init t.indexes.length t.pages.length maxItems indexCleanup truncate, .scanHeap 0)⟩
  -- An error, or the end.
  | stop {t : TableState} {v : LVRelState} {phase : VacuumPhase} : Step ⟨t, some (v, phase)⟩ ⟨t, none⟩
  | failsafe {t : TableState} {v : LVRelState} {blkno : Nat} : blkno < v.relPages →
    Step ⟨t, some (v, .scanHeap blkno)⟩ ⟨t, some ((v.lazyCheckWraparoundFailsafe true).2, .scanHeap blkno)⟩
  -- The last page is not skipped.
  | skip {t : TableState} {v : LVRelState} {blkno : Nat} : blkno + 1 < v.relPages →
    Step ⟨t, some (v, .scanHeap blkno)⟩ ⟨t, some (v, .scanHeap (blkno + 1))⟩
  | pause {t : TableState} {v : LVRelState} {blkno : Nat} {trigger : Bool} : blkno < v.relPages → v.IsShort →
    Step ⟨t, some (v, .scanHeap blkno)⟩
      ⟨t, some ({ v with considerBypassOptimization := false }.lazyVacuum env.few trigger blkno)⟩
  | noprune {t : TableState} {v : LVRelState} {blkno : Nat} {page : TablePage} : blkno < v.relPages → ¬v.IsShort →
    t.pages[blkno]? = some page →
    Step ⟨t, some (v, .scanHeap blkno)⟩ ⟨t, some (v.lazyScanNoprune blkno page.toPage, .scanHeap (blkno + 1))⟩
  | prune {t : TableState} {v v' : LVRelState} {blkno : Nat} {page page' page'' : TablePage} : blkno < v.relPages →
    ¬v.IsShort → t.PrunesPage blkno page page' → env.scanPruned v blkno page'.toPage = .ok (v', page''.toPage) →
    Step ⟨t, some (v, .scanHeap blkno)⟩ ⟨t.setPage blkno page'', some (v', .scanHeap (blkno + 1))⟩
  | scanned {t : TableState} {v : LVRelState} : v.deadItems = [] →
    Step ⟨t, some (v, .scanHeap v.relPages)⟩ ⟨t, some (v, .truncateHeap)⟩
  | lastRound {t : TableState} {v : LVRelState} {trigger : Bool} : v.deadItems ≠ [] →
    Step ⟨t, some (v, .scanHeap v.relPages)⟩ ⟨t, some (v.lazyVacuum env.few trigger v.relPages)⟩
  -- Parallel workers may vacuum the indexes in any order. The failsafe may be triggered once an index is done.
  | index {t : TableState} {v : LVRelState} {i next : Nat} {done : List Nat} {es : List IndexTuple} : i ∉ done →
    t.indexes[i]? = some es →
    Step ⟨t, some (v, .vacuumIndexes done next)⟩
      ⟨{ t with indexes := t.indexes.set i (es.filter fun e => !env.vacTidReaped v.deadItems e.tid) },
        some (v, .vacuumIndexes (i :: done) next)⟩
  | indexFailsafe {t : TableState} {v : LVRelState} {next : Nat} {done : List Nat} :
    Step ⟨t, some (v, .vacuumIndexes done next)⟩
      ⟨t, some ({ (v.lazyCheckWraparoundFailsafe true).2.forgetDeadItems with numIndexScans := v.numIndexScans + 1 },
        .scanHeap next)⟩
  | indexesDone {t : TableState} {v : LVRelState} {next : Nat} {done : List Nat} : (∀ i < v.nindexes, i ∈ done) →
    Step ⟨t, some (v, .vacuumIndexes done next)⟩
      ⟨t, some ({ v with numIndexScans := v.numIndexScans + 1 }, .vacuumHeap v.deadItems 0 next)⟩
  | heapPage {t : TableState} {v : LVRelState} {tid : ItemPointer} {rest rest' : List ItemPointer}
    {vacuumedPages next : Nat} {page page' : TablePage} : t.pages[tid.blkno]? = some page →
    env.lazyVacuumPgTdePage tid.blkno (tid :: rest) page.toPage = .ok (page'.toPage, rest') →
    Step ⟨t, some (v, .vacuumHeap (tid :: rest) vacuumedPages next)⟩
      ⟨t.setPage tid.blkno page', some (v, .vacuumHeap rest' (vacuumedPages + 1) next)⟩
  | heapDone {t : TableState} {v : LVRelState} {vacuumedPages next : Nat} :
    Step ⟨t, some (v, .vacuumHeap [] vacuumedPages next)⟩ ⟨t, some (v.forgetDeadItems, .scanHeap next)⟩
  -- With the exclusive lock on the table, there is no other backend that has something left to do.
  | truncate {t : TableState} {v : LVRelState} {newRelPages : Nat} {waiters : Nat → Bool} {threshold : Int} :
    v.shouldAttemptTruncation threshold → t.pending = [] → t.pages.length = v.relPages →
    v.countNondeletablePages t.pages waiters v.relPages = newRelPages → newRelPages < v.relPages →
    Step ⟨t, some (v, .truncateHeap)⟩
      ⟨{ t with pages := t.pages.take newRelPages }, some ({ v with relPages := newRelPages }, .truncateHeap)⟩

-- The table is empty at first.
def system : System VacuumState Actor where
  Initial s   := s.table.pages = [] ∧ (∀ es ∈ s.table.indexes, es = []) ∧ s.table.pending = [] ∧ s.vacuum = none
  Step s a s' :=
    match a with
    | .backend => TableState.Step s.table s'.table ∧ s'.vacuum = s.vacuum
    | .vacuum  => env.Step s s'

end VacuumEnv
