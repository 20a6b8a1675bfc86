import PgTde.Library.System
import PgTde.Vacuum.Table

namespace Page

variable (page : Page)

-- The LP_DEAD line pointers, as the loop over a page's line pointers collects them.
def deadOffsets : List Nat :=
  (List.range' 1 page.getMaxOffsetNumber).filter fun n => (page.getItemId n).any (·.lpFlags = .dead)

def hastup : Bool :=
  page.linp.any fun lp => lp.lpFlags = .normal ∨ lp.lpFlags = .redirect

end Page

def relTruncateMinimum : Nat := 1000

def relTruncateFraction : Nat := 16

-- What decides about the course of a VACUUM. `failsafeActive` is VacuumFailsafeActive.
structure LVRelState where
  nindexes                   : Nat
  considerBypassOptimization : Bool
  doIndexVacuuming           : Bool
  doIndexCleanup             : Bool
  doRelTruncate              : Bool
  failsafeActive             : Bool
  maxItems                   : Nat
  deadItems                  : List ItemPointer
  relPages                   : Nat
  lpdeadItemPages            : Nat
  lpdeadItems                : Nat
  nonemptyPages              : Nat
  numIndexScans              : Nat

-- The parameter `index_cleanup` of VACUUM.
inductive IndexCleanup
  | auto
  | disabled
  | enabled
  deriving DecidableEq, Repr

-- Where a VACUUM is. The scan of the heap goes on with block `next` after a round of vacuuming the indexes and the
-- heap.
inductive VacuumPhase
  | scanHeap (blkno : Nat)
  | vacuumIndexes (done : List Nat) (next : Nat)
  | vacuumHeap (rest : List ItemPointer) (vacuumedPages next : Nat)
  | truncateHeap

namespace LVRelState

variable (v : LVRelState)

-- The state that `lazy_scan_heap` starts with. `maxItems` is what `dead_items_max_items` yields.
def init (nindexes relPages maxItems : Nat) (indexCleanup : IndexCleanup) (truncate : Bool) : LVRelState where
  nindexes                   := nindexes
  considerBypassOptimization := indexCleanup ≠ .enabled
  doIndexVacuuming           := indexCleanup ≠ .disabled
  doIndexCleanup             := indexCleanup ≠ .disabled
  doRelTruncate              := truncate
  failsafeActive             := false
  maxItems                   := maxItems
  deadItems                  := []
  relPages                   := relPages
  lpdeadItemPages            := 0
  lpdeadItems                := 0
  nonemptyPages              := 0
  numIndexScans              := 0

-- `trigger` is what vacuum_xid_failsafe_check finds out.
def lazyCheckWraparoundFailsafe (trigger : Bool) : Bool × LVRelState :=
  if v.failsafeActive then
    (true, v)
  else if trigger then
    (true, { v with
      failsafeActive   := true
      doIndexVacuuming := false
      doIndexCleanup   := false
      doRelTruncate    := false })
  else
    (false, v)

def forgetDeadItems : LVRelState :=
  { v with deadItems := [] }

def saveDeadItems (blkno : Nat) (deadoffsets : List Nat) : LVRelState :=
  if deadoffsets = [] then
    v
  else
    { v with
      lpdeadItemPages := v.lpdeadItemPages + 1
      deadItems       := v.deadItems ++ deadoffsets.map (⟨blkno, ·⟩)
      lpdeadItems     := v.lpdeadItems + deadoffsets.length }

def rememberTuples (blkno : Nat) (hastup : Bool) : LVRelState :=
  if hastup then { v with nonemptyPages := blkno + 1 } else v

-- The page is not pruned. Without indexes, its LP_DEAD line pointers are left alone.
def lazyScanNoprune (blkno : Nat) (page : Page) : LVRelState :=
  if v.nindexes = 0
  then v.rememberTuples blkno (page.hastup || page.deadOffsets ≠ [])
  else (v.saveDeadItems blkno page.deadOffsets).rememberTuples blkno page.hastup

-- The part of `lazy_scan_prune` that comes once the page has been pruned.
def lazyScanPrune (blkno : Nat) (page : Page) : LVRelState :=
  (v.saveDeadItems blkno page.deadOffsets).rememberTuples blkno page.hastup

-- There may not be space enough for the LP_DEAD line pointers of another page.
def IsShort : Prop :=
  v.maxItems - v.deadItems.length < maxHeapTuplesPerPage

instance : Decidable v.IsShort :=
  inferInstanceAs (Decidable (_ < _))

-- `few` tells that the LP_DEAD items are too few to be worth the effort.
def lazyVacuum (few : LVRelState → Bool) (trigger : Bool) (next : Nat) : LVRelState × VacuumPhase :=
  if ¬v.doIndexVacuuming then
    (v.forgetDeadItems, .scanHeap next)
  else if v.considerBypassOptimization ∧ v.relPages > 0 ∧ few v then
    ({ v.forgetDeadItems with doIndexVacuuming := false }, .scanHeap next)
  else
    let (failsafe, v) := v.lazyCheckWraparoundFailsafe trigger
    if failsafe then (v.forgetDeadItems, .scanHeap next) else (v, .vacuumIndexes [] next)

def shouldAttemptTruncation (oldSnapshotThreshold : Int) : Bool :=
  if ¬v.doRelTruncate ∨ v.failsafeActive ∨ oldSnapshotThreshold ≥ 0 then
    false
  else
    let possiblyFreeable := v.relPages - v.nonemptyPages
    possiblyFreeable > 0 ∧
      (possiblyFreeable ≥ relTruncateMinimum ∨ possiblyFreeable ≥ v.relPages / relTruncateFraction)

-- The loop goes backwards from block `blkno`. It stops at once if another backend waits for a lock.
def countNondeletablePages (pages : List TablePage) (waiters : Nat → Bool) : Nat → Nat
  | 0         => v.nonemptyPages
  | blkno + 1 =>
    if blkno + 1 ≤ v.nonemptyPages then
      v.nonemptyPages
    else if waiters (blkno + 1) then
      blkno + 1
    else if pages[blkno]?.any fun page => page.linp.any (·.isUsed) then
      blkno + 1
    else
      countNondeletablePages pages waiters blkno

end LVRelState

-- The parts of PostgreSQL that a VACUUM relies on.
structure VacuumEnv where
  -- PageTruncateLinePointerArray removes unused line pointers from the end of the array.
  truncateLinePointerArray : Page → Page
  truncates : ∀ page, (truncateLinePointerArray page).mem = page.mem ∧
    ∃ unused : List ItemIdData, page.linp = (truncateLinePointerArray page).linp ++ unused ∧ ∀ lp ∈ unused, ¬lp.isUsed
  -- vac_tid_reaped looks an item up by binary search.
  vacTidReaped : List ItemPointer → ItemPointer → Bool
  reaped       : ∀ items tid, items.Pairwise (· < ·) → (vacTidReaped items tid ↔ tid ∈ items)
  -- The test for the bypass of index vacuuming.
  few          : LVRelState → Bool

namespace VacuumEnv

variable (env : VacuumEnv)

-- The loop over the items of a block, which yields those behind them.
def freeItems (blkno : Nat) : List ItemPointer → Page → Outcome (Page × List ItemPointer)
  | [], page          => .ok (page, [])
  | tid :: rest, page =>
    if tid.blkno ≠ blkno then
      .ok (page, tid :: rest)
    else do
      let page ← page.updateItemId tid.offnum (·.setUnused)
      freeItems blkno rest page

def lazyVacuumPgTdePage (blkno : Nat) (items : List ItemPointer) (page : Page) :
    Outcome (Page × List ItemPointer) := do
  let (page, rest) ← freeItems blkno items page
  return (env.truncateLinePointerArray page, rest)

-- What becomes of a page that has been pruned. Without indexes, its LP_DEAD line pointers are freed at once.
def scanPruned (v : LVRelState) (blkno : Nat) (page : Page) : Outcome (LVRelState × Page) :=
  let v := v.lazyScanPrune blkno page
  if v.nindexes = 0 ∧ page.deadOffsets ≠ [] then do
    let (page, _) ← env.lazyVacuumPgTdePage blkno v.deadItems page
    return (v.forgetDeadItems, page)
  else
    return (v, page)

end VacuumEnv
