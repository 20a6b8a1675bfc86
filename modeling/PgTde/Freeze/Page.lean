import PgTde.Freeze.Prepare

-- A page of which the tuples that are left after pruning have been considered for freezing, and the oldest ids that
-- may be left in the table according to VACUUM.
structure ScannedPage where
  tuples          : List (List UInt8)
  newRelfrozenXid : Nat
  newRelminMxid   : Nat

-- The transactions that have to be looked up as long as the tuple is as it is.
def remainingXids (members : MultiXactMembers) (tup : List UInt8) : List Nat :=
  (if heapTupleHeaderXminFrozen tup then [] else [heapTupleHeaderGetRawXmin tup]) ++ xmaxXids members tup

namespace FreezeEnv

variable {x : XactStatus} (env : FreezeEnv x)

def prepareAll : List (List UInt8) → HeapPageFreeze → Outcome (List (List UInt8 × FreezePlan) × HeapPageFreeze)
  | [], pagefrz          => .ok ([], pagefrz)
  | tup :: tups, pagefrz => do
    let (frz, pagefrz) ← env.pgTdePrepareFreezeTuple tup pagefrz
    let (plans, pagefrz) ← prepareAll tups pagefrz
    return ((tup, frz) :: plans, pagefrz)

-- Only the usable plans are executed.
def executeAll (plans : List (List UInt8 × FreezePlan)) : Outcome (List (List UInt8)) :=
  plans.mapM fun plan => if plan.2.usable then env.pgTdeFreezeExecutePrepared plan.1 plan.2 else .ok plan.1

-- The part of `lazy_scan_prune` that is about freezing. `fpi` means that all tuples are visible to everyone, and that
-- pruning has written an image of the page.
def lazyScanFreeze (fpi : Bool) (tups : List (List UInt8)) (newRelfrozenXid newRelminMxid : Nat) :
    Outcome ScannedPage := do
  let (plans, pagefrz) ← env.prepareAll tups ⟨false, newRelfrozenXid, newRelminMxid, newRelfrozenXid, newRelminMxid⟩
  if pagefrz.freezeRequired ∨ (∀ plan ∈ plans, ¬plan.2.usable) ∨ fpi ∧ ∀ plan ∈ plans, plan.2.totallyFrozen then
    return ⟨← env.executeAll plans, pagefrz.freezePageRelfrozenXid, pagefrz.freezePageRelminMxid⟩
  else
    return ⟨tups, pagefrz.noFreezePageRelfrozenXid, pagefrz.noFreezePageRelminMxid⟩

end FreezeEnv

-- A page, and what is found out about transactions when it is scanned.
structure PageToScan where
  status : XactStatus
  env    : FreezeEnv status
  fpi    : Bool
  tuples : List (List UInt8)

-- `lazy_scan_heap` scans the pages one after the other, and the ids are carried over.
def lazyScanPages : List PageToScan → Nat → Nat → Outcome (List (List (List UInt8)) × Nat × Nat)
  | [], newRelfrozenXid, newRelminMxid            => .ok ([], newRelfrozenXid, newRelminMxid)
  | page :: pages, newRelfrozenXid, newRelminMxid => do
    let scanned ← page.env.lazyScanFreeze page.fpi page.tuples newRelfrozenXid newRelminMxid
    let (rest, newRelfrozenXid, newRelminMxid) ← lazyScanPages pages scanned.newRelfrozenXid scanned.newRelminMxid
    return (scanned.tuples :: rest, newRelfrozenXid, newRelminMxid)
