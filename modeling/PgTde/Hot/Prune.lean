import PgTde.Index.HotChains
import PgTde.Prune.Execute
import PgTde.Visibility.Satisfies

open Cint

def transactionIdFollows (id₁ id₂ : Nat) : Bool :=
  if id₁ < 3 ∨ id₂ < 3 then id₁ > id₂ else int32 (id₁ - id₂) > 0

-- What a backend finds out while it prunes a page. Each tuple is tested once, and the state of transactions may
-- change from the test of one tuple, which its offset number tells, to that of another.
structure PruneEnv where
  status                     : Nat → XactStatus
  -- GlobalVisTestIsRemovableXid
  isRemovable                : Nat → Nat → Bool
  oldSnapshotThresholdActive : Bool
  -- The limit that TransactionIdLimitedForOldSnapshots yields, if it is valid.
  limitedXmin                : Nat
  -- TransactionIdDidCommit, once the tuples have been tested.
  didCommit                  : Nat → Bool
  updater                    : Nat → Nat

-- The line pointers that are to be changed are those of the plan.
structure PruneState where
  oldSnapXmin             : Nat
  oldSnapUsed             : Bool
  newPruneXid             : Nat
  snapshotConflictHorizon : Nat
  plan                    : PrunePlan
  marked                  : Nat → Bool
  htsv                    : Nat → Option HTSVResult

-- The items of a chain that have been visited, and the latest one that is dead.
structure PruneChain where
  chainitems : List Nat
  latestdead : Nat

def PruneState.init (oldSnapXmin : Nat) : PruneState where
  oldSnapXmin             := oldSnapXmin
  oldSnapUsed             := false
  newPruneXid             := invalidTransactionId
  snapshotConflictHorizon := invalidTransactionId
  plan                    := ⟨[], [], []⟩
  marked                  := fun _ => false
  htsv                    := fun _ => none

-- Stores a tuple, of the length of the item.
def Page.setItem (page : Page) (lp : ItemIdData) (tup : List UInt8) : Page :=
  { page with mem := page.mem.write lp.lpOff tup }

namespace PruneState

variable (s : PruneState) (offnum xid : Nat)

def mark : PruneState :=
  { s with marked := Function.update s.marked offnum true }

def heapPruneRecordPrunable : PruneState :=
  if s.newPruneXid = invalidTransactionId ∨ transactionIdPrecedes xid s.newPruneXid
  then { s with newPruneXid := xid }
  else s

def heapPruneRecordRedirect (rdoffnum : Nat) : PruneState :=
  { (s.mark offnum).mark rdoffnum with
    plan := { s.plan with redirected := s.plan.redirected ++ [(offnum, rdoffnum)] } }

def heapPruneRecordDead : PruneState :=
  { s.mark offnum with plan := { s.plan with nowdead := s.plan.nowdead ++ [offnum] } }

def heapPruneRecordUnused : PruneState :=
  { s.mark offnum with plan := { s.plan with nowunused := s.plan.nowunused ++ [offnum] } }

end PruneState

namespace PruneEnv

variable (env : PruneEnv)

-- The result, the tuple with its hints, and the state.
def heapPruneSatisfiesVacuum (offnum : Nat) (tup : List UInt8) (s : PruneState) :
    HTSVResult × List UInt8 × PruneState :=
  let ((res, deadAfter), tup) := (env.status offnum).heapTupleSatisfiesVacuumHorizon tup
  if res ≠ .recentlyDead then
    (res, tup, s)
  else if s.oldSnapUsed then
    (if transactionIdPrecedes deadAfter s.oldSnapXmin then .dead else res, tup, s)
  else if env.isRemovable offnum deadAfter then
    (.dead, tup, s)
  else if env.oldSnapshotThresholdActive then
    let s := if s.oldSnapXmin = invalidTransactionId then { s with oldSnapXmin := env.limitedXmin } else s
    if s.oldSnapXmin ≠ invalidTransactionId ∧ transactionIdPrecedes deadAfter s.oldSnapXmin
    then (.dead, tup, { s with oldSnapUsed := true })
    else (res, tup, s)
  else
    (res, tup, s)

-- The body of the loop that tests the tuples. The hints are stored on the page.
def testTuple (offnum : Nat) (r : Page × PruneState) : Page × PruneState :=
  let (page, s) := r
  match page.getItemId offnum with
  | none    => (page, s)
  | some lp =>
    if lp.isNormal then
      let (res, tup, s) := env.heapPruneSatisfiesVacuum offnum (page.getItem lp) s
      (page.setItem lp tup, { s with htsv := Function.update s.htsv offnum (some res) })
    else
      (page, { s with htsv := Function.update s.htsv offnum none })

-- The loop goes from the last offset number to the first one.
def testTuples : Nat → Page × PruneState → Page × PruneState
  | 0, r          => r
  | offnum + 1, r => testTuples offnum (env.testTuple (offnum + 1) r)

-- The horizon is that of the transactions whose deletions are removed along with the tuples.
def heapTupleHeaderAdvanceConflictHorizon (tup : List UInt8) (snapshotConflictHorizon : Nat) : Nat :=
  let xmin := heapTupleHeaderGetXmin tup
  let xmax := heapTupleHeaderGetUpdateXid env.updater tup
  let xvac := heapTupleHeaderGetXvac tup
  let horizon :=
    if heapTupleHas heapMoved tup ∧ transactionIdPrecedes snapshotConflictHorizon xvac
    then xvac
    else snapshotConflictHorizon
  if heapTupleHeaderXminCommitted tup ∨ ¬heapTupleHeaderXminInvalid tup ∧ env.didCommit xmin then
    if xmax ≠ xmin ∧ transactionIdFollows xmax horizon then xmax else horizon
  else
    horizon

def advanceConflictHorizon (tup : List UInt8) (s : PruneState) : PruneState :=
  { s with snapshotConflictHorizon :=
      env.heapTupleHeaderAdvanceConflictHorizon tup s.snapshotConflictHorizon }

-- The part of the loop's body that deals with a member of the chain. `next` is what comes behind it.
def visitTuple (offnum : Nat) (htup : List UInt8)
    (next : PruneChain → PruneState → Outcome (PruneChain × PruneState)) (chain : PruneChain) (s : PruneState) :
    Outcome (PruneChain × PruneState) :=
  let updateXid := heapTupleHeaderGetUpdateXid env.updater htup
  let chain := { chain with chainitems := chain.chainitems ++ [offnum] }
  match s.htsv offnum with
  | none                   => .error (.error "unexpected HeapTupleSatisfiesVacuum result")
  | some .dead             => next { chain with latestdead := offnum } (env.advanceConflictHorizon htup s)
  | some .recentlyDead     => next chain (s.heapPruneRecordPrunable updateXid)
  | some .deleteInProgress => .ok (chain, s.heapPruneRecordPrunable updateXid)
  | some .live             => .ok (chain, s)
  | some .insertInProgress => .ok (chain, s)

variable (page : Page)

-- The loop over the members of a chain.
def scanChain : Nat → Nat → Nat → PruneChain → PruneState → Outcome (PruneChain × PruneState)
  | 0, _, _, _, _ => .error .undefined
  | fuel + 1, offnum, priorXmax, chain, s =>
    match page.getItemId offnum with
    | none    => .ok (chain, s)
    | some lp =>
      if s.marked offnum then
        .ok (chain, s)
      else
        match lp.lpFlags with
        | .unused | .dead => .ok (chain, s)
        | .redirect       =>
          if chain.chainitems ≠ []
          then .ok (chain, s)
          else scanChain fuel lp.lpOff priorXmax { chain with chainitems := [offnum] } s
        | .normal         =>
          let htup := page.getItem lp
          if priorXmax ≠ invalidTransactionId ∧ heapTupleHeaderGetXmin htup ≠ priorXmax then
            .ok (chain, s)
          else
            let next (chain : PruneChain) (s : PruneState) :=
              if heapTupleHeaderIsHotUpdated htup then
                scanChain fuel (ctidOffsetNumber htup) (heapTupleHeaderGetUpdateXid env.updater htup) chain s
              else
                .ok (chain, s)
            env.visitTuple offnum htup next chain s

-- The loop over the items behind `previous` that marks those up to the latest dead one as unused, with the number
-- of them. It yields the item that it stops at.
def removeDead (latestdead : Nat) : Nat → List Nat → PruneState → Option Nat × Nat × PruneState
  | _, [], s => (none, 0, s)
  | previous, item :: items, s =>
    if previous ≠ latestdead then
      let (rest, ndeleted, s) := removeDead latestdead item items (s.heapPruneRecordUnused item)
      (rest, ndeleted + 1, s)
    else
      (some item, 0, s)

-- A heap-only tuple is not the start of a chain. It is removed at once if it is dead and its chain ends with it.
def pruneHeapOnly (rootoffnum : Nat) (htup : List UInt8) (s : PruneState) : Nat × PruneState :=
  if s.htsv rootoffnum = some .dead ∧ ¬heapTupleHeaderIsHotUpdated htup
  then (1, env.advanceConflictHorizon htup (s.heapPruneRecordUnused rootoffnum))
  else (0, s)

-- Plans the changes to the chain that starts at a line pointer, with the number of tuples that they delete.
def heapPruneChain (rootoffnum : Nat) (rootlp : ItemIdData) (s : PruneState) : Outcome (Nat × PruneState) :=
  if rootlp.isNormal ∧ heapTupleHeaderIsHeapOnly (page.getItem rootlp) then
    .ok (env.pruneHeapOnly rootoffnum (page.getItem rootlp) s)
  else do
    let (chain, s) ← env.scanChain page (maxHeapTuplesPerPage + 1) rootoffnum invalidTransactionId
      ⟨[], invalidOffsetNumber⟩ s
    if chain.latestdead ≠ invalidOffsetNumber then
      let (rest, ndeleted, s) := removeDead chain.latestdead rootoffnum chain.chainitems.tail s
      let ndeleted := if rootlp.isNormal then ndeleted + 1 else ndeleted
      match rest with
      | none      => return (ndeleted, s.heapPruneRecordDead rootoffnum)
      | some item => return (ndeleted, s.heapPruneRecordRedirect rootoffnum item)
    else if chain.chainitems.length < 2 ∧ rootlp.lpFlags = .redirect then
      return (0, s.heapPruneRecordDead rootoffnum)
    else
      return (0, s)

-- The body of the loop over the line pointers.
def pruneItem (r : Nat × PruneState) (offnum : Nat) : Outcome (Nat × PruneState) :=
  let (ndeleted, s) := r
  if s.marked offnum then
    .ok (ndeleted, s)
  else
    match page.getItemId offnum with
    | none        => .error .undefined
    | some itemid =>
      match itemid.lpFlags with
      | .unused | .dead     => .ok (ndeleted, s)
      | .normal | .redirect => do
        let (n, s) ← env.heapPruneChain page offnum itemid s
        return (ndeleted + n, s)

-- The loop over the line pointers. The arrays are made for as many of them as fit on a page.
def planPrune (s : PruneState) : Outcome (Nat × PruneState) :=
  if page.getMaxOffsetNumber ≤ maxHeapTuplesPerPage
  then (List.range' 1 page.getMaxOffsetNumber).foldlM (env.pruneItem page) (0, s)
  else .error .undefined

end PruneEnv

-- The page, the number of tuples deleted, and the state that the WAL record and pd_prune_xid are taken from.
def Platform.pgTdePagePrune (P : Platform) (env : PruneEnv) (bn : Nat) (key : Block) (stack : Memory)
    (oldSnapXmin : Nat) (page : Page) : Outcome (Page × Nat × PruneState) := do
  let (page, s) := env.testTuples page.getMaxOffsetNumber (page, .init oldSnapXmin)
  let (ndeleted, s) ← env.planPrune page s
  if s.plan.redirected = [] ∧ s.plan.nowdead = [] ∧ s.plan.nowunused = [] then
    return (page, ndeleted, s)
  else
    let page ← P.pgTdePagePruneExecute bn key stack s.plan page
    return (page, ndeleted, s)
