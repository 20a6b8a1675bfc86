import PgTde.Visibility.Status

-- HTSV_Result
inductive HTSVResult
  | dead
  | live
  | recentlyDead
  | insertInProgress
  | deleteInProgress
  deriving DecidableEq, Repr

-- What the checks of t_xmin lead to: a result, or to the checks of t_xmax.
inductive XminCheck (α : Type)
  | returns (a : α)
  | own
  | committed

-- The results for tuples whose insertion is not committed. Of those that have been moved off or in, by a VACUUM
-- FULL of before 9.0, some may pass.
structure XminAnswers (α : Type) where
  gone          : α
  running       : α
  movedOff      : α
  movedOffRuns  : Option α
  movedInOwn    : Option α
  movedInRuns   : α

-- The fields of a snapshot that HeapTupleSatisfiesDirty fills.
structure DirtyResult where
  valid            : Bool
  xmin             : Nat
  xmax             : Nat
  speculativeToken : Nat
  deriving DecidableEq, Repr

def DirtyResult.plain (valid : Bool) : DirtyResult where
  valid            := valid
  xmin             := invalidTransactionId
  xmax             := invalidTransactionId
  speculativeToken := 0

-- Another transaction is inserting the tuple, maybe speculatively.
def DirtyResult.inserting (tup : List UInt8) : DirtyResult where
  valid            := true
  xmin             := heapTupleHeaderGetRawXmin tup
  xmax             := invalidTransactionId
  speculativeToken := if heapTupleHeaderIsSpeculative tup then heapTupleHeaderGetSpeculativeToken tup else 0

namespace XactStatus

variable (x : XactStatus) {α : Type}

def answerOr (answer : Option α) (tup : List UInt8) : XminCheck α × List UInt8 :=
  match answer with
  | some a => (.returns a, tup)
  | none   => (.committed, tup)

-- The checks for HEAP_MOVED_OFF.
def checkMovedOff (running : Nat → Bool) (answers : XminAnswers α) (tup : List UInt8) :
    XminCheck α × List UInt8 :=
  let xvac := heapTupleHeaderGetXvac tup
  if x.isCurrent xvac then
    (.returns answers.movedOff, tup)
  else if running xvac then
    answerOr answers.movedOffRuns tup
  else if x.didCommit xvac then
    (.returns answers.gone, x.setHintBits heapXminInvalid invalidTransactionId tup)
  else
    (.committed, x.setHintBits heapXminCommitted invalidTransactionId tup)

-- The checks for HEAP_MOVED_IN.
def checkMovedIn (running : Nat → Bool) (answers : XminAnswers α) (tup : List UInt8) :
    XminCheck α × List UInt8 :=
  let xvac := heapTupleHeaderGetXvac tup
  if x.isCurrent xvac then
    answerOr answers.movedInOwn tup
  else if running xvac then
    (.returns answers.movedInRuns, tup)
  else if x.didCommit xvac then
    (.committed, x.setHintBits heapXminCommitted invalidTransactionId tup)
  else
    (.returns answers.gone, x.setHintBits heapXminInvalid invalidTransactionId tup)

-- The checks of t_xmin that the tests have in common.
def checkXmin (running : Nat → Bool) (answers : XminAnswers α) (tup : List UInt8) :
    XminCheck α × List UInt8 :=
  let xmin := heapTupleHeaderGetRawXmin tup
  if heapTupleHeaderXminCommitted tup then
    (.committed, tup)
  else if heapTupleHeaderXminInvalid tup then
    (.returns answers.gone, tup)
  else if heapTupleHas heapMovedOff tup then
    x.checkMovedOff running answers tup
  else if heapTupleHas heapMovedIn tup then
    x.checkMovedIn running answers tup
  else if x.isCurrent xmin then
    (.own, tup)
  else if running xmin then
    (.returns answers.running, tup)
  else if x.didCommit xmin then
    (.committed, x.setHintBits heapXminCommitted xmin tup)
  else
    (.returns answers.gone, x.setHintBits heapXminInvalid invalidTransactionId tup)

-- The results of the tests that tell about visibility.
def visibleAnswers (invisible running : α) : XminAnswers α where
  gone         := invisible
  running      := running
  movedOff     := invisible
  movedOffRuns := none
  movedInOwn   := none
  movedInRuns  := invisible

-- The checks of t_xmax for a tuple that this transaction has inserted. `deleted` is the result if it has also
-- deleted it.
def checkOwnXmax (visible deleted : α) (tup : List UInt8) : α × List UInt8 :=
  if heapTupleHas heapXmaxInvalid tup then
    (visible, tup)
  else if heapXmaxIsLockedOnly tup then
    (visible, tup)
  else if heapTupleHas heapXmaxIsMulti tup then
    if ¬x.isCurrent (x.heapTupleGetUpdateXid tup) then
      (visible, tup)
    else
      (deleted, tup)
  else if ¬x.isCurrent (heapTupleHeaderGetRawXmax tup) then
    (visible, x.setHintBits heapXmaxInvalid invalidTransactionId tup)
  else
    (deleted, tup)

-- The checks of t_xmax as of now. `deleting` is the result if another transaction is deleting the tuple.
def checkXmaxNow (visible invisible : α) (deleting : Nat → α) (tup : List UInt8) : α × List UInt8 :=
  let xmax := heapTupleHeaderGetRawXmax tup
  if heapTupleHas heapXmaxInvalid tup then
    (visible, tup)
  else if heapTupleHas heapXmaxCommitted tup then
    (if heapXmaxIsLockedOnly tup then visible else invisible, tup)
  else if heapTupleHas heapXmaxIsMulti tup then
    if heapXmaxIsLockedOnly tup then
      (visible, tup)
    else
      let xmax := x.heapTupleGetUpdateXid tup
      if x.isCurrent xmax then
        (invisible, tup)
      else if x.inProgress xmax then
        (deleting xmax, tup)
      else if x.didCommit xmax then
        (invisible, tup)
      else
        (visible, tup)
  else if x.isCurrent xmax then
    (if heapXmaxIsLockedOnly tup then visible else invisible, tup)
  else if x.inProgress xmax then
    (if heapXmaxIsLockedOnly tup then visible else deleting xmax, tup)
  else if ¬x.didCommit xmax then
    (visible, x.setHintBits heapXmaxInvalid invalidTransactionId tup)
  else if heapXmaxIsLockedOnly tup then
    (visible, x.setHintBits heapXmaxInvalid invalidTransactionId tup)
  else
    (invisible, x.setHintBits heapXmaxCommitted xmax tup)

-- The tests as of now, after the checks of t_xmin.
def satisfiesNow (visible invisible : α) (deleting : Nat → α) : XminCheck α × List UInt8 → α × List UInt8
  | (.returns a, tup) => (a, tup)
  | (.own, tup)       => x.checkOwnXmax visible invisible tup
  | (.committed, tup) => x.checkXmaxNow visible invisible deleting tup

def heapTupleSatisfiesSelf (tup : List UInt8) : Bool × List UInt8 :=
  x.satisfiesNow true false (fun _ => true)
    (x.checkXmin x.inProgress (visibleAnswers false false) tup)

def heapTupleSatisfiesAny (tup : List UInt8) : Bool × List UInt8 :=
  (true, tup)

-- There are no further checks of a tuple in a TOAST table.
def toastResult : XminCheck Bool × List UInt8 → Bool × List UInt8
  | (.returns a, tup) => (a, tup)
  | (_, tup)          => (true, tup)

-- Of tuples whose insertion is neither committed nor invalid, only those are rejected that a speculative
-- insertion has left behind.
def heapTupleSatisfiesToast (tup : List UInt8) : Bool × List UInt8 :=
  let answers := visibleAnswers false false
  if heapTupleHeaderXminCommitted tup then
    (true, tup)
  else if heapTupleHeaderXminInvalid tup then
    (false, tup)
  else if heapTupleHas heapMovedOff tup then
    toastResult (x.checkMovedOff x.inProgress answers tup)
  else if heapTupleHas heapMovedIn tup then
    toastResult (x.checkMovedIn x.inProgress answers tup)
  else
    (heapTupleHeaderGetXmin tup ≠ invalidTransactionId, tup)

def heapTupleSatisfiesDirty (tup : List UInt8) : DirtyResult × List UInt8 :=
  x.satisfiesNow (.plain true) (.plain false) (fun xmax => { DirtyResult.plain true with xmax })
    (x.checkXmin x.inProgress (visibleAnswers (.plain false) (.inserting tup)) tup)

end XactStatus

namespace MvccSnapshot

variable {x : XactStatus} (snapshot : MvccSnapshot x)

-- The tuple has been deleted by this transaction. It is visible if that was after the scan has started.
def deletedByOwn (tup : List UInt8) : Bool :=
  x.heapTupleHeaderGetCmax tup ≥ snapshot.curcid

-- The checks of t_xmax for a tuple whose insertion counts as committed.
def checkXmax (tup : List UInt8) : Bool × List UInt8 :=
  let xmax := heapTupleHeaderGetRawXmax tup
  if heapTupleHas heapXmaxInvalid tup then
    (true, tup)
  else if heapXmaxIsLockedOnly tup then
    (true, tup)
  else if heapTupleHas heapXmaxIsMulti tup then
    let xmax := x.heapTupleGetUpdateXid tup
    if x.isCurrent xmax then
      (snapshot.deletedByOwn tup, tup)
    else if snapshot.contains xmax then
      (true, tup)
    else if x.didCommit xmax then
      (false, tup)
    else
      (true, tup)
  else if ¬heapTupleHas heapXmaxCommitted tup then
    if x.isCurrent xmax then
      (snapshot.deletedByOwn tup, tup)
    else if snapshot.contains xmax then
      (true, tup)
    else if ¬x.didCommit xmax then
      (true, x.setHintBits heapXmaxInvalid invalidTransactionId tup)
    else
      (false, x.setHintBits heapXmaxCommitted xmax tup)
  else if snapshot.contains xmax then
    (true, tup)
  else
    (false, tup)

def heapTupleSatisfiesMVCC (tup : List UInt8) : Bool × List UInt8 :=
  if heapTupleHeaderXminCommitted tup ∧ ¬heapTupleHeaderXminFrozen tup ∧
      snapshot.contains (heapTupleHeaderGetRawXmin tup) then
    (false, tup)
  else
    match x.checkXmin snapshot.contains (XactStatus.visibleAnswers false false) tup with
    | (.returns a, tup) => (a, tup)
    | (.own, tup)       =>
      if x.heapTupleHeaderGetCmin tup ≥ snapshot.curcid
      then (false, tup)
      else x.checkOwnXmax true (snapshot.deletedByOwn tup) tup
    | (.committed, tup) => snapshot.checkXmax tup

end MvccSnapshot

namespace XactStatus

variable (x : XactStatus)

-- The tuple has been updated or deleted by this transaction.
def modifiedByOwn (curcid : Nat) (tup : List UInt8) : TMResult :=
  if x.heapTupleHeaderGetCmax tup ≥ curcid then .selfModified else .invisible

-- The tuple has been updated or deleted by another transaction, which is committed.
def modifiedByOther (tSelf : ItemPointer) (tup : List UInt8) : TMResult :=
  if tSelf ≠ tCtid tup then .updated else .deleted

-- The checks of t_xmax for the update of a tuple that this transaction has inserted.
def checkOwnXmaxUpdate (curcid : Nat) (tup : List UInt8) : TMResult × List UInt8 :=
  let xmax := heapTupleHeaderGetRawXmax tup
  if x.heapTupleHeaderGetCmin tup ≥ curcid then
    (.invisible, tup)
  else if heapTupleHas heapXmaxInvalid tup then
    (.ok, tup)
  else if heapXmaxIsLockedOnly tup then
    if heapTupleHas heapXmaxIsMulti tup then
      (if x.isRunning xmax true then .beingModified else .ok, tup)
    else
      (if ¬x.inProgress xmax then .ok else .beingModified, tup)
  else if heapTupleHas heapXmaxIsMulti tup then
    if ¬x.isCurrent (x.heapTupleGetUpdateXid tup) then
      (if x.isRunning xmax false then .beingModified else .ok, tup)
    else
      (x.modifiedByOwn curcid tup, tup)
  else if ¬x.isCurrent xmax then
    (.ok, x.setHintBits heapXmaxInvalid invalidTransactionId tup)
  else
    (x.modifiedByOwn curcid tup, tup)

-- The checks of a multixact in t_xmax for the update of a tuple.
def checkMultiUpdate (curcid : Nat) (tSelf : ItemPointer) (tup : List UInt8) : TMResult × List UInt8 :=
  let xmax := heapTupleHeaderGetRawXmax tup
  if heapLockedUpgraded tup then
    (.ok, tup)
  else if heapXmaxIsLockedOnly tup then
    if x.isRunning xmax true
    then (.beingModified, tup)
    else (.ok, x.setHintBits heapXmaxInvalid invalidTransactionId tup)
  else
    let update := x.heapTupleGetUpdateXid tup
    if update = invalidTransactionId ∧ x.isRunning xmax false then
      (.beingModified, tup)
    else if x.isCurrent update then
      (x.modifiedByOwn curcid tup, tup)
    else if x.isRunning xmax false then
      (.beingModified, tup)
    else if x.didCommit update then
      (modifiedByOther tSelf tup, tup)
    else if ¬x.isRunning xmax false then
      (.ok, x.setHintBits heapXmaxInvalid invalidTransactionId tup)
    else
      (.beingModified, tup)

-- The checks of t_xmax for the update of a tuple whose insertion is committed.
def checkXmaxUpdate (curcid : Nat) (tSelf : ItemPointer) (tup : List UInt8) : TMResult × List UInt8 :=
  let xmax := heapTupleHeaderGetRawXmax tup
  if heapTupleHas heapXmaxInvalid tup then
    (.ok, tup)
  else if heapTupleHas heapXmaxCommitted tup then
    (if heapXmaxIsLockedOnly tup then .ok else modifiedByOther tSelf tup, tup)
  else if heapTupleHas heapXmaxIsMulti tup then
    x.checkMultiUpdate curcid tSelf tup
  else if x.isCurrent xmax then
    (if heapXmaxIsLockedOnly tup then .beingModified else x.modifiedByOwn curcid tup, tup)
  else if x.inProgress xmax then
    (.beingModified, tup)
  else if ¬x.didCommit xmax then
    (.ok, x.setHintBits heapXmaxInvalid invalidTransactionId tup)
  else if heapXmaxIsLockedOnly tup then
    (.ok, x.setHintBits heapXmaxInvalid invalidTransactionId tup)
  else
    let tup := x.setHintBits heapXmaxCommitted xmax tup
    (modifiedByOther tSelf tup, tup)

def heapTupleSatisfiesUpdate (curcid : Nat) (tSelf : ItemPointer) (tup : List UInt8) :
    TMResult × List UInt8 :=
  match x.checkXmin x.inProgress (visibleAnswers .invisible .invisible) tup with
  | (.returns a, tup) => (a, tup)
  | (.own, tup)       => x.checkOwnXmaxUpdate curcid tup
  | (.committed, tup) => x.checkXmaxUpdate curcid tSelf tup

def vacuumAnswers : XminAnswers (HTSVResult × Nat) where
  gone         := (.dead, invalidTransactionId)
  running      := (.insertInProgress, invalidTransactionId)
  movedOff     := (.deleteInProgress, invalidTransactionId)
  movedOffRuns := some (.deleteInProgress, invalidTransactionId)
  movedInOwn   := some (.insertInProgress, invalidTransactionId)
  movedInRuns  := (.insertInProgress, invalidTransactionId)

def checkOwnXmaxVacuum (tup : List UInt8) : HTSVResult :=
  if heapTupleHas heapXmaxInvalid tup then
    .insertInProgress
  else if heapXmaxIsLockedOnly tup ∨ x.heapTupleHeaderIsOnlyLocked tup then
    .insertInProgress
  else if x.isCurrent (heapTupleHeaderGetUpdateXid x.updater tup) then
    .deleteInProgress
  else
    .insertInProgress

-- The hint that t_xmax has gone is also set for tuples that have only been locked.
def checkLockerVacuum (tup : List UInt8) : List UInt8 :=
  let xmax := heapTupleHeaderGetRawXmax tup
  if heapTupleHas heapXmaxCommitted tup then
    tup
  else if heapTupleHas heapXmaxIsMulti tup then
    if ¬heapLockedUpgraded tup ∧ x.isRunning xmax true
    then tup
    else x.setHintBits heapXmaxInvalid invalidTransactionId tup
  else if x.inProgress xmax then
    tup
  else
    x.setHintBits heapXmaxInvalid invalidTransactionId tup

-- The checks of t_xmax, with the transaction that the tuple is dead after.
def checkXmaxVacuum (tup : List UInt8) : (HTSVResult × Nat) × List UInt8 :=
  let xmax := heapTupleHeaderGetRawXmax tup
  if heapTupleHas heapXmaxInvalid tup then
    ((.live, invalidTransactionId), tup)
  else if heapXmaxIsLockedOnly tup then
    ((.live, invalidTransactionId), x.checkLockerVacuum tup)
  else if heapTupleHas heapXmaxIsMulti tup then
    let update := x.heapTupleGetUpdateXid tup
    if x.inProgress update then
      ((.deleteInProgress, invalidTransactionId), tup)
    else if x.didCommit update then
      ((.recentlyDead, update), tup)
    else if ¬x.isRunning xmax false then
      ((.live, invalidTransactionId), x.setHintBits heapXmaxInvalid invalidTransactionId tup)
    else
      ((.live, invalidTransactionId), tup)
  else if heapTupleHas heapXmaxCommitted tup then
    ((.recentlyDead, xmax), tup)
  else if x.inProgress xmax then
    ((.deleteInProgress, invalidTransactionId), tup)
  else if x.didCommit xmax then
    ((.recentlyDead, xmax), x.setHintBits heapXmaxCommitted xmax tup)
  else
    ((.live, invalidTransactionId), x.setHintBits heapXmaxInvalid invalidTransactionId tup)

-- The result comes with `dead_after`.
def heapTupleSatisfiesVacuumHorizon (tup : List UInt8) : (HTSVResult × Nat) × List UInt8 :=
  match x.checkXmin x.inProgress vacuumAnswers tup with
  | (.returns a, tup) => (a, tup)
  | (.own, tup)       => ((x.checkOwnXmaxVacuum tup, invalidTransactionId), tup)
  | (.committed, tup) => x.checkXmaxVacuum tup

-- A tuple that is dead after a transaction is dead if `removable` holds for that one.
def vacuumResult (removable : Nat → Bool) (r : HTSVResult × Nat) : HTSVResult :=
  if r.1 = .recentlyDead ∧ removable r.2 then .dead else r.1

def heapTupleSatisfiesVacuum (oldestXmin : Nat) (tup : List UInt8) : HTSVResult × List UInt8 :=
  let (r, tup) := x.heapTupleSatisfiesVacuumHorizon tup
  (vacuumResult (transactionIdPrecedes · oldestXmin) r, tup)

-- `removable` is GlobalVisTestIsRemovableXid, for the horizon of the snapshot.
def heapTupleSatisfiesNonVacuumable (removable : Nat → Bool) (tup : List UInt8) : Bool × List UInt8 :=
  let (r, tup) := x.heapTupleSatisfiesVacuumHorizon tup
  (vacuumResult removable r ≠ .dead, tup)

end XactStatus

-- The test looks at hint bits only.
def heapTupleIsSurelyDead (removable : Nat → Bool) (tup : List UInt8) : Bool :=
  if ¬heapTupleHeaderXminCommitted tup then
    heapTupleHeaderXminInvalid tup
  else if heapTupleHas heapXmaxInvalid tup then
    false
  else if heapXmaxIsLockedOnly tup then
    false
  else if heapTupleHas heapXmaxIsMulti tup then
    false
  else if ¬heapTupleHas heapXmaxCommitted tup then
    false
  else
    removable (heapTupleHeaderGetRawXmax tup)
