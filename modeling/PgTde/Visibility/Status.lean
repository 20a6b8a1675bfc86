import PgTde.Rewrite.Chains

-- The flags of t_infomask that visibility depends on, besides those of HOT-chains.
def heapXmaxKeyshrLock : UInt16 := 0x0010
def heapXmaxExclLock : UInt16 := 0x0040
def heapXmaxShrLock : UInt16 := 0x0050
def heapXminCommitted : UInt16 := 0x0100
def heapXmaxCommitted : UInt16 := 0x0400
def heapMovedOff : UInt16 := 0x4000
def heapMovedIn : UInt16 := 0x8000
def heapLockMask : UInt16 := heapXmaxShrLock ||| heapXmaxExclLock ||| heapXmaxKeyshrLock

-- The flags that are hints about the state of t_xmin and t_xmax.
def heapHints : UInt16 := heapXminCommitted ||| heapXminInvalid ||| heapXmaxCommitted ||| heapXmaxInvalid

-- The offset number of t_ctid that marks a speculative insertion.
def specTokenOffsetNumber : Nat := 0xFFFE

-- Some flag of the mask is set.
def heapTupleHas (flags : UInt16) (tup : List UInt8) : Bool :=
  tInfomask tup &&& flags ≠ 0

def heapTupleHeaderGetRawXmin (tup : List UInt8) : Nat :=
  unsignedAt 4 tup 0

def heapTupleHeaderGetRawXmax (tup : List UInt8) : Nat :=
  unsignedAt 4 tup 4

def heapTupleHeaderGetRawCommandId (tup : List UInt8) : Nat :=
  unsignedAt 4 tup 8

-- The field is shared with the command id.
def heapTupleHeaderGetXvac (tup : List UInt8) : Nat :=
  if heapTupleHas heapMoved tup then unsignedAt 4 tup 8 else invalidTransactionId

def heapTupleHeaderXminCommitted (tup : List UInt8) : Bool :=
  heapTupleHas heapXminCommitted tup

def heapXmaxIsLockedOnly (tup : List UInt8) : Bool :=
  heapTupleHas heapXmaxLockOnly tup ∨ tInfomask tup &&& (heapXmaxIsMulti ||| heapLockMask) = heapXmaxExclLock

-- The xmax of the tuple has been carried over from before 9.3, by an upgrade.
def heapLockedUpgraded (tup : List UInt8) : Bool :=
  heapTupleHas heapXmaxIsMulti tup ∧ heapTupleHas heapXmaxLockOnly tup ∧
    ¬heapTupleHas (heapXmaxExclLock ||| heapXmaxKeyshrLock) tup

def heapTupleHeaderIsSpeculative (tup : List UInt8) : Bool :=
  (tCtid tup).offnum = specTokenOffsetNumber

def heapTupleHeaderGetSpeculativeToken (tup : List UInt8) : Nat :=
  (tCtid tup).blkno

-- What a backend finds out about transactions and multixacts: from its own state, the array of processes, the
-- commit log, and the members of multixacts.
structure XactStatus where
  -- TransactionIdIsCurrentTransactionId
  isCurrent    : Nat → Bool
  -- TransactionIdIsInProgress
  inProgress   : Nat → Bool
  -- TransactionIdDidCommit
  didCommit    : Nat → Bool
  -- The updating member of a multixact, if there is one.
  updater      : Nat → Nat
  -- MultiXactIdIsRunning
  isRunning    : Nat → Bool → Bool
  -- The commit record of a transaction may not be flushed yet, and the page's LSN does not interlock it.
  unflushed    : Nat → Bool
  -- The command ids of combo command ids.
  realCmin     : Nat → Nat
  realCmax     : Nat → Nat
  current      : ∀ xid, isCurrent xid → inProgress xid
  invalid      : ¬inProgress invalidTransactionId ∧ ¬didCommit invalidTransactionId
  no_members   : updater invalidTransactionId = invalidTransactionId
  runs_updater : ∀ multi, inProgress (updater multi) → isRunning multi false

-- What is known about a transaction.
inductive Fate
  | own
  | running
  | committed
  | aborted
  deriving DecidableEq, Repr

-- A transaction counts as finished only if it does not count as running.
def fateOf (isCurrent running didCommit : Nat → Bool) (xid : Nat) : Fate :=
  if isCurrent xid then
    .own
  else if running xid then
    .running
  else if didCommit xid then
    .committed
  else
    .aborted

namespace XactStatus

variable (x : XactStatus)

def fate : Nat → Fate :=
  fateOf x.isCurrent x.inProgress x.didCommit

def heapTupleHeaderGetCmin (tup : List UInt8) : Nat :=
  let cid := heapTupleHeaderGetRawCommandId tup
  if heapTupleHas heapCombocid tup then x.realCmin cid else cid

def heapTupleHeaderGetCmax (tup : List UInt8) : Nat :=
  let cid := heapTupleHeaderGetRawCommandId tup
  if heapTupleHas heapCombocid tup then x.realCmax cid else cid

-- HeapTupleGetUpdateXid, which is for tuples whose xmax is a multixact.
def heapTupleGetUpdateXid (tup : List UInt8) : Nat :=
  x.updater (heapTupleHeaderGetRawXmax tup)

-- The hint is left out if `xid` is valid, and its commit record might get lost in a crash.
def setHintBits (infomask : UInt16) (xid : Nat) (tup : List UInt8) : List UInt8 :=
  if xid ≠ invalidTransactionId ∧ x.unflushed xid then tup else storeHints infomask tup

def heapTupleHeaderIsOnlyLocked (tup : List UInt8) : Bool :=
  if heapTupleHas heapXmaxInvalid tup then
    true
  else if heapTupleHas heapXmaxLockOnly tup then
    true
  else if heapTupleHeaderGetRawXmax tup = invalidTransactionId then
    true
  else if ¬heapTupleHas heapXmaxIsMulti tup then
    false
  else
    let xmax := x.heapTupleGetUpdateXid tup
    if x.isCurrent xmax then
      false
    else if x.inProgress xmax then
      false
    else if x.didCommit xmax then
      false
    else
      true

end XactStatus

-- An MVCC snapshot: the transactions that count as running, and the current command.
structure MvccSnapshot (x : XactStatus) where
  -- XidInMVCCSnapshot
  contains : Nat → Bool
  curcid   : Nat
  running  : ∀ xid, x.inProgress xid → ¬x.isCurrent xid → contains xid

def MvccSnapshot.fate {x : XactStatus} (snapshot : MvccSnapshot x) : Nat → Fate :=
  fateOf x.isCurrent snapshot.contains x.didCommit
