import PgTde.Visibility.Truthful

-- The hints of a tuple. A frozen tuple stays frozen without them.
def hintsOf (tup : List UInt8) : UInt16 :=
  if heapTupleHeaderXminFrozen tup then heapXmaxCommitted ||| heapXmaxInvalid else heapHints

-- A tuple without its hints.
def unhinted (tup : List UInt8) : List UInt8 :=
  tup.take 20 ++ toLittleEndian 2 (tInfomask tup &&& ~~~hintsOf tup).toNat ++ tup.drop 22

namespace XactStatus

variable (x : XactStatus)

-- Each test yields the same for two tuples.
structure SameResults (tup tup' : List UInt8) : Prop where
  self   : (x.heapTupleSatisfiesSelf tup).1 = (x.heapTupleSatisfiesSelf tup').1
  dirty  : (x.heapTupleSatisfiesDirty tup).1 = (x.heapTupleSatisfiesDirty tup').1
  mvcc   : ∀ snapshot : MvccSnapshot x,
    (snapshot.heapTupleSatisfiesMVCC tup).1 = (snapshot.heapTupleSatisfiesMVCC tup').1
  update : ∀ curcid tSelf, (x.heapTupleSatisfiesUpdate curcid tSelf tup).1 =
    (x.heapTupleSatisfiesUpdate curcid tSelf tup').1
  vacuum : (x.heapTupleSatisfiesVacuumHorizon tup).1 = (x.heapTupleSatisfiesVacuumHorizon tup').1

-- Two backends find out the same about transactions, except for which are their own.
structure Agrees (x' : XactStatus) : Prop where
  inProgress : x'.inProgress = x.inProgress
  didCommit  : x'.didCommit = x.didCommit
  updater    : x'.updater = x.updater
  isRunning  : x'.isRunning = x.isRunning

-- The insertion of a tuple has been aborted, or a transaction below the horizon has deleted it.
def Dead (removable : Nat → Bool) (tup : List UInt8) : Prop :=
  x.insertion tup = .aborted ∨
  ∃ xid, updateXid x.updater tup = some xid ∧ x.fate xid = .committed ∧ removable xid

end XactStatus

-- The snapshot does not count transactions as running that are below the horizon.
def MvccSnapshot.Respects {x : XactStatus} (snapshot : MvccSnapshot x) (removable : Nat → Bool) : Prop :=
  ∀ xid, removable xid → ¬snapshot.contains xid
