import PgTde.Visibility.Satisfies

-- What is true of a tuple, regardless of the hints that its flags give.

namespace Fate

-- The effects of the transaction count for the backend itself.
def Counts (fate : Fate) : Prop :=
  fate = own ∨ fate = committed

instance : DecidablePred Counts :=
  fun _ => inferInstanceAs (Decidable (_ ∨ _))

end Fate

-- The transaction that has updated or deleted a tuple, if it has not only been locked.
def updateXid (updater : Nat → Nat) (tup : List UInt8) : Option Nat :=
  if heapXmaxIsLockedOnly tup then
    none
  else if heapTupleHas heapXmaxIsMulti tup then
    some (updater (heapTupleHeaderGetRawXmax tup))
  else
    some (heapTupleHeaderGetRawXmax tup)

-- What becomes of the insertion of a tuple, and of its update or deletion. The insertion of a frozen tuple has
-- been committed long ago.
def insertionFate (fate : Nat → Fate) (tup : List UInt8) : Fate :=
  if heapTupleHeaderXminFrozen tup then .committed else fate (heapTupleHeaderGetRawXmin tup)

def deletionFate (fate : Nat → Fate) (updater : Nat → Nat) (tup : List UInt8) : Option Fate :=
  (updateXid updater tup).map fate

namespace XactStatus

variable (x : XactStatus)

def insertion : List UInt8 → Fate :=
  insertionFate x.fate

def deletion : List UInt8 → Option Fate :=
  deletionFate x.fate x.updater

-- Some transaction that has locked or updated the tuple is running.
def xmaxRuns (tup : List UInt8) : Bool :=
  let xmax := heapTupleHeaderGetRawXmax tup
  if heapTupleHas heapXmaxIsMulti tup then x.isRunning xmax (heapXmaxIsLockedOnly tup) else x.inProgress xmax

-- The hints of a tuple are true. The tuple has not been moved by a VACUUM FULL of before 9.0.
structure Truthful (tup : List UInt8) : Prop where
  header        : sizeofHeapTupleHeaderData ≤ tup.length
  not_moved     : ¬heapTupleHas heapMoved tup
  xminCommitted : heapTupleHeaderXminCommitted tup → x.insertion tup = .committed
  xminInvalid   : heapTupleHeaderXminInvalid tup → x.insertion tup = .aborted
  xmaxCommitted : heapTupleHas heapXmaxCommitted tup → ¬heapXmaxIsLockedOnly tup ∧
    ¬heapTupleHas heapXmaxIsMulti tup ∧ x.fate (heapTupleHeaderGetRawXmax tup) = .committed
  xmaxInvalid   : heapTupleHas heapXmaxInvalid tup →
    ¬x.xmaxRuns tup ∧ ∀ fate ∈ x.deletion tup, fate = .aborted
  -- A tuple whose insertion is not committed is updated or deleted by the same transaction only.
  own           : x.insertion tup = .own → ∀ fate ∈ x.deletion tup, fate = .own ∨ fate = .aborted
  -- No member of a multixact of before an upgrade runs.
  upgraded      : heapLockedUpgraded tup → ¬x.xmaxRuns tup

-- A tuple with hints that are true besides those that it has had.
structure Hinted (tup tup' : List UInt8) : Prop where
  truthful : x.Truthful tup'
  stored   : ∃ hints, hints &&& ~~~heapHints = 0 ∧ tup' = storeHints hints tup
  frozen   : heapTupleHeaderXminFrozen tup' = heapTupleHeaderXminFrozen tup

-- The tuple is visible as of now, including the effects of the own transaction.
def VisibleNow (tup : List UInt8) : Prop :=
  (x.insertion tup).Counts ∧ ∀ fate ∈ x.deletion tup, ¬fate.Counts

instance : DecidablePred x.VisibleNow :=
  fun _ => inferInstanceAs (Decidable (_ ∧ _))

end XactStatus

namespace MvccSnapshot

variable {x : XactStatus} (snapshot : MvccSnapshot x)

-- The snapshot sees the insertion of a tuple.
def SeesInsertion (tup : List UInt8) : Prop :=
  let fate := insertionFate snapshot.fate tup
  fate = .committed ∨ fate = .own ∧ x.heapTupleHeaderGetCmin tup < snapshot.curcid

-- The snapshot sees the update or deletion of a tuple.
def SeesDeletion (tup : List UInt8) : Prop :=
  ∃ fate ∈ deletionFate snapshot.fate x.updater tup,
    fate = .committed ∨ fate = .own ∧ x.heapTupleHeaderGetCmax tup < snapshot.curcid

def Visible (tup : List UInt8) : Prop :=
  snapshot.SeesInsertion tup ∧ ¬snapshot.SeesDeletion tup

instance : DecidablePred snapshot.SeesInsertion :=
  fun _ => inferInstanceAs (Decidable (_ ∨ _))

instance : DecidablePred snapshot.SeesDeletion :=
  fun _ => inferInstanceAs (Decidable (∃ fate ∈ _, _))

instance : DecidablePred snapshot.Visible :=
  fun _ => inferInstanceAs (Decidable (_ ∧ _))

end MvccSnapshot
