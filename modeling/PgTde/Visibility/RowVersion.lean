import PgTde.Library.System
import PgTde.Visibility.Xmax

-- pg_tde_prepare_insert, without the toaster
def pgTdePrepareInsert (xid cid : UInt32) (frozen : Bool) (tup : List UInt8) : List UInt8 :=
  let infomask := tInfomask tup &&& ~~~heapXactMask ||| heapXmaxInvalid
  let infomask := if frozen then infomask ||| heapXminFrozen else infomask
  let infomask2 := tInfomask2 tup &&& ~~~heap2XactMask
  toLittleEndian 4 xid.toNat ++ toLittleEndian 4 0 ++ toLittleEndian 4 cid.toNat ++
    (tup.take 18).drop 12 ++ toLittleEndian 2 infomask2.toNat ++ toLittleEndian 2 infomask.toNat ++ tup.drop 22

-- A version of a row, in the course of the transactions that insert, test, lock and update or delete it.

inductive XactPhase
  | unassigned
  | running (backend : Nat)
  -- The commit log has been updated, but the transaction has not been removed from the array of processes yet.
  | committing (backend : Nat)
  | committed
  | aborted
  deriving DecidableEq, Repr

namespace XactPhase

def inProgress : XactPhase → Bool
  | running _ | committing _ => true
  | _                        => false

def didCommit : XactPhase → Bool
  | committing _ | committed => true
  | _                        => false

end XactPhase

-- What else a backend finds out when it tests a tuple.
structure TestContext where
  unflushed : Nat → Bool
  realCmin  : Nat → Nat
  realCmax  : Nat → Nat

-- The header of the tuple along with the state of transactions and multixacts. The transactions that have updated
-- or deleted, or locked the version are kept in mind.
structure RowVersion where
  phase      : Nat → XactPhase
  members    : MultiXactMembers
  tup        : List UInt8
  updaters   : List Nat
  lockers    : List Nat
  invalid    : phase invalidTransactionId = .aborted
  no_members : members invalidTransactionId = []

namespace RowVersion

variable (s s' : RowVersion)

-- The member of a multixact that has updated, if there is one.
def updater (multi : Nat) : Nat :=
  multiXactIdGetUpdateXid (s.members multi)

-- What the backend `b` finds out.
def view (b : Nat) (context : TestContext) : XactStatus where
  isCurrent xid     := s.phase xid = .running b
  inProgress xid    := (s.phase xid).inProgress
  didCommit xid     := (s.phase xid).didCommit
  updater           := s.updater
  isRunning multi _ := (s.members multi).any fun member => (s.phase member.xid).inProgress
  unflushed         := context.unflushed
  realCmin          := context.realCmin
  realCmax          := context.realCmax
  current           := by
    intro xid h
    rw [of_decide_eq_true h]
    rfl
  invalid           := by
    rw [s.invalid]
    exact ⟨Bool.false_ne_true, Bool.false_ne_true⟩
  no_members        := by
    rw [updater, s.no_members]
    rfl
  runs_updater      := by
    intro multi h
    rw [updater, multiXactIdGetUpdateXid] at h
    cases hf : (s.members multi).find? (·.status.isUpdate)
    case none        =>
      rw [hf, s.invalid] at h
      cases h
    case some member =>
      rw [hf] at h
      exact List.any_eq_true.mpr ⟨member, List.mem_of_find?_eq_some hf, h⟩

-- A test or a wait, and the tuple with the hints that it sets.
inductive Tests (x : XactStatus) (tup : List UInt8) : List UInt8 → Prop
  | self   : Tests x tup (x.heapTupleSatisfiesSelf tup).2
  | toast  : Tests x tup (x.heapTupleSatisfiesToast tup).2
  | dirty  : Tests x tup (x.heapTupleSatisfiesDirty tup).2
  | mvcc (snapshot : MvccSnapshot x) : Tests x tup (snapshot.heapTupleSatisfiesMVCC tup).2
  | update (curcid : Nat) (tSelf : ItemPointer) : Tests x tup (x.heapTupleSatisfiesUpdate curcid tSelf tup).2
  | vacuum : Tests x tup (x.heapTupleSatisfiesVacuumHorizon tup).2
  | waited : ¬heapTupleHas heapXmaxIsMulti tup → ¬x.inProgress (heapTupleHeaderGetRawXmax tup) →
    Tests x tup (x.updateXmaxHintBits tup)

-- The header after its new xmax has been stored, by one of the functions that do so.
inductive Stores (new : NewXmax) (tup : List UInt8) : Bool → List UInt8 → Prop
  | lock {ctid : List UInt8} : new.xmax < 2 ^ 32 → ctid.length = 6 → Stores new tup false (storeLock new ctid tup)
  | delete {change : XmaxChange} {cid : UInt32} {iscombo : Bool} {ctid : List UInt8} :
    new = ⟨change.xmax.toNat, change.infomask, change.infomask2⟩ → ctid.length = 6 →
    Stores new tup true (storeXmax change cid iscombo ctid tup)
  | update {change : XmaxChange} {cid : UInt32} {iscombo : Bool} {ctid : List UInt8} :
    new = ⟨change.xmax.toNat, change.infomask, change.infomask2⟩ → ctid.length = 6 →
    Stores new tup true (storeUpdated change cid iscombo ctid tup)

-- The tuple may be locked: it is visible, and this transaction has not deleted it.
def Lockable (x : XactStatus) (tup : List UInt8) : Prop :=
  ∃ curcid tSelf, (x.heapTupleSatisfiesUpdate curcid tSelf tup).1 ∉ [.invisible, .selfModified]

-- The tuple may be updated or deleted, at once or after other transactions have been waited for.
def Updatable (x : XactStatus) (tup : List UInt8) : Prop :=
  ∃ curcid tSelf, (x.heapTupleSatisfiesUpdate curcid tSelf tup).1 = .ok ∨
    (x.heapTupleSatisfiesUpdate curcid tSelf tup).1 = .beingModified ∧ x.mayOverwrite tup

-- The transaction `xid` of the backend `b` adds itself to t_xmax.
structure AddsToXmax (b : Nat) (context : TestContext) (xid : Nat) (isUpdate : Bool) : Prop where
  running : s.phase xid = .running b
  phase   : s'.phase = s.phase
  locks   : Lockable (s.view b context) s.tup
  updates : isUpdate → Updatable (s.view b context) s.tup
  stores  : ∃ (multis : MultiXacts (s.view b context)) (mode : TupleLock) (new : NewXmax),
    multis.members = s.members ∧ multis.members' = s'.members ∧
    multis.computeNewXmaxInfomask s.tup xid mode isUpdate = .ok new ∧
      Stores new s.tup isUpdate s'.tup

end RowVersion

inductive RowAction
  | start (b xid : Nat)
  -- The top-level transaction of a backend commits, along with its subtransactions.
  | commit (b : Nat)
  | finish (b : Nat)
  -- A transaction aborts, or some of its subtransactions.
  | abort (b : Nat) (xids : List Nat)
  | test (b : Nat)
  | lock (b xid : Nat)
  | update (b xid : Nat)

namespace RowVersion

-- Nothing changes but the phases of transactions.
structure SameRow (s s' : RowVersion) : Prop where
  members  : s'.members = s.members
  tup      : s'.tup = s.tup
  updaters : s'.updaters = s.updaters
  lockers  : s'.lockers = s.lockers

def commit (b : Nat) : XactPhase → XactPhase
  | .running b' => if b' = b then .committing b else .running b'
  | p           => p

def finish (b : Nat) : XactPhase → XactPhase
  | .committing b' => if b' = b then .committed else .committing b'
  | p              => p

def Step (s : RowVersion) : RowAction → RowVersion → Prop
  | .start b xid, s'  => s.phase xid = .unassigned ∧ SameRow s s' ∧
    s'.phase = Function.update s.phase xid (.running b)
  | .commit b, s'     => SameRow s s' ∧ s'.phase = fun xid => commit b (s.phase xid)
  | .finish b, s'     => SameRow s s' ∧ s'.phase = fun xid => finish b (s.phase xid)
  | .abort b xids, s' => (∀ xid ∈ xids, s.phase xid = .running b) ∧ SameRow s s' ∧
    s'.phase = fun xid => if xid ∈ xids then .aborted else s.phase xid
  | .test b, s'       => s'.phase = s.phase ∧ s'.members = s.members ∧ s'.updaters = s.updaters ∧
    s'.lockers = s.lockers ∧ ∃ context, Tests (s.view b context) s.tup s'.tup
  | .lock b xid, s'   => s'.updaters = s.updaters ∧ s'.lockers = xid :: s.lockers ∧
    ∃ context, s.AddsToXmax s' b context xid false
  | .update b xid, s' => s'.updaters = xid :: s.updaters ∧ s'.lockers = xid :: s.lockers ∧
    ∃ context, s.AddsToXmax s' b context xid true

-- No update or deletion of the tuple is running or committed.
structure Replaceable (s : RowVersion) (tup : List UInt8) : Prop where
  locked   : WellLocked s.members tup
  assigned : ∀ u ∈ xmaxXids s.members tup, s.phase u ≠ .unassigned
  aborted  : ∀ u, updateXid s.updater tup = some u → s.phase u = .aborted

-- A tuple that is inserted, or that is the new version of a tuple `old`.
inductive NewTuple (s : RowVersion) : List UInt8 → Prop
  | inserted {tup : List UInt8} (xid cid : UInt32) (frozen : Bool) :
    (∃ b, s.phase xid.toNat = .running b) → sizeofHeapTupleHeaderData ≤ tup.length →
    NewTuple s (pgTdePrepareInsert xid cid frozen tup)
  | updated {old tup : List UInt8} (xid cid xmax : UInt32) (lockersGone : Bool) :
    (∃ b, s.phase xid.toNat = .running b) → sizeofHeapTupleHeaderData ≤ tup.length → Replaceable s old →
    (newVersionXmax s.members lockersGone old).xmax = xmax.toNat →
    NewTuple s (prepareNewtup xid cid xmax (newVersionXmax s.members lockersGone old).infomask
      (newVersionXmax s.members lockersGone old).infomask2 tup)

structure Initial (s : RowVersion) : Prop where
  updaters : s.updaters = []
  lockers  : s.lockers = []
  tuple    : NewTuple s s.tup

def system : System RowVersion RowAction where
  Initial := Initial
  Step    := Step

end RowVersion
