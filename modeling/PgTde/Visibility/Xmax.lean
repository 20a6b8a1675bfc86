import PgTde.Visibility.Truthful

-- LockTupleMode, with the modes of all callers.
inductive TupleLock
  | keyShare
  | share
  | noKeyExclusive
  | exclusive
  deriving DecidableEq, Repr

def TupleLock.strength : TupleLock → Nat
  | keyShare       => 0
  | share          => 1
  | noKeyExclusive => 2
  | exclusive      => 3

inductive MultiXactStatus
  | forKeyShare
  | forShare
  | forNoKeyUpdate
  | forUpdate
  | noKeyUpdate
  | update
  deriving DecidableEq, Repr

namespace MultiXactStatus

-- ISUPDATE_from_mxstatus
def isUpdate : MultiXactStatus → Bool
  | noKeyUpdate | update => true
  | _                    => false

-- TUPLOCK_from_mxstatus
def tupleLock : MultiXactStatus → TupleLock
  | forKeyShare                  => .keyShare
  | forShare                     => .share
  | forNoKeyUpdate | noKeyUpdate => .noKeyExclusive
  | forUpdate | update           => .exclusive

end MultiXactStatus

structure MultiXactMember where
  xid    : Nat
  status : MultiXactStatus
  deriving DecidableEq, Repr

-- GetMultiXactIdMembers
abbrev MultiXactMembers := Nat → List MultiXactMember

-- There is no updating member if InvalidTransactionId is returned.
def multiXactIdGetUpdateXid (members : List MultiXactMember) : Nat :=
  match members.find? (·.status.isUpdate) with
  | none        => invalidTransactionId
  | some member => member.xid

def strongestLock (strongest mode : TupleLock) : TupleLock :=
  if mode.strength > strongest.strength then mode else strongest

-- The flags of t_infomask for a lock of a multixact.
def lockBits : TupleLock → UInt16
  | .exclusive | .noKeyExclusive => heapXmaxExclLock
  | .share                       => heapXmaxShrLock
  | .keyShare                    => heapXmaxKeyshrLock

-- The hint bits of t_infomask and t_infomask2 for a multixact.
def getMultiXactIdHintBits (members : List MultiXactMember) : UInt16 × UInt16 :=
  let strongest := members.foldl (fun strongest member => strongestLock strongest member.status.tupleLock) .keyShare
  let keysUpdated := members.any fun member => member.status = .forUpdate ∨ member.status = .update
  let hasUpdate := members.any (·.status.isUpdate)
  let bits := heapXmaxIsMulti ||| lockBits strongest
  (if hasUpdate then bits else bits ||| heapXmaxLockOnly, if keysUpdated then heapKeysUpdated else 0)

def getMxactStatusForLock (mode : TupleLock) (isUpdate : Bool) : Outcome MultiXactStatus :=
  match mode, isUpdate with
  | .keyShare, false       => .ok .forKeyShare
  | .share, false          => .ok .forShare
  | .noKeyExclusive, false => .ok .forNoKeyUpdate
  | .exclusive, false      => .ok .forUpdate
  | .noKeyExclusive, true  => .ok .noKeyUpdate
  | .exclusive, true       => .ok .update
  | _, true                => .error <| .error "invalid lock tuple mode"

-- The multixacts, and what becomes of them when one is created or expanded. The members of a multixact never
-- change. When it is expanded, those are left out that are of no interest any more. Neither may succeed.
structure MultiXacts (x : XactStatus) where
  members  : MultiXactMembers
  members' : MultiXactMembers
  -- MultiXactIdCreate
  create   : MultiXactMember → MultiXactMember → Outcome Nat
  -- MultiXactIdExpand
  expand   : Nat → MultiXactMember → Outcome Nat
  updater  : ∀ multi, x.updater multi = multiXactIdGetUpdateXid (members multi)
  running  : ∀ multi lockOnly, x.isRunning multi lockOnly = (members multi).any (x.inProgress ·.xid)
  kept     : ∀ multi, members multi ≠ [] → members' multi = members multi
  created  : ∀ m₁ m₂ multi, create m₁ m₂ = .ok multi → (members' multi).Perm [m₁, m₂]
  expanded : ∀ multi m multi', expand multi m = .ok multi' → multi' = multi ∧ m ∈ members multi ∨
    (members' multi').Perm
      (m :: (members multi).filter fun m => x.inProgress m.xid ∨ m.status.isUpdate ∧ x.didCommit m.xid)

-- What `compute_new_xmax_infomask` yields.
structure NewXmax where
  xmax      : Nat
  infomask  : UInt16
  infomask2 : UInt16
  deriving DecidableEq, Repr

-- The members of a multixact, as the flags of a tuple tell about them.
def multiXmax (members : MultiXactMembers) (multi : Nat) : NewXmax where
  xmax      := multi
  infomask  := (getMultiXactIdHintBits (members multi)).1
  infomask2 := (getMultiXactIdHintBits (members multi)).2

-- There has been no locker before.
def newLocker (addToXmax : Nat) (mode : TupleLock) (isUpdate : Bool) : NewXmax where
  xmax      := addToXmax
  infomask  := if isUpdate then 0 else heapXmaxLockOnly ||| lockBits mode
  infomask2 := if mode = .exclusive then heapKeysUpdated else 0

-- The status of the update that t_xmax stands for.
def oldUpdateStatus (tup : List UInt8) : MultiXactStatus :=
  if tInfomask2 tup &&& heapKeysUpdated ≠ 0 then .update else .noKeyUpdate

-- The status of the lock or update that t_xmax stands for. A tuple from before an upgrade may have been locked,
-- without any of the lock bits.
def oldStatus (tup : List UInt8) : Option MultiXactStatus :=
  if heapXmaxIsLockedOnly tup then
    let bits := tInfomask tup &&& heapLockMask
    if bits = heapXmaxKeyshrLock then
      some .forKeyShare
    else if bits = heapXmaxShrLock then
      some .forShare
    else if bits = heapXmaxExclLock then
      some (if tInfomask2 tup &&& heapKeysUpdated ≠ 0 then .forUpdate else .forNoKeyUpdate)
    else
      none
  else
    some (oldUpdateStatus tup)

namespace MultiXacts

variable {x : XactStatus} (multis : MultiXacts x)

def newMulti (multi : Nat) : NewXmax :=
  multiXmax multis.members' multi

-- The updater or locker in t_xmax is preserved, along with the new one.
def createNew (tup : List UInt8) (status : MultiXactStatus) (addToXmax : Nat) (mode : TupleLock)
    (isUpdate : Bool) : Outcome NewXmax := do
  let newStatus ← getMxactStatusForLock mode isUpdate
  return multis.newMulti (← multis.create ⟨heapTupleHeaderGetRawXmax tup, status⟩ ⟨addToXmax, newStatus⟩)

-- The t_xmax and the infomasks for the tuple `tup`, the present ones of which are those in its header. All jumps
-- to the label l5 end in the case that there has been no locker.
def computeNewXmaxInfomask (tup : List UInt8) (addToXmax : Nat) (mode : TupleLock) (isUpdate : Bool) :
    Outcome NewXmax :=
  let xmax := heapTupleHeaderGetRawXmax tup
  if heapTupleHas heapXmaxInvalid tup then
    .ok (newLocker addToXmax mode isUpdate)
  else if heapTupleHas heapXmaxIsMulti tup then
    if heapLockedUpgraded tup then
      .ok (newLocker addToXmax mode isUpdate)
    else if ¬x.isRunning xmax (heapXmaxIsLockedOnly tup) ∧
        (heapXmaxIsLockedOnly tup ∨ ¬x.didCommit (x.updater xmax)) then
      .ok (newLocker addToXmax mode isUpdate)
    else do
      let newStatus ← getMxactStatusForLock mode isUpdate
      return multis.newMulti (← multis.expand xmax ⟨addToXmax, newStatus⟩)
  else if heapTupleHas heapXmaxCommitted tup then
    multis.createNew tup (oldUpdateStatus tup) addToXmax mode isUpdate
  else if x.inProgress xmax then
    match oldStatus tup with
    | none        => .ok (newLocker addToXmax mode isUpdate)
    | some status =>
      -- The stronger one of two locks of the same transaction is the only one present.
      if xmax = addToXmax
      then .ok (newLocker addToXmax (strongestLock mode status.tupleLock) isUpdate)
      else multis.createNew tup status addToXmax mode isUpdate
  else if ¬heapXmaxIsLockedOnly tup ∧ x.didCommit xmax then
    multis.createNew tup (oldUpdateStatus tup) addToXmax mode isUpdate
  else
    .ok (newLocker addToXmax mode isUpdate)

end MultiXacts

-- The xmax for the new version of a tuple that is updated. It is known whether all lockers of the tuple are gone,
-- if they have been checked. Otherwise the only possibility is that they have locked the key.
def newVersionXmax (members : MultiXactMembers) (lockersGone : Bool) (tup : List UInt8) : NewXmax :=
  let xmax := heapTupleHeaderGetRawXmax tup
  if heapTupleHas heapXmaxInvalid tup ∨ heapLockedUpgraded tup ∨ lockersGone ∨ xmax = invalidTransactionId then
    ⟨invalidTransactionId, heapXmaxInvalid, 0⟩
  else if heapTupleHas heapXmaxIsMulti tup then
    multiXmax members xmax
  else
    ⟨xmax, heapXmaxKeyshrLock ||| heapXmaxLockOnly, 0⟩

-- The header of a tuple that has been updated or deleted, or, if only its lock has changed, locked. In the latter
-- case the command id stays, and so do the links to the next version if there is an update.
def storeLock (new : NewXmax) (ctid tup : List UInt8) : List UInt8 :=
  let infomask2 := tInfomask2 tup &&& ~~~heapKeysUpdated ||| new.infomask2
  let infomask := tInfomask tup &&& ~~~heapXmaxBits ||| new.infomask
  let lockOnly := new.infomask &&& heapXmaxLockOnly ≠ 0 ∨
    new.infomask &&& (heapXmaxIsMulti ||| heapLockMask) = heapXmaxExclLock
  let infomask2 := if lockOnly then infomask2 &&& ~~~heapHotUpdated else infomask2
  let ctid := if lockOnly then ctid else (tup.drop 12).take 6
  tup.take 4 ++ toLittleEndian 4 new.xmax ++ (tup.drop 8).take 4 ++ ctid ++
    toLittleEndian 2 infomask2.toNat ++ toLittleEndian 2 infomask.toNat ++ tup.drop 22

namespace XactStatus

variable (x : XactStatus)

-- The transaction `xid` in t_xmax, which is no multixact, has been waited for.
def updateXmaxHintBits (tup : List UInt8) : List UInt8 :=
  let xid := heapTupleHeaderGetRawXmax tup
  if heapTupleHas (heapXmaxCommitted ||| heapXmaxInvalid) tup then
    tup
  else if ¬heapXmaxIsLockedOnly tup ∧ x.didCommit xid then
    x.setHintBits heapXmaxCommitted xid tup
  else
    x.setHintBits heapXmaxInvalid invalidTransactionId tup

-- The check after other transactions have been waited for: the previous xmax may be overwritten if it aborted, or
-- if it only locked the tuple.
def mayOverwrite (tup : List UInt8) : Bool :=
  heapTupleHas heapXmaxInvalid tup ∨ heapXmaxIsLockedOnly tup ∨ x.heapTupleHeaderIsOnlyLocked tup

end XactStatus

-- The transactions that t_xmax stands for.
def xmaxXids (members : MultiXactMembers) (tup : List UInt8) : List Nat :=
  let xmax := heapTupleHeaderGetRawXmax tup
  if heapTupleHas heapXmaxIsMulti tup then (members xmax).map (·.xid) else [xmax]

-- The flags of a tuple tell about its locks what the members of the multixact in t_xmax do. There is one updating
-- member at most.
structure WellLocked (members : MultiXactMembers) (tup : List UInt8) : Prop where
  lock_only : heapTupleHas heapXmaxIsMulti tup →
    (heapXmaxIsLockedOnly tup ↔ ∀ m ∈ members (heapTupleHeaderGetRawXmax tup), ¬m.status.isUpdate)
  nonempty  : heapTupleHas heapXmaxIsMulti tup → members (heapTupleHeaderGetRawXmax tup) ≠ []
  unique    : heapTupleHas heapXmaxIsMulti tup →
    ∀ m₁ ∈ members (heapTupleHeaderGetRawXmax tup), ∀ m₂ ∈ members (heapTupleHeaderGetRawXmax tup),
      m₁.status.isUpdate → m₂.status.isUpdate → m₁.xid = m₂.xid
  lock_bits : ¬heapTupleHas heapXmaxIsMulti tup → oldStatus tup ≠ none
