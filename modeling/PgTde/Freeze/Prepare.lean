import PgTde.Rewrite.Chains
import PgTde.Visibility.Xmax

open Cint

-- Multixact ids are compared modulo 2^32.
def multiXactIdPrecedes (multi₁ multi₂ : Nat) : Bool :=
  int32 (multi₁ - multi₂) < 0

def transactionIdIsNormal (xid : Nat) : Bool :=
  3 ≤ xid

-- The format 0x%04x
def hexDigits (n : Nat) : String :=
  .ofList ((Nat.toDigits 16 n).leftpad 4 '0')

structure VacuumCutoffs where
  relfrozenxid    : Nat
  relminmxid      : Nat
  oldestXmin      : Nat
  oldestMxact     : Nat
  freezeLimit     : Nat
  multiXactCutoff : Nat

-- The trackers of a page: whether it has to be frozen, and the oldest ids that remain if it is frozen or if it is not.
structure HeapPageFreeze where
  freezeRequired           : Bool
  freezePageRelfrozenXid   : Nat
  freezePageRelminMxid     : Nat
  noFreezePageRelfrozenXid : Nat
  noFreezePageRelminMxid   : Nat

-- What is to be done with a multixact, by the flags that `FreezeMultiXactId` returns.
inductive FreezeXmax
  | noop
  | invalidateXmax
  | returnIsXid (xid : Nat) (markCommitted : Bool)
  | returnIsMulti (multi : Nat)

-- The members of a multixact that are of interest.
structure KeptMembers where
  newmembers      : List MultiXactMember
  hasLockers      : Bool
  updateXid       : Nat
  updateCommitted : Bool

-- A freeze plan, with the checks that are to be made before it is executed.
structure FreezePlan extends HeapTupleFreeze where
  checkXminCommitted : Bool
  checkXmaxAborted   : Bool
  totallyFrozen      : Bool
  usable             : Bool

-- What freezing gets to know of transactions and multixacts. The members of a multixact never change, so that they
-- can be told also of one that is yet to be created.
structure FreezeEnv (x : XactStatus) where
  cutoffs : VacuumCutoffs
  members : MultiXactMembers
  -- MultiXactIdCreateFromMembers
  create  : List MultiXactMember → Outcome Nat
  -- The multixact is older than any that might have a running member, if it is used for locking only.
  skips   : Nat → Bool
  invalid : members 0 = []
  updater : ∀ multi, x.updater multi = multiXactIdGetUpdateXid (members multi)
  running : ∀ multi lockOnly, x.isRunning multi lockOnly = (members multi).any (x.inProgress ·.xid)
  small   : ∀ multi, ∀ m ∈ members multi, m.xid < 2 ^ 32
  created : ∀ ms multi, create ms = .ok multi → multi < 2 ^ 32 ∧ (members multi).Perm ms
  skipped : ∀ multi, skips multi → ¬(members multi).any (x.inProgress ·.xid)
  -- Transactions from before the horizon are not running.
  oldest  : ∀ xid, transactionIdPrecedes xid cutoffs.oldestXmin → ¬x.inProgress xid

namespace FreezeEnv

variable {x : XactStatus} (env : FreezeEnv x)

def getMultiXactIdMembers (multi : Nat) (onlyLock : Bool) : List MultiXactMember :=
  if onlyLock ∧ env.skips multi then [] else env.members multi

def runs (_ : FreezeEnv x) (xid : Nat) : Bool :=
  x.isCurrent xid ∨ x.inProgress xid

-- A member is kept, unless it should have been removed by now.
def keep (what : String) (multi : Nat) (m : MultiXactMember) (k : KeptMembers) : Outcome KeptMembers :=
  if transactionIdPrecedes m.xid env.cutoffs.oldestXmin then
    .error <| .error
      s!"multixact {multi} contains {what} XID {m.xid} from before removable cutoff {env.cutoffs.oldestXmin}"
  else
    .ok { k with newmembers := k.newmembers ++ [m] }

-- Lockers are kept if they are running, and updaters unless they have been aborted.
def secondPass (multi : Nat) (k : KeptMembers) (m : MultiXactMember) : Outcome KeptMembers :=
  if ¬m.status.isUpdate then
    if env.runs m.xid then env.keep "running locker" multi m { k with hasLockers := true } else .ok k
  else if k.updateXid ≠ invalidTransactionId then
    .error <| .error s!"multixact {multi} has two or more updating members"
  else if env.runs m.xid then
    env.keep "committed update" multi m { k with updateXid := m.xid }
  else if x.didCommit m.xid then
    env.keep "committed update" multi m { k with updateXid := m.xid, updateCommitted := true }
  else
    .ok k

def keptMembers (multi : Nat) (members : List MultiXactMember) : Outcome KeptMembers :=
  members.foldlM (env.secondPass multi) ⟨[], false, invalidTransactionId, false⟩

-- The multixact is old: no member of it is running.
def freezeOldMulti (multi : Nat) (tup : List UInt8) : Outcome FreezeXmax :=
  if x.isRunning multi (heapXmaxIsLockedOnly tup) then
    .error <| .error
      s!"multixact {multi} from before multi freeze cutoff {env.cutoffs.oldestMxact} found to be still running"
  else if heapXmaxIsLockedOnly tup then
    .ok .invalidateXmax
  else
    let updateXact := x.updater multi
    if transactionIdPrecedes updateXact env.cutoffs.relfrozenxid then
      .error <| .error
        s!"multixact {multi} contains update XID {updateXact} from before relfrozenxid {env.cutoffs.relfrozenxid}"
    else if transactionIdPrecedes updateXact env.cutoffs.oldestXmin then
      if x.didCommit updateXact then
        .error <| .error
          s!"multixact {multi} contains committed update XID {updateXact} from before removable cutoff {env.cutoffs.oldestXmin}"
      else
        .ok .invalidateXmax
    else
      .ok (.returnIsXid updateXact false)

-- Only the members that are still of interest are left.
def replaceMulti (multi : Nat) (members : List MultiXactMember) : Outcome FreezeXmax := do
  let k ← env.keptMembers multi members
  if k.newmembers = [] then
    return .invalidateXmax
  else if k.updateXid ≠ invalidTransactionId ∧ ¬k.hasLockers then
    return .returnIsXid k.updateXid k.updateCommitted
  else
    return .returnIsMulti (← env.create k.newmembers)

def freezeMultiXactId (multi : Nat) (tup : List UInt8) (pagefrz : HeapPageFreeze) :
    Outcome (FreezeXmax × HeapPageFreeze) :=
  let required := { pagefrz with freezeRequired := true }
  if multi = 0 ∨ heapLockedUpgraded tup then
    .ok (.invalidateXmax, required)
  else if multiXactIdPrecedes multi env.cutoffs.relminmxid then
    .error <| .error s!"found multixact {multi} from before relminmxid {env.cutoffs.relminmxid}"
  else if multiXactIdPrecedes multi env.cutoffs.oldestMxact then do
    return (← env.freezeOldMulti multi tup, required)
  else
    let members := env.getMultiXactIdMembers multi (heapXmaxIsLockedOnly tup)
    if members = [] then
      .ok (.invalidateXmax, required)
    else if members.any (fun m => transactionIdPrecedes m.xid env.cutoffs.freezeLimit) ∨
        multiXactIdPrecedes multi env.cutoffs.multiXactCutoff then do
      return (← env.replaceMulti multi members, required)
    else
      .ok (.noop, { pagefrz with
        freezePageRelfrozenXid := members.foldl
          (fun oldest m => if transactionIdPrecedes m.xid oldest then m.xid else oldest) pagefrz.freezePageRelfrozenXid
        freezePageRelminMxid   :=
          if multiXactIdPrecedes multi pagefrz.freezePageRelminMxid then multi else pagefrz.freezePageRelminMxid })

-- An id is noted that is left in a page that is not frozen: whether it must not be, and in the trackers.
def noteXid (xid : Nat) (r : Bool × HeapPageFreeze) : Bool × HeapPageFreeze :=
  (r.1 || transactionIdPrecedes xid env.cutoffs.freezeLimit,
    if transactionIdPrecedes xid r.2.noFreezePageRelfrozenXid
    then { r.2 with noFreezePageRelfrozenXid := xid }
    else r.2)

def noteMulti (_ : FreezeEnv x) (multi : Nat) (freeze : Bool) (r : Bool × HeapPageFreeze) : Bool × HeapPageFreeze :=
  (r.1 || freeze,
    if multiXactIdPrecedes multi r.2.noFreezePageRelminMxid
    then { r.2 with noFreezePageRelminMxid := multi }
    else r.2)

-- The trackers for a page that is not frozen, and whether there is an id that must not be left behind.
def pgTdeTupleShouldFreeze (tup : List UInt8) (pagefrz : HeapPageFreeze) : Bool × HeapPageFreeze :=
  let xmin := heapTupleHeaderGetXmin tup
  let xmax := heapTupleHeaderGetRawXmax tup
  let xvac := heapTupleHeaderGetXvac tup
  let r := if transactionIdIsNormal xmin then env.noteXid xmin (false, pagefrz) else (false, pagefrz)
  let r :=
    if heapTupleHas heapXmaxIsMulti tup then
      if xmax = 0 then
        r
      else if heapLockedUpgraded tup then
        env.noteMulti xmax true r
      else
        (env.getMultiXactIdMembers xmax (heapXmaxIsLockedOnly tup)).foldl (fun r m => env.noteXid m.xid r)
          (env.noteMulti xmax (multiXactIdPrecedes xmax env.cutoffs.multiXactCutoff) r)
    else if transactionIdIsNormal xmax then
      env.noteXid xmax r
    else
      r
  if heapTupleHas heapMoved tup ∧ transactionIdIsNormal xvac then (true, (env.noteXid xvac r).2) else r

-- The new xmax with its flags, and whether it is replaced or frozen.
inductive XmaxPlan
  | kept
  | replaced (xmax : Nat) (infomask infomask2 : UInt16)
  | frozen

-- What happens to t_xmax, and whether it has been frozen before.
def planXmax (tup : List UInt8) (pagefrz : HeapPageFreeze) : Outcome (XmaxPlan × HeapPageFreeze) :=
  let xid := heapTupleHeaderGetRawXmax tup
  let infomask := tInfomask tup &&& ~~~heapXmaxBits
  if heapTupleHas heapXmaxIsMulti tup then do
    let (action, pagefrz) ← env.freezeMultiXactId xid tup pagefrz
    match action with
    | .noop                           => return (.kept, pagefrz)
    | .invalidateXmax                 => return (.frozen, pagefrz)
    | .returnIsXid xmax markCommitted =>
      return (.replaced xmax (if markCommitted then infomask ||| heapXmaxCommitted else infomask) (tInfomask2 tup),
        pagefrz)
    | .returnIsMulti xmax             =>
      let (newbits, newbits2) := getMultiXactIdHintBits (env.members xmax)
      return (.replaced xmax (infomask ||| newbits) (tInfomask2 tup &&& ~~~heapKeysUpdated ||| newbits2), pagefrz)
  else if transactionIdIsNormal xid then
    if transactionIdPrecedes xid env.cutoffs.relfrozenxid then
      .error <| .error s!"found xmax {xid} from before relfrozenxid {env.cutoffs.relfrozenxid}"
    else if transactionIdPrecedes xid env.cutoffs.oldestXmin then
      .ok (.frozen, pagefrz)
    else
      .ok (.kept, pagefrz)
  else if xid = invalidTransactionId then
    .ok (.kept, pagefrz)
  else
    .error <| .error s!"found raw xmax {xid} (infomask 0x{hexDigits (tInfomask tup).toNat}) not invalid and not multi"

-- The flags of t_infomask and t_infomask2, and t_xmax.
def XmaxPlan.header (tup : List UInt8) : XmaxPlan → Nat × UInt16 × UInt16
  | .kept                              => (heapTupleHeaderGetRawXmax tup, tInfomask tup, tInfomask2 tup)
  | .replaced xmax infomask infomask2  => (xmax, infomask, infomask2)
  | .frozen                            => (invalidTransactionId, tInfomask tup &&& ~~~heapXmaxBits ||| heapXmaxInvalid,
    tInfomask2 tup &&& ~~~heapHotUpdated &&& ~~~heapKeysUpdated)

def XmaxPlan.isFrozen : XmaxPlan → Bool
  | .frozen => true
  | _       => false

def XmaxPlan.isKept : XmaxPlan → Bool
  | .kept => true
  | _     => false

def pgTdePrepareFreezeTuple (tup : List UInt8) (pagefrz : HeapPageFreeze) : Outcome (FreezePlan × HeapPageFreeze) :=
  let xmin := heapTupleHeaderGetXmin tup
  let xmax := heapTupleHeaderGetRawXmax tup
  let multi := heapTupleHas heapXmaxIsMulti tup
  if transactionIdIsNormal xmin ∧ transactionIdPrecedes xmin env.cutoffs.relfrozenxid then
    .error <| .error s!"found xmin {xmin} from before relfrozenxid {env.cutoffs.relfrozenxid}"
  else do
    let freezeXmin := transactionIdIsNormal xmin && transactionIdPrecedes xmin env.cutoffs.oldestXmin
    let replaceXvac := transactionIdIsNormal (heapTupleHeaderGetXvac tup)
    let pagefrz := if replaceXvac then { pagefrz with freezeRequired := true } else pagefrz
    let (plan, pagefrz) ← env.planXmax tup pagefrz
    let (newXmax, infomask, infomask2) := plan.header tup
    let xminFrozen := !transactionIdIsNormal xmin
    let xmaxFrozen := !multi && xmax = invalidTransactionId
    let pagefrz :=
      if ¬pagefrz.freezeRequired ∧ ¬(xminFrozen ∧ xmaxFrozen) then
        let (freeze, pagefrz) := env.pgTdeTupleShouldFreeze tup pagefrz
        { pagefrz with freezeRequired := freeze }
      else
        pagefrz
    return ({
      xmax               := .ofNat newXmax
      xvac               :=
        if ¬replaceXvac then
          none
        else if heapTupleHas heapMovedOff tup then
          some (.ofNat invalidTransactionId)
        else
          some (.ofNat frozenTransactionId)
      infomask           := if freezeXmin then infomask ||| heapXminFrozen else infomask
      infomask2          := infomask2
      checkXminCommitted := freezeXmin
      checkXmaxAborted   := !multi && plan.isFrozen && !heapXmaxIsLockedOnly tup
      totallyFrozen      := (freezeXmin || xminFrozen) && (plan.isFrozen || xmaxFrozen)
      usable             := freezeXmin || replaceXvac || !plan.isKept }, pagefrz)

-- The part of `pg_tde_freeze_execute_prepared` that is about a tuple.
def pgTdeFreezeExecutePrepared (_ : FreezeEnv x) (tup : List UInt8) (plan : FreezePlan) : Outcome (List UInt8) :=
  let xmin := heapTupleHeaderGetRawXmin tup
  let xmax := heapTupleHeaderGetRawXmax tup
  if plan.checkXminCommitted ∧ ¬x.didCommit xmin then
    .error <| .error s!"uncommitted xmin {xmin} needs to be frozen"
  else if plan.checkXmaxAborted ∧ x.didCommit xmax then
    .error <| .error s!"cannot freeze committed xmax {xmax}"
  else
    .ok (plan.pgTdeExecuteFreezeTuple tup)

end FreezeEnv
