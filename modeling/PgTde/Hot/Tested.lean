import PgTde.Hot.Pruned
import PgTde.Visibility.Agreement

open XactStatus

-- The transactions whose deletions are removed: those below the horizon, and below the limit for old snapshots if
-- that has been made use of.
def PruneEnv.removable (env : PruneEnv) (s : PruneState) (n xid : Nat) : Bool :=
  env.isRemovable n xid || (s.oldSnapUsed && transactionIdPrecedes xid s.oldSnapXmin)

-- A page that is to be pruned. The hints of its tuples are true.
structure PrunablePage (env : PruneEnv) extends ChainedPage where
  sameUpdater : env.updater = updater
  updaters    : ∀ n, (env.status n).updater = updater
  truthful    : ∀ n lp, toPage.getItemId n = some lp → lp.isNormal → (env.status n).Truthful (toPage.getItem lp)

-- What the test of a tuple tells about it. A tuple whose insertion has been aborted has got the hint.
structure PruneEnv.Tells (env : PruneEnv) (s : PruneState) (n : Nat) (tup : List UInt8) (res : HTSVResult) : Prop where
  dead         : res = .dead → heapTupleHeaderXminInvalid tup ∨ (env.status n).insertion tup = .committed ∧
    ∃ xid, updateXid (env.status n).updater tup = some xid ∧ (env.status n).fate xid = .committed ∧
      env.removable s n xid
  recentlyDead : res = .recentlyDead → (env.status n).insertion tup = .committed ∧
    (env.status n).deletion tup = some .committed
