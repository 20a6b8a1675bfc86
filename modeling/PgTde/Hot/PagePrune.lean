import PgTde.Hot.Theorems.Pruned
import PgTde.Hot.Theorems.Tested

namespace PrunablePage

variable {env : PruneEnv} (page : PrunablePage env) (oldSnapXmin : Nat)

-- The page once its tuples have been tested, and the state that the planning starts with.
def tested : TestedPage :=
  ((testedAbove_init page oldSnapXmin).run (Nat.le_refl _)).testedPage

def testedState : PruneState :=
  (env.testTuples page.getMaxOffsetNumber (page.toPage, .init oldSnapXmin)).2

-- The page whose line pointers have been changed as planned.
def pruned (plan : (page.tested oldSnapXmin).Plan) : HeapPage :=
  (page.tested oldSnapXmin).toHeapPage.pruned plan

-- `pg_tde_page_prune` changes line pointers as planned, and moves the tuples together if there is any change. It
-- does not fail before that.
structure Prunes (plan : (page.tested oldSnapXmin).Plan) (ndeleted : Nat) (s : PruneState) : Prop where
  planned : s.plan = plan.val
  runs    : ∀ (P : Platform) (bn : Nat) (key : Block) (stack : Memory),
    P.pgTdePagePrune env bn key stack oldSnapXmin page.toPage =
    if plan.val.offnums = [] then
      .ok ((page.tested oldSnapXmin).toPage, ndeleted, s)
    else do
      let page ← P.tdePageRepairFragmentation bn key stack (page.pruned oldSnapXmin plan).toPage
      return (page, ndeleted, s)

-- A search of the page later on. What had been finished when the tuples were tested still is. The snapshot does not
-- count any transaction as running that is below the horizon, and where it sees that a tuple has been deleted, it
-- has seen the insertion of it.
structure SeenBy {x : XactStatus} (snapshot : MvccSnapshot x) : Prop where
  updater   : x.updater = page.updater
  committed : ∀ n xid, (env.status n).fate xid = .committed → x.fate xid = .committed
  aborted   : ∀ n xid, (env.status n).fate xid = .aborted → x.fate xid = .aborted
  truthful  : ∀ n lp, page.getItemId n = some lp → lp.isNormal →
    x.Truthful ((page.tested oldSnapXmin).getItem lp)
  respects  : ∀ n, snapshot.Respects (env.removable (page.testedState oldSnapXmin) n)
  special   : ¬snapshot.contains frozenTransactionId
  ordered   : ∀ n lp, page.getItemId n = some lp → lp.isNormal →
    deletionFate snapshot.fate x.updater ((page.tested oldSnapXmin).getItem lp) = some .committed →
    insertionFate snapshot.fate ((page.tested oldSnapXmin).getItem lp) = .committed

end PrunablePage
