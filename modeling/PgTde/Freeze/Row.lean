import PgTde.Freeze.Prepare
import PgTde.Visibility.RowVersion

namespace RowVersion

-- VACUUM freezes the version. It may create a multixact for the members that are left.
structure Freezes (s s' : RowVersion) : Prop where
  phase    : s'.phase = s.phase
  updaters : s'.updaters = s.updaters
  lockers  : s'.lockers = s.lockers
  kept     : ∀ multi, s.members multi ≠ [] → s'.members multi = s.members multi
  frozen   : ∃ (b : Nat) (context : TestContext) (env : FreezeEnv (s'.view b context)) (frz : FreezePlan)
      (pagefrz pagefrz' : HeapPageFreeze),
    env.members = s'.members ∧ env.pgTdePrepareFreezeTuple s.tup pagefrz = .ok (frz, pagefrz') ∧
      env.pgTdeFreezeExecutePrepared s.tup frz = .ok s'.tup

-- A version of a row that is frozen at any time, in the course of the transactions. The step for that is `none`.
def freezingSystem : System RowVersion (Option RowAction) where
  Initial     := Initial
  Step s a s' := match a with
    | none   => s.Freezes s'
    | some a => Step s a s'

end RowVersion
