import PgTde.Transaction.Handler

-- What happens in a (sub)transaction, in this order, up to its end. `commits` tells how a subtransaction
-- ends.
inductive Body
  | done
  | register (path : String) (atCommit : Bool) (rest : Body)
  | sub (inner : Body) (commits : Bool) (rest : Body)
  deriving DecidableEq, Repr

-- Registrations are told apart by their serial numbers. `survives` records whether the (sub)transaction
-- of the registration and all of its ancestors commit.
structure Registration where
  path     : String
  serial   : Nat
  survives : Bool
  deriving DecidableEq, Repr

-- A backend, together with all registrations that there have been in its transaction.
structure Backend extends Deletes Registration where
  registered : List (PendingFileDelete Registration)
  deriving DecidableEq, Repr

namespace Backend

def init : Backend where
  pendingDeletes := []
  unlinked       := []
  registered     := []

def register (s : Backend) (path : String) (atCommit : Bool) (nestLevel : Nat) (survives : Bool) :
    Backend :=
  let path : Registration := { path, serial := s.registered.length, survives }
  { s with
    toDeletes  := s.registerFileForDeletion path atCommit nestLevel
    registered := s.registered ++ [{ path, atCommit, nestLevel }] }

def subxactCallback (s : Backend) (event : SubXactEvent) (nestLevel : Nat) : Backend :=
  { s with toDeletes := s.pgTdeSubxactCallback event nestLevel }

def xactCallback (s : Backend) (event : XactEvent) (nestLevel : Nat) : Backend :=
  { s with toDeletes := s.pgTdeXactCallback event nestLevel }

def endSub (s : Backend) (commits : Bool) (nestLevel : Nat) : Backend :=
  if commits
  then (s.subxactCallback .preCommitSub nestLevel).subxactCallback .commitSub nestLevel
  else s.subxactCallback .abortSub nestLevel

-- Runs through a (sub)transaction at the level `nestLevel`.
def run (nestLevel : Nat) (survives : Bool) : Body → Backend → Backend
  | .done, s                        => s
  | .register path atCommit rest, s => run nestLevel survives rest <|
    s.register path atCommit nestLevel survives
  | .sub inner commits rest, s      =>
    let s := s.subxactCallback .startSub (nestLevel + 1)
    let s := run (nestLevel + 1) (survives && commits) inner s
    run nestLevel survives rest (s.endSub commits (nestLevel + 1))

def endXact (s : Backend) (commits : Bool) : Backend :=
  if commits
  then (s.xactCallback .preCommit 1).xactCallback .commit 1
  else s.xactCallback .abort 1

-- The run of a whole transaction.
def transaction (body : Body) (commits : Bool) : Backend :=
  (run 1 commits body init).endXact commits

-- Files are unlinked once, and exactly if the outcome of their registration's (sub)transaction and its
-- ancestors is the one that they have been registered for. Nothing is left to be done.
structure FollowsOutcome (s : Backend) : Prop where
  done  : s.pendingDeletes = []
  once  : s.unlinked.Nodup
  right : ∀ e ∈ s.registered, e ∈ s.unlinked ↔ e.atCommit = e.path.survives
  own   : ∀ e ∈ s.unlinked, e ∈ s.registered

end Backend

namespace Body

-- The levels of the registrations that survive, the latest first.
def surviving (nestLevel : Nat) (survives : Bool) : Body → List Nat
  | done                => []
  | register _ _ rest   => surviving nestLevel survives rest ++ if survives then [nestLevel] else []
  | sub inner commits rest =>
    surviving nestLevel survives rest ++ surviving (nestLevel + 1) (survives && commits) inner

-- No subtransaction aborts at a level at which, or below which, a registration that survives has been
-- made before it. `before` holds the levels of those registrations.
def NoLateAbort (nestLevel : Nat) (survives : Bool) (before : List Nat) : Body → Prop
  | done                   => True
  | register _ _ rest      =>
    rest.NoLateAbort nestLevel survives ((if survives then [nestLevel] else []) ++ before)
  | sub inner commits rest =>
    inner.NoLateAbort (nestLevel + 1) (survives && commits) before ∧
    (commits ∨ ∀ level ∈ before, level < nestLevel + 1) ∧
    rest.NoLateAbort nestLevel survives
      (inner.surviving (nestLevel + 1) (survives && commits) ++ before)

end Body
