import Mathlib.Algebra.Order.Ring.Int

inductive XactEvent
  | commit
  | parallelCommit
  | abort
  | parallelAbort
  | prepare
  | preCommit
  | parallelPreCommit
  | prePrepare
  deriving DecidableEq, Repr

inductive SubXactEvent
  | startSub
  | commitSub
  | abortSub
  | preCommitSub
  deriving DecidableEq, Repr

-- The path is only passed on, so its type is left open.
structure PendingFileDelete (α : Type _) where
  path      : α
  atCommit  : Bool
  nestLevel : Nat
  deriving DecidableEq, Repr

-- The list of pending deletes of a backend, and those that led to a file being unlinked, in this order.
structure Deletes (α : Type _) where
  pendingDeletes : List (PendingFileDelete α)
  unlinked       : List (PendingFileDelete α)
  deriving DecidableEq, Repr

namespace Deletes

variable {α : Type _}

def registerFileForDeletion (s : Deletes α) (path : α) (atCommit : Bool) (nestLevel : Nat) :
    Deletes α :=
  { s with pendingDeletes := { path, atCommit, nestLevel } :: s.pendingDeletes }

def doPendingDelete (isCommit : Bool) (nestLevel : Nat) (s : Deletes α)
    (pending : PendingFileDelete α) : Deletes α :=
  if pending.nestLevel < nestLevel then
    -- outer-level entries should not be processed yet
    { s with pendingDeletes := s.pendingDeletes ++ [pending] }
  else if pending.atCommit = isCommit then
    { s with unlinked := s.unlinked ++ [pending] }
  else
    s

def doPendingDeletes (s : Deletes α) (isCommit : Bool) (nestLevel : Nat) : Deletes α :=
  s.pendingDeletes.foldl (doPendingDelete isCommit nestLevel) { s with pendingDeletes := [] }

def pendingDeleteCleanup (s : Deletes α) : Deletes α :=
  { s with pendingDeletes := [] }

def pgTdeXactCallback (s : Deletes α) (event : XactEvent) (nestLevel : Nat) : Deletes α :=
  if event = .parallelAbort ∨ event = .abort then
    s.doPendingDeletes false nestLevel
  else if event = .commit then
    (s.doPendingDeletes true nestLevel).pendingDeleteCleanup
  else if event = .prepare then
    s.pendingDeleteCleanup
  else
    s

def pgTdeSubxactCallback (s : Deletes α) (event : SubXactEvent) (nestLevel : Nat) : Deletes α :=
  if event = .abortSub then s.doPendingDeletes false nestLevel else s

end Deletes
