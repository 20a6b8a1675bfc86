import PgTde.Transaction.Run

namespace Body

-- The files that a (sub)transaction registers.
def paths : Body → List String
  | done                  => []
  | register path _ rest  => path :: rest.paths
  | sub inner _ rest      => inner.paths ++ rest.paths

end Body

namespace Backend

-- A further transaction of a backend.
def xact (s : Backend) (body : Body) (commits : Bool) : Backend :=
  (run 1 commits body s).endXact commits

-- A transaction that ends in PREPARE TRANSACTION.
def prepareXact (s : Backend) (body : Body) (commits : Bool) : Backend :=
  ((run 1 commits body s).xactCallback .prePrepare 1).xactCallback .prepare 1

end Backend

-- A transaction, the backend that it runs in, and how it ends.
structure Xact (ι : Type) where
  backend : ι
  body    : Body
  commits : Bool

-- A transaction that is prepared, the transactions up to its resolution in any of the backends, and the
-- resolution.
structure PreparedXact (ι : Type) extends Xact ι where
  between  : List (Xact ι)
  resolver : ι
  -- The locks of the prepared transaction are kept, so that no other transaction comes by its files.
  locked   : ∀ x ∈ between, ∀ path ∈ x.body.paths, path ∉ body.paths

section

variable {ι : Type} [DecidableEq ι]

def Xact.finish (s : ι → Backend) (x : Xact ι) : ι → Backend :=
  Function.update s x.backend ((s x.backend).xact x.body x.commits)

-- The key files that have been unlinked by any of the backends.
def unlinkedFiles (s : ι → Backend) : Set String :=
  { path | ∃ b, ∃ e ∈ (s b).unlinked, e.path.path = path }

namespace PreparedXact

variable (x : PreparedXact ι)

-- What follows the end or the preparation of the transaction. COMMIT PREPARED and ROLLBACK PREPARED are
-- statements of the backend `resolver` in a transaction of their own. The extension is not called for the
-- transaction that they resolve.
def followUp (s : Backend) : ι → Backend :=
  let others := x.between.foldl Xact.finish (Function.update (fun _ => .init) x.backend s)
  Xact.finish others { backend := x.resolver, body := .done, commits := true }

def prepared : ι → Backend :=
  x.followUp (Backend.init.prepareXact x.body x.commits)

def plain : ι → Backend :=
  x.followUp (Backend.init.xact x.body x.commits)

-- In the end, the same key files have been unlinked as by a plain COMMIT or ROLLBACK.
def KeepsDeletes : Prop :=
  unlinkedFiles x.prepared = unlinkedFiles x.plain

end PreparedXact

end
