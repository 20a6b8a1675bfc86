import PgTde.Index.Scan
import PgTde.Prune.Execute

-- What a line pointer is used for. Indexes refer to the one that a chain starts with, also once it is dead.
inductive LineUse
  | unused
  | root
  | heapOnly
  | dead
  deriving DecidableEq, Repr

namespace Page

variable (page page' : Page) (n : Nat)

def itemUse (lp : ItemIdData) : LineUse :=
  match lp.lpFlags with
  | .unused   => .unused
  | .dead     => .dead
  | .redirect => .root
  | .normal   => if heapTupleHeaderIsHeapOnly (page.getItem lp) then .heapOnly else .root

def lineUse : LineUse :=
  (page.getItemId n).elim .unused page.itemUse

-- A new tuple is stored with an unused line pointer.
structure TakesLine (use : LineUse) : Prop where
  free   : page.lineUse n = .unused
  taken  : page'.lineUse n = use
  others : ∀ m ≠ n, page'.lineUse m = page.lineUse m

-- What pruning does to line pointers: chains keep their start, at least as a dead line pointer.
structure PrunedTo : Prop where
  unused   : ∀ n, page.lineUse n = .unused → page'.lineUse n = .unused
  root     : ∀ n, page.lineUse n = .root → page'.lineUse n = .root ∨ page'.lineUse n = .dead
  heapOnly : ∀ n, page.lineUse n = .heapOnly → page'.lineUse n = .heapOnly ∨ page'.lineUse n = .unused
  dead     : ∀ n, page.lineUse n = .dead → page'.lineUse n = .dead

end Page

structure TablePage extends Page where
  few : toPage.getMaxOffsetNumber ≤ maxHeapTuplesPerPage

-- An entry of an index, with the row that it has been made for.
structure IndexTuple where
  tid : ItemPointer
  row : Nat

-- A table and its indexes. The rows are told apart by the order in which they have been inserted.
structure TableState where
  pages   : List TablePage
  indexes : List (List IndexTuple)
  -- The entries that backends are about to insert, with the number of the index.
  pending : List (Nat × IndexTuple)
  -- The row that a line pointer has been taken for most recently.
  rowOf   : ItemPointer → Nat
  rows    : Nat

namespace TableState

variable (t : TableState)

def use (tid : ItemPointer) : LineUse :=
  match t.pages[tid.blkno]? with
  | none      => .unused
  | some page => page.lineUse tid.offnum

def setPage (blkno : Nat) (page : TablePage) : TableState :=
  { t with pages := t.pages.set blkno page }

-- Pruning keeps the tuples whose index entries are about to be inserted, as their transactions are running.
structure PrunesPage (blkno : Nat) (page page' : TablePage) : Prop where
  found  : t.pages[blkno]? = some page
  pruned : page.PrunedTo page'.toPage
  keeps  : ∀ p ∈ t.pending, p.2.tid.blkno = blkno → page'.lineUse p.2.tid.offnum = .root

-- What other backends do to a table, a page or an index at a time.
inductive Step : TableState → TableState → Prop
  | insert {t : TableState} {page page' : TablePage} {tid : ItemPointer} {is : List Nat} :
    t.pages[tid.blkno]? = some page → page.TakesLine page'.toPage tid.offnum .root →
    (∀ i ∈ is, i < t.indexes.length) → Step t { t.setPage tid.blkno page' with
      pending := t.pending ++ is.map (·, ⟨tid, t.rows⟩)
      rowOf   := Function.update t.rowOf tid t.rows
      rows    := t.rows + 1 }
  | updateHot {t : TableState} {page page' : TablePage} {tid : ItemPointer} :
    t.pages[tid.blkno]? = some page → page.TakesLine page'.toPage tid.offnum .heapOnly →
    Step t (t.setPage tid.blkno page')
  -- Such as that a tuple is deleted or locked, or gets hints.
  | change {t : TableState} {page page' : TablePage} {blkno : Nat} : t.pages[blkno]? = some page →
    (∀ n, page'.lineUse n = page.lineUse n) → Step t (t.setPage blkno page')
  | prune {t : TableState} {page page' : TablePage} {blkno : Nat} : t.PrunesPage blkno page page' →
    Step t (t.setPage blkno page')
  | extend {t : TableState} {page : TablePage} : (∀ n, page.lineUse n = .unused) →
    Step t { t with pages := t.pages ++ [page] }
  | insertEntry {t : TableState} {before behind : List (Nat × IndexTuple)} {i : Nat} {e : IndexTuple} :
    t.pending = before ++ (i, e) :: behind →
    Step t { t with indexes := t.indexes.modify i (e :: ·), pending := before ++ behind }
  | abandon {t : TableState} {pending : List (Nat × IndexTuple)} : pending ⊆ t.pending →
    Step t { t with pending := pending }
  | killEntries {t : TableState} {i : Nat} {es es' : List IndexTuple} : t.indexes[i]? = some es → es' ⊆ es →
    Step t { t with indexes := t.indexes.set i es' }

-- The entry refers to the start of a chain, which has been taken for the row that the entry has been made for.
structure Points (e : IndexTuple) : Prop where
  use : t.use e.tid = .root ∨ t.use e.tid = .dead
  row : t.rowOf e.tid = e.row

-- The index has no entry that refers to one of the line pointers.
def Unreferenced (i : Nat) (items : List ItemPointer) : Prop :=
  ∀ es, t.indexes[i]? = some es → ∀ e ∈ es, e.tid ∉ items

end TableState
