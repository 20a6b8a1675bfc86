import PgTde.Insert.Redo
import PgTde.Library.Keystream
import PgTde.Library.Runs

-- An operation that has put tuples on a page of a heap, and what it has logged.
structure Logged (P : Platform) (routines : InsertRoutines) where
  key       : Block
  bn        : Nat
  before    : Page
  op        : InsertOperation
  after     : Page
  placed    : List (HeapTuple × Nat)
  record    : HeapRecord
  performed : op.perform P routines key bn before = .ok (after, placed, record)
  special   : before.pdSpecial = blcksz
  upper_le  : before.pdUpper ≤ blcksz

namespace Logged

variable {P : Platform} {routines : InsertRoutines} (l : Logged P routines)

-- The page `q` has a tuple at the place where the operation has put it, with the same bytes behind the
-- fixed header, and both pages yield the tuple's data.
structure Reproduces (q : Page) (tup : HeapTuple) (offnum : Nat) (lp : ItemIdData) : Prop where
  primary : l.after.getItemId offnum = some lp
  redo    : q.getItemId offnum = some lp
  len     : lp.lpLen = tup.tData.length
  bytes   : q.mem.read (lp.lpOff + sizeofHeapTupleHeader) (lp.lpLen - sizeofHeapTupleHeader) =
    l.after.mem.read (lp.lpOff + sizeofHeapTupleHeader) (lp.lpLen - sizeofHeapTupleHeader)
  data    : P.pgTdeCryptTuple l.bn l.after.mem lp.lpOff lp.lpLen l.key = .ok tup.data
  data'   : P.pgTdeCryptTuple l.bn q.mem lp.lpOff lp.lpLen l.key = .ok tup.data

-- The new tuples can be read from a page.
def Readable (q : Page) : Prop :=
  ∀ tup offnum, (tup, offnum) ∈ l.placed → ∃ lp, q.getItemId offnum = some lp ∧
    P.pgTdeCryptTuple l.bn q.mem lp.lpOff lp.lpLen l.key = .ok tup.data

end Logged

-- The keystream leaves the data of tuples alone that are put on a page one below the other.
def Keystream.Idle (k : Keystream) (bn : Nat) : (pdUpper : Nat) → List HeapTuple → Prop
  | _, []               => True
  | pdUpper, tup :: rest =>
    let lpOff := pdUpper - maxalign tup.tData.length
    (∀ i < tup.data.length, k (offsetInFile bn lpOff + i) = 0) ∧ k.Idle bn lpOff rest
