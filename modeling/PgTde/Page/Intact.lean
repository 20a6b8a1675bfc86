import PgTde.Page.AddItem
import PgTde.Page.Heap

-- A tuple with a well-formed header, which is at least of the fixed size and knows its own length.
structure HeapTupleHeader where
  bytes : List UInt8
  size  : sizeofHeapTupleHeaderData ≤ bytes.length
  hoff  : itemHoff bytes = bytes.length

structure HeapTuple where
  header : HeapTupleHeader
  data   : List UInt8

def HeapTuple.tData (tup : HeapTuple) : List UInt8 :=
  tup.header.bytes ++ tup.data

namespace Page

-- The data of a tuple as the page holds it.
def tupleData (page : Page) (lp : ItemIdData) : List UInt8 :=
  let hoff := tHoff page.mem lp.lpOff
  page.mem.read (lp.lpOff + hoff) (lp.lpLen - hoff)

-- A page that is not corrupted and that tuples can be added to.
def WellFormed (page : Page) : Prop :=
  maxalign page.pdUpper = page.pdUpper ∧ ∃ hp : HeapPage, hp.toPage = page

-- The page holds the given data, by the indices of its line pointers.
structure Intact (page : Page) (inserted : Nat → List UInt8) : Prop where
  wellFormed : page.WellFormed
  data       : ∀ (i : Nat) (lp : ItemIdData), page.linp[i]? = some lp → lp.hasStorage →
    page.tupleData lp = inserted i

-- A tuple has been put below all other tuples of a page, with its data as it is.
structure Placed (page : Page) (tup : HeapTuple) (q : Page) (off : Nat) : Prop where
  space   : maxalign tup.tData.length ≤ page.pdUpper
  upper   : q.pdUpper = page.pdUpper - maxalign tup.tData.length
  lower   : q.pdLower ≤ q.pdUpper
  special : q.pdSpecial = page.pdSpecial
  line    : q.getItemId off = some ⟨q.pdUpper, .normal, tup.tData.length⟩
  lines   : ∀ i ≠ off, q.getItemId i = page.getItemId i
  hoff    : tHoff q.mem q.pdUpper = tup.header.bytes.length
  data    : q.mem.read (q.pdUpper + tup.header.bytes.length) tup.data.length = tup.data
  above   : ∀ a ≥ page.pdUpper, q.mem a = page.mem a

end Page
