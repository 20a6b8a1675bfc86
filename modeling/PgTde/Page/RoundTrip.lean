import PgTde.Page.AddItem
import PgTde.Page.Reader

-- A tuple as it is passed to `PGTdePageAddItemExtended`. Its header is at least SizeofHeapTupleHeader long.
structure TupleImage where
  bytes   : List UInt8
  fixed   : sizeofHeapTupleHeader ≤ itemHoff bytes
  hoff_le : itemHoff bytes ≤ bytes.length

namespace TupleImage

def header (tup : TupleImage) : List UInt8 :=
  tup.bytes.take (itemHoff tup.bytes)

def userData (tup : TupleImage) : List UInt8 :=
  tup.bytes.drop (itemHoff tup.bytes)

end TupleImage

-- A page whose items are disjoint from the space that is free.
structure ItemPage extends Page where
  upper_le : pdUpper ≤ blcksz
  items    : ∀ lp ∈ linp, lp.hasStorage → pdUpper ≤ lp.lpOff

-- The tuple can be read back from the page `q` through the line pointer at `off`, and all items of the page
-- before are still there, as they were.
structure Page.ReadsBack (P : Platform) (key : Block) (bn : Nat) (p : Page) (tup : TupleImage) (q : Page)
    (off : Nat) : Prop where
  item   : ∃ lp, q.getItemId off = some lp ∧
    q.mem.read lp.lpOff tup.header.length = tup.header ∧
    P.pgTdeCryptTuple bn q.mem lp.lpOff lp.lpLen key = .ok tup.userData ∧
    ∀ relkind ≠ .toastvalue,
      P.pgTdeExecStoreBufferHeapTuple relkind bn key q.mem lp = .ok tup.bytes ∧
      P.pgTdeExecStorePinnedBufferHeapTuple relkind bn key q.mem lp = .ok tup.bytes
  others : ∀ i lp, p.getItemId i = some lp → lp.hasStorage → ∃ j ≠ off, q.getItemId j = some lp ∧
    q.mem.read lp.lpOff lp.lpLen = p.mem.read lp.lpOff lp.lpLen ∧
    P.pgTdeCryptTuple bn q.mem lp.lpOff lp.lpLen key = P.pgTdeCryptTuple bn p.mem lp.lpOff lp.lpLen key
