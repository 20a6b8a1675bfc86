import PgTde.Library.Chains
import PgTde.Rewrite.Chains

namespace RewriteRoutines

variable (routines : RewriteRoutines)

-- The tuple that `raw_pg_tde_insert` actually stores for one that is not of a TOAST relation.
def heaptup (tup : List UInt8) : Outcome (List UInt8) :=
  if heapTupleHasExternal tup ∨ tup.length > toastTupleThreshold
  then routines.toastInsertOrUpdate tup
  else .ok tup

-- A page without corrupted boundaries takes an item that there is space for.
structure Adds : Prop where
  space : ∀ page item, page.pdLower ≤ page.pdUpper → page.pdUpper ≤ page.pdSpecial → page.pdSpecial ≤ blcksz →
    0 < item.length → maxalign item.length ≤ routines.pageGetHeapFreeSpace page →
    (routines.pageAddItem.run page item).2 ≠ invalidOffsetNumber
  init  : maxHeapTupleSize ≤ routines.pageGetHeapFreeSpace Page.init

-- The toaster yields a tuple with the t_ctid of its argument.
def KeepsCtid : Prop :=
  ∀ tup tup', routines.toastInsertOrUpdate tup = .ok tup' → (tup'.drop 12).take 6 = (tup.drop 12).take 6

end RewriteRoutines

-- A tuple's xmin is frozen if it is before `freezeXid`, and only then. It stays the version of an update.
structure ChainRoutines.Freezes (routines : ChainRoutines) (freezeXid : Nat) : Prop where
  updated : ∀ tup frz, routines.prepareFreezeTuple tup = some frz →
    frz.infomask &&& heapUpdated = tInfomask tup &&& heapUpdated
  xmin    : ∀ tup frz, routines.prepareFreezeTuple tup = some frz →
    frz.infomask &&& heapXminFrozen = tInfomask tup &&& heapXminFrozen ∨
    frz.infomask &&& heapXminFrozen = heapXminFrozen ∧
      transactionIdPrecedes (heapTupleHeaderGetXmin tup) freezeXid

-- Some bytes for a tuple that fit on a page.
structure FitsOnPage (tup : List UInt8) : Prop where
  header  : sizeofHeapTupleHeaderData ≤ itemHoff tup
  hoff_le : itemHoff tup ≤ tup.length
  size_le : maxalign tup.length ≤ maxHeapTupleSize

def LiveTuple.linked (routines : ChainRoutines) (t : LiveTuple) : Option ItemPointer → List UInt8
  | none     => t.prepared routines
  | some tid => storeCtid (itemPointer tid.blkno tid.offnum) (t.prepared routines)

-- A rewrite of a table or of a materialized view, as its callers make it.
structure TableRewrite where
  routines   : ChainRoutines
  newHeap    : HeapRelation
  oldestXmin : Nat
  freezeXid  : Nat
  calls      : List RewriteCall
  relkind    : newHeap.relkind ≠ .toastvalue
  hashkeys   : (calls.map (·.hashkey)).Nodup
  targets    : ∀ t u, .tuple t ∈ calls → .tuple u ∈ calls → ∀ k, t.target routines = some k →
    u.target routines = some k → t = u
  fits       : ∀ t, .tuple t ∈ calls → ∀ next, ∃ tup,
    routines.heaptup (t.linked routines next) = .ok tup ∧ FitsOnPage tup
  -- A tuple that has been updated is dead, unless the update is recent.
  recent     : ∀ t, .tuple t ∈ calls → ∀ k, t.target routines = some k →
    ¬transactionIdPrecedes k.xmin oldestXmin
  -- The tuple that another one has been updated to has been marked so.
  updated    : ∀ t u, .tuple t ∈ calls → .tuple u ∈ calls → t.target routines = some u.oldTuple.hashkey →
    tInfomask u.oldTuple.tData.bytes &&& heapUpdated ≠ 0
  normal     : 3 ≤ oldestXmin
  cutoffs    : ∀ t, .tuple t ∈ calls →
    transactionIdPrecedes (heapTupleHeaderGetXmin t.oldTuple.tData.bytes) freezeXid →
    transactionIdPrecedes (heapTupleHeaderGetXmin t.oldTuple.tData.bytes) oldestXmin
  freezes    : routines.Freezes freezeXid
  adds       : routines.Adds
  keepsCtid  : routines.KeepsCtid

-- A tuple in the new heap, and the one that its t_ctid points to if it is not the tuple itself.
abbrev NewTuple := Chains.Entry LiveTuple ItemPointer

namespace TableRewrite

variable (r : TableRewrite) (P : Platform)

-- A dead tuple cancels the one that has been updated to it.
def keep (kept : List LiveTuple) : RewriteCall → List LiveTuple
  | .tuple t       => kept ++ [t]
  | .dead oldTuple => kept.filter (·.target r.routines ≠ some oldTuple.hashkey)

def kept : List LiveTuple :=
  r.calls.foldl r.keep []

def Successor (t u : LiveTuple) : Prop :=
  t.target r.routines = some u.oldTuple.hashkey

-- The later versions of the tuple have been presented, up to one that has not been updated.
inductive Complete : LiveTuple → Prop
  | last {t : LiveTuple} : .tuple t ∈ r.calls → t.target r.routines = none → Complete t
  | next {t u : LiveTuple} : .tuple t ∈ r.calls → r.Successor t u → Complete u → Complete t

-- What the user data of a tuple is supposed to be: as it was, unless it is toasted.
def plaintext (e : NewTuple) : Outcome (List UInt8) :=
  let tup := e.item.linked r.routines e.next
  if heapTupleHasExternal tup ∨ tup.length > toastTupleThreshold
  then (r.routines.toastInsertOrUpdate tup).map userData
  else .ok (userData e.item.newTuple.bytes)

def Holds (rel : HeapRelation) (e : NewTuple) : Prop :=
  ∃ page lp data, rel.blocks[e.loc.blkno]? = some page ∧ page.getItemId e.loc.offnum = some lp ∧ lp.isNormal ∧
    page.mem.read (lp.lpOff + 12) 6 = itemPointer (e.next.getD e.loc).blkno (e.next.getD e.loc).offnum ∧
    r.plaintext e = .ok data ∧ P.pgTdeCryptTuple e.loc.blkno page.mem lp.lpOff lp.lpLen rel.key = .ok data

-- Each tuple points to its successor if that one has been written, as far as `p` holds of the successor.
def LinksTo (p : LiveTuple → Prop) (written : List NewTuple) : Prop :=
  ∀ e ∈ written,
    (∀ u ∈ written, r.Successor e.item u.item → p u.item → e.next = some u.loc) ∧
    ((∀ u ∈ written, r.Successor e.item u.item → ¬p u.item) → e.next = none)

-- The new heap has all of the tuples, and nothing else.
structure Rewritten (rel : HeapRelation) (p : LiveTuple → Prop) (written : List NewTuple) : Prop where
  key    : rel.key = r.newHeap.key
  before : r.newHeap.blocks <+: rel.blocks
  once   : (written.map (·.item)).Perm r.kept
  apart  : (written.map (·.loc)).Nodup
  behind : ∀ e ∈ written, r.newHeap.blocks.length ≤ e.loc.blkno
  holds  : ∀ e ∈ written, r.Holds P rel e
  only   : ∀ bn page off lp, r.newHeap.blocks.length ≤ bn → rel.blocks[bn]? = some page →
    page.getItemId off = some lp → ⟨bn, off⟩ ∈ written.map (·.loc)
  links  : r.LinksTo p written

-- The rewrite comes to an end, with all of the tuples in the new heap.
def Preserves (p : LiveTuple → Prop) : Prop :=
  ∃ rel written, rewriteHeap P r.routines r.newHeap r.oldestXmin r.calls = .ok rel ∧
    r.Rewritten P rel p written

end TableRewrite
