import PgTde.Page.Header
import PgTde.Page.Reader

def toastPointerSize : Nat := 18
def vartagOndisk : UInt8 := 18

-- VARATT_IS_EXTERNAL_ONDISK, for the bytes from a datum on.
def varattIsExternalOndisk (datum : List UInt8) : Bool :=
  datum[0]? = some 1 ∧ datum[1]? = some vartagOndisk

-- Two tuples differ only in what their headers say about transactions.
structure SameAttributes (tup tup' : List UInt8) : Prop where
  nulls : tInfomask tup' &&& heapHasnull = tInfomask tup &&& heapHasnull
  natts : tInfomask2 tup' &&& heapNattsMask = tInfomask2 tup &&& heapNattsMask
  data  : tup'.drop 22 = tup.drop 22

-- PostgreSQL's `heap_deform_tuple` for the row type of a relation. Of the attributes, only those of variable
-- length matter here. They are given by where they start in the tuple, unless they are null.
structure DeformTuple where
  run  : List UInt8 → Outcome (List (Option Nat))
  same : ∀ tup tup', SameAttributes tup tup' → run tup' = run tup
  data : ∀ tup values off, run tup = .ok values → some off ∈ values → itemHoff tup ≤ off

-- The pointer to an external value that a datum is, if it is one.
def toastPointer (tup : List UInt8) (value : Option Nat) : Option (List UInt8) :=
  match value with
  | none     => none
  | some off =>
    if varattIsExternalOndisk (tup.drop off) then some ((tup.drop off).take toastPointerSize) else none

-- What `toast_delete_external` deletes.
def toastDeleteExternal (tup : List UInt8) (values : List (Option Nat)) : List (List UInt8) :=
  values.filterMap (toastPointer tup)

-- What `toast_tuple_init` marks for deletion, and `toast_tuple_cleanup` deletes in the end: the external
-- values that the new tuple does not have as the same attribute.
def toastDeleteOld (oldtup newtup : List UInt8) (oldvalues newvalues : List (Option Nat)) :
    List (List UInt8) :=
  (oldvalues.zip newvalues).filterMap fun (old, new) =>
    match toastPointer oldtup old with
    | none         => none
    | some pointer => if toastPointer newtup new = some pointer then none else some pointer

-- The block number and the offset number that stand for another partition.
def movedPartitions : List UInt8 :=
  itemPointer (2 ^ 32 - 1) 0xFFFD

section

variable (deform : DeformTuple)

def pgTdeToastDelete (oldtup : List UInt8) : Outcome (List (List UInt8)) := do
  let values ← deform.run oldtup
  return toastDeleteExternal oldtup values

-- The part of `pg_tde_toast_insert_or_update` that deletes values of the old tuple.
def pgTdeToastUpdate (newtup oldtup : List UInt8) : Outcome (List (List UInt8)) := do
  let newvalues ← deform.run newtup
  let oldvalues ← deform.run oldtup
  return toastDeleteOld oldtup newtup oldvalues newvalues

variable (relkind : Relkind) (tself : List UInt8)

-- What a deletion makes of the tuple on the page, and the TOAST values that it deletes then.
def pgTdeDelete (change : XmaxChange) (cid : UInt32) (iscombo changingPart : Bool) (tp : List UInt8) :
    Outcome (List (List UInt8)) :=
  let tp := storeXmax change cid iscombo (if changingPart then movedPartitions else tself) tp
  if relkind = .toastvalue then
    .ok []
  else if heapTupleHasExternal tp then
    pgTdeToastDelete deform tp
  else
    .ok []

def pgTdeAbortSpeculative (tp : List UInt8) : Outcome (List (List UInt8)) :=
  let tp := storeKilled tself tp
  if heapTupleHasExternal tp then
    pgTdeToastDelete deform tp
  else
    .ok []

-- The old tuple is locked in its place before the toaster is called with it.
def pgTdeUpdate (change : XmaxChange) (cid : UInt32) (iscombo : Bool) (newtup oldtup : List UInt8) :
    Outcome (List (List UInt8)) :=
  let needToast : Bool :=
    if relkind = .toastvalue then
      false
    else
      heapTupleHasExternal oldtup ∨ heapTupleHasExternal newtup ∨ newtup.length > toastTupleThreshold
  if needToast then
    pgTdeToastUpdate deform newtup (storeXmax change cid iscombo tself oldtup)
  else
    .ok []

end

-- A tuple of a table on a page, with its data encrypted, along with what is read from it.
structure StoredTuple (P : Platform) (deform : DeformTuple) where
  relkind    : Relkind
  ordinary   : relkind ≠ .toastvalue
  key        : Block
  bn         : Nat
  page       : Memory
  offnum     : Nat
  lp         : ItemIdData
  fits       : lp.lpOff + lp.lpLen ≤ blcksz
  header     : sizeofHeapTupleHeaderData ≤ tHoff page lp.lpOff
  hoff_le    : tHoff page lp.lpOff ≤ lp.lpLen
  plain      : List UInt8
  stored     : P.pgTdeExecStoreBufferHeapTuple relkind bn key page lp = .ok plain
  values     : List (Option Nat)
  deformed   : deform.run plain = .ok values
  -- The header says whether there are external values.
  noExternal : ¬heapTupleHasExternal plain → toastDeleteExternal plain values = []

-- The operations that remove a tuple, the last one by replacing it.
inductive TupleRemoval (deform : DeformTuple)
  | delete (change : XmaxChange) (cid : UInt32) (iscombo changingPart : Bool)
  | abortSpeculative
  | update (change : XmaxChange) (cid : UInt32) (iscombo : Bool) (newtup : List UInt8)
      (newvalues : List (Option Nat)) (deformed : deform.run newtup = .ok newvalues)

-- The external values that an operation does not need any more, if it finds the given attributes in the old
-- tuple.
def TupleRemoval.unneeded {deform : DeformTuple} (op : TupleRemoval deform) (oldtup : List UInt8)
    (oldvalues : List (Option Nat)) : List (List UInt8) :=
  match op with
  | .update _ _ _ newtup newvalues _ => toastDeleteOld oldtup newtup oldvalues newvalues
  | _                                => toastDeleteExternal oldtup oldvalues

namespace StoredTuple

variable {P : Platform} {deform : DeformTuple} (t : StoredTuple P deform)

-- The tuple as it is on the page.
def onPage : List UInt8 :=
  t.page.read t.lp.lpOff t.lp.lpLen

-- The TOAST values that an operation deletes, given by the pointers to them.
def deleted : TupleRemoval deform → Outcome (List (List UInt8))
  | .delete change cid iscombo changingPart =>
    pgTdeDelete deform t.relkind (itemPointer t.bn t.offnum) change cid iscombo changingPart t.onPage
  | .abortSpeculative                       =>
    pgTdeAbortSpeculative deform (itemPointer t.bn t.offnum) t.onPage
  | .update change cid iscombo newtup _ _   =>
    pgTdeUpdate deform t.relkind (itemPointer t.bn t.offnum) change cid iscombo newtup t.onPage

-- The operation deletes the values that the plaintext refers to and that are not needed any more.
def DeletesUnneeded (op : TupleRemoval deform) : Prop :=
  t.deleted op = .ok (op.unneeded t.plain t.values)

end StoredTuple
