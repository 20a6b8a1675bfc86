import Mathlib.Data.Finset.Sort
import PgTde.Page.Header
import PgTde.Page.Reader

-- Sets of attributes. They have attribute numbers less `FirstLowInvalidHeapAttributeNumber` as members.
abbrev Bitmapset := Finset Nat

def firstLowInvalidHeapAttributeNumber : Int := -7
def tableOidAttributeNumber : Int := -6

-- The row type of a relation, with PostgreSQL's `heap_getattr` for the attributes of users. A datum is
-- given by the bytes that `datumIsEqual` compares.
structure TupleDesc where
  heapGetattr : List UInt8 → Nat → Option (List UInt8)
  attlen      : Nat → Int

structure HeapTupleData where
  tTableOid : UInt32
  tData     : List UInt8

def datumGetObjectId (datum : List UInt8) : Nat :=
  ofLittleEndian (datum.take 4)

-- VARATT_IS_EXTERNAL
def varattIsExternal (datum : List UInt8) : Bool :=
  datum[0]? = some 1

-- The only system attribute that is asked for is the table's OID.
def pgTdeGetattr (tupdesc : TupleDesc) (tup : HeapTupleData) (attrnum : Int) : Option (List UInt8) :=
  if attrnum > 0
  then tupdesc.heapGetattr tup.tData attrnum.toNat
  else some (toLittleEndian 4 tup.tTableOid.toNat)

def pgTdeAttrEquals (attrnum : Int) (value1 value2 : Option (List UInt8)) : Bool :=
  match value1, value2 with
  | none, none                 => true
  | none, some _ | some _, none => false
  | some value1, some value2   =>
    if attrnum ≤ 0
    then datumGetObjectId value1 = datumGetObjectId value2
    -- datumIsEqual
    else value1 = value2

structure ColumnsInfo where
  modified    : Bitmapset
  hasExternal : Bool

section

variable (tupdesc : TupleDesc) (externalCols : Bitmapset) (oldtup newtup : HeapTupleData)

-- The body of the loop over the members of `interesting_cols`.
def ColumnsInfo.check (info : ColumnsInfo) (attidx : Nat) : ColumnsInfo :=
  let attrnum : Int := attidx + firstLowInvalidHeapAttributeNumber
  if attrnum = 0 then
    { info with modified := insert attidx info.modified }
  else if attrnum < 0 ∧ attrnum ≠ tableOidAttributeNumber then
    { info with modified := insert attidx info.modified }
  else
    let value1 := pgTdeGetattr tupdesc oldtup attrnum
    let value2 := pgTdeGetattr tupdesc newtup attrnum
    if ¬pgTdeAttrEquals attrnum value1 value2 then
      { info with modified := insert attidx info.modified }
    else
      match value1 with
      | none       => info
      | some datum =>
        if attrnum < 0 ∨ tupdesc.attlen attrnum.toNat ≠ -1 then
          info
        else if varattIsExternal datum ∧ attidx ∈ externalCols then
          { info with hasExternal := true }
        else
          info

def heapDetermineColumnsInfo (interestingCols : Bitmapset) : ColumnsInfo :=
  (interestingCols.sort (· ≤ ·)).foldl (ColumnsInfo.check tupdesc externalCols oldtup newtup)
    { modified := ∅, hasExternal := false }

end

-- The copy of the old tuple that is decrypted into `newPtr`, which is memory from `MemoryContextAlloc`. Only
-- the header is copied first.
def Platform.oldtupDecrypted (P : Platform) (bn : Nat) (key : Block) (newPtr page : Memory) (lp : ItemIdData) :
    Outcome (List UInt8) := do
  let newPtr := newPtr.copy 0 page lp.lpOff (tHoff page lp.lpOff)
  let data ← P.pgTdeCryptTuple bn page lp.lpOff lp.lpLen key
  return (newPtr.write (tHoff newPtr 0) data).read 0 lp.lpLen
