import PgTde.Encryption.Tuple
import PgTde.Library.Extent
import PgTde.Library.LittleEndian
import PgTde.Page.Basic
import PgTde.Toast.Release
import PgTde.Toast.Slice

open Cint

-- MaximumBytesPerTuple(TOAST_TUPLES_PER_PAGE_MAIN)
def toastTupleTargetMain : Nat :=
  (blcksz - maxalign (sizeOfPageHeaderData + sizeofItemIdData)) / 8 * 8

-- The macros for values of variable length, on a little-endian machine. A value starts at address zero.
namespace Varlena

variable (value : Memory)

-- VARATT_IS_EXTERNAL, VARATT_IS_SHORT and VARATT_IS_COMPRESSED
def isExternal : Bool :=
  value 0 = 1

def isShort : Bool :=
  (value 0).toNat % 2 = 1

def isCompressed : Bool :=
  (value 0).toNat % 4 = 2

-- VARSIZE and VARSIZE_SHORT
def varsize : Nat :=
  ofLittleEndian (value.read 0 4) / 4

def varsizeShort : Nat :=
  (value 0).toNat / 2

-- VARSIZE_ANY
def varsizeAny : Nat :=
  if isExternal value then
    if value 1 = vartagOndisk then toastPointerSize else 10
  else if isShort value then
    varsizeShort value
  else
    varsize value

-- VARHDRSZ_SHORT, VARHDRSZ_COMPRESSED or VARHDRSZ
def varhdrsz : Nat :=
  if isShort value then 1 else if isCompressed value then 8 else 4

-- The header is part of the value.
def WellFormed : Prop :=
  varhdrsz value ≤ varsizeAny value

end Varlena

inductive Attstorage
  | plain
  | external
  | extended
  | main
  deriving DecidableEq

-- A pointer to a value, which is in the tuple `newtup` or in memory of its own.
inductive ToastDatum
  | inTuple (off : Nat)
  | copy (bytes : List UInt8)
  deriving DecidableEq

namespace ToastDatum

-- The memory that a datum points to.
def memory (newtup : Memory) : ToastDatum → Memory
  | inTuple off => fun i => newtup (off + i)
  | copy bytes  => Memory.zero.write 0 bytes

-- The bytes of the value.
def bytes (newtup : Memory) (datum : ToastDatum) : List UInt8 :=
  (datum.memory newtup).read 0 (Varlena.varsizeAny (datum.memory newtup))

-- Memory that was allocated for a value has its size.
def WellFormed (newtup : Memory) (datum : ToastDatum) : Prop :=
  Varlena.WellFormed (datum.memory newtup) ∧
  match datum with
  | inTuple _  => True
  | copy bytes => Varlena.varsizeAny (datum.memory newtup) = bytes.length

-- Two values do not overlap.
def Apart (newtup : Memory) : ToastDatum → ToastDatum → Prop
  | inTuple off, inTuple off' =>
    Extent.Disjoint ⟨off, ((inTuple off).bytes newtup).length⟩ ⟨off', ((inTuple off').bytes newtup).length⟩
  | _, _                      => True

end ToastDatum

-- An attribute in a `ToastTupleContext`, with the flags TOASTCOL_IGNORE and TOASTCOL_INCOMPRESSIBLE. An
-- attribute that is null or not of variable length has no value.
structure ToastAttr where
  attstorage     : Attstorage
  isnull         : Bool
  value          : Option ToastDatum
  taiSize        : Nat
  ignore         : Bool
  incompressible : Bool
  deriving DecidableEq

-- The values of some attributes are the same in two versions of a tuple.
structure SameValues (attrs : List ToastAttr) (newtup newtup' : Memory) : Prop where
  wellFormed : ∀ attr ∈ attrs, ∀ datum, attr.value = some datum → datum.WellFormed newtup
  bytes      : ∀ attr ∈ attrs, ∀ off, attr.value = some (.inTuple off) →
    ∀ i < ((ToastDatum.inTuple off).bytes newtup).length, newtup' (off + i) = newtup (off + i)

-- An attribute that `toast_tuple_find_biggest_attribute` may find.
structure ToastAttr.Candidate (attr : ToastAttr) (newtup : Memory) (forCompression : Bool) : Prop where
  notIgnored     : attr.ignore = false
  hasValue       : ∃ datum, attr.value = some datum
  notExternal    : ∀ datum, attr.value = some datum → Varlena.isExternal (datum.memory newtup) = false
  compressible   : forCompression = true → attr.incompressible = false
  notCompressed  : forCompression = true → ∀ datum, attr.value = some datum →
    Varlena.isCompressed (datum.memory newtup) = false

-- What the toaster calls outside of this repository, for the row type of a table.
structure ToastRoutines where
  deform          : DeformTuple
  -- `toast_tuple_init`, for the tuples and where their attributes are. Also yields TOAST_HAS_NULLS.
  init            : (newtup : Memory) → (toastValues : List (Option Nat)) →
    (old : Option (List UInt8 × List (Option Nat))) → List ToastAttr × Bool
  -- `heap_compute_data_size`
  computeDataSize : List ToastAttr → Memory → Nat
  -- `toast_tuple_find_biggest_attribute`
  find            : List ToastAttr → Memory → (forCompression checkMain : Bool) → Option Nat
  -- `toast_compress_datum`, with the method of an attribute
  compress        : Nat → List UInt8 → Option (List UInt8)
  -- The pointer that `toast_save_datum` yields for a value with a given header.
  pointer         : Nat → List UInt8 → List UInt8
  -- A value that is not in the tuple was fetched.
  init_copy       : ∀ newtup values old, ∀ attr ∈ (init newtup values old).1, ∀ bytes,
    attr.value = some (.copy bytes) → (ToastDatum.copy bytes).WellFormed newtup
  pointer_wf      : ∀ newtup i bytes, (ToastDatum.copy (pointer i bytes)).WellFormed newtup
  size_congr      : ∀ attrs newtup newtup', SameValues attrs newtup newtup' →
    computeDataSize attrs newtup' = computeDataSize attrs newtup
  find_congr      : ∀ attrs newtup newtup' forCompression checkMain, SameValues attrs newtup newtup' →
    find attrs newtup' forCompression checkMain = find attrs newtup forCompression checkMain
  find_candidate  : ∀ attrs newtup forCompression checkMain i,
    find attrs newtup forCompression checkMain = some i →
    ∃ attr, attrs[i]? = some attr ∧ attr.Candidate newtup forCompression
  compressed      : ∀ newtup i bytes bytes', compress i bytes = some bytes' →
    (ToastDatum.copy bytes').WellFormed newtup ∧
    Varlena.isCompressed ((ToastDatum.copy bytes').memory newtup) = true

-- The options of a table.
structure ToastTable where
  natts          : Nat
  -- RelationGetToastTupleTarget
  toastTarget    : Nat
  -- reltoastrelid is not InvalidOid.
  hasToastTable  : Bool

-- What a call works on: the attributes, the tuples, and what has been passed to `toast_save_datum` so far,
-- that is, pointers and what they pointed to.
structure ToastState where
  attrs  : List ToastAttr
  newtup : Memory
  oldtup : Option (List UInt8)
  saved  : List (ToastDatum × List UInt8)

namespace ToastState

variable (routines : ToastRoutines) (state : ToastState) (i : Nat)

def setAttr (attr : ToastAttr) : ToastState :=
  { state with attrs := state.attrs.set i attr }

-- The attribute with its value.
def attr : Outcome (ToastAttr × ToastDatum) :=
  match state.attrs[i]? with
  | none      => .error .undefined
  | some attr =>
    match attr.value with
    | none       => .error .undefined
    | some datum => .ok (attr, datum)

def toastTupleTryCompression : Outcome ToastState := do
  let (attr, datum) ← state.attr i
  match routines.compress i (datum.bytes state.newtup) with
  | some bytes =>
    return state.setAttr i { attr with value := some (.copy bytes), taiSize := bytes.length }
  | none       =>
    return state.setAttr i { attr with incompressible := true }

def toastTupleExternalize : Outcome ToastState := do
  let (attr, datum) ← state.attr i
  let value := datum.memory state.newtup
  let pointer := routines.pointer i (value.read 0 (Varlena.varhdrsz value))
  return { state.setAttr i { attr with value := some (.copy pointer), ignore := true } with
    saved := state.saved ++ [(datum, datum.bytes state.newtup)] }

-- Writes into the value that an attribute points to.
def writeValue (a : Nat) (bytes : List UInt8) : Outcome ToastState := do
  let (attr, datum) ← state.attr i
  match datum with
  | .inTuple off => return { state with newtup := state.newtup.write (off + a) bytes }
  | .copy value  =>
    let value := ((Memory.zero.write 0 value).write a bytes).read 0 value.length
    return state.setAttr i { attr with value := some (.copy value) }

end ToastState

section

-- The function that pushes a value out of line.
variable (externalize : ToastState → Nat → Outcome ToastState) (routines : ToastRoutines)

-- The loops over the biggest attributes. Each iteration sets one attribute aside, so the fuel lasts.
def toastRound (maxDataLen : Nat) (forCompression checkMain : Bool)
    (body : ToastState → Nat → Outcome ToastState) : Nat → ToastState → Outcome ToastState
  | 0, _            => .error .undefined
  | fuel + 1, state =>
    if routines.computeDataSize state.attrs state.newtup > maxDataLen then
      match routines.find state.attrs state.newtup forCompression checkMain with
      | none               => .ok state
      | some biggestAttno  => do
        let state ← body state biggestAttno
        toastRound maxDataLen forCompression checkMain body fuel state
    else
      .ok state

-- The first part of the first loop's body.
def compressOrSkip (state : ToastState) (i : Nat) : Outcome ToastState := do
  let (attr, _) ← state.attr i
  if attr.attstorage = .extended
  then state.toastTupleTryCompression routines i
  else return state.setAttr i { attr with incompressible := true }

def compressOrExternalize (table : ToastTable) (maxDataLen : Nat) (state : ToastState) (i : Nat) :
    Outcome ToastState := do
  let state ← compressOrSkip routines state i
  let (attr, _) ← state.attr i
  if attr.taiSize > maxDataLen ∧ table.hasToastTable
  then externalize state i
  else return state

-- The loops that push values out of line. There has to be a TOAST table.
def externalRound (table : ToastTable) (maxDataLen : Nat) (checkMain : Bool) (fuel : Nat) (state : ToastState) :
    Outcome ToastState :=
  if table.hasToastTable
  then toastRound routines maxDataLen false checkMain externalize fuel state
  else .ok state

-- The four loops.
def toastRounds (table : ToastTable) (hoff : Nat) (state : ToastState) : Outcome ToastState := do
  let fuel := state.attrs.length + 1
  let maxDataLen := uint64 (table.toastTarget - hoff)
  let state ← toastRound routines maxDataLen true false
    (compressOrExternalize externalize routines table maxDataLen) fuel state
  let state ← externalRound externalize routines table maxDataLen false fuel state
  let state ← toastRound routines maxDataLen true true
    (fun state i => state.toastTupleTryCompression routines i) fuel state
  externalRound externalize routines table (uint64 (toastTupleTargetMain - hoff)) true fuel state

-- The attributes of the new tuple, and where those of the old one are.
def toastPrepare (newtup : Memory) (newLen : Nat) (oldtup : Option (List UInt8)) :
    Outcome (List ToastAttr × Bool) := do
  let toastValues ← routines.deform.run (newtup.read 0 newLen)
  match oldtup with
  | none        => return routines.init newtup toastValues none
  | some oldtup =>
    let toastOldvalues ← routines.deform.run oldtup
    return routines.init newtup toastValues (some (oldtup, toastOldvalues))

-- The toaster up to where the resulting tuple is put together.
def toastInsertOrUpdate (table : ToastTable) (newtup : Memory) (newLen : Nat) (oldtup : Option (List UInt8)) :
    Outcome ToastState := do
  let (attrs, hasNulls) ← toastPrepare routines newtup newLen oldtup
  let hoff := maxalign (sizeofHeapTupleHeader + if hasNulls then (table.natts + 7) / 8 else 0)
  toastRounds externalize routines table hoff { attrs, newtup, oldtup, saved := [] }

-- PostgreSQL's own toaster, which differs in that it does not encrypt.
def heapToastInsertOrUpdate : ToastTable → Memory → Nat → Option (List UInt8) → Outcome ToastState :=
  toastInsertOrUpdate (fun state i => state.toastTupleExternalize routines i) routines

end

section

variable (P : Platform) (key : Block) (routines : ToastRoutines)

-- The key is that of the TOAST table.
def ToastState.pgTdeToastTupleExternalize (state : ToastState) (i : Nat) : Outcome ToastState := do
  let (_, datum) ← state.attr i
  let value := datum.memory state.newtup
  let dataP := Varlena.varhdrsz value
  let dataSize : Int :=
    (if Varlena.isShort value then Varlena.varsizeShort value else Varlena.varsize value) - dataP
  if dataSize < 0 then
    .error <| .error s!"invalid memory alloc request size {uint64 dataSize}"
  let encryptedData ← P.pgTdeToastTupleExternalize key (value.read dataP dataSize.toNat)
  let state ← state.writeValue i dataP encryptedData
  state.toastTupleExternalize routines i

def Platform.pgTdeToastInsertOrUpdate :
    ToastTable → Memory → Nat → Option (List UInt8) → Outcome ToastState :=
  toastInsertOrUpdate (fun state i => state.pgTdeToastTupleExternalize P key routines i) routines

end

-- A call of the toaster, with a new tuple whose values are well formed and do not overlap.
structure ToastCall (routines : ToastRoutines) where
  table    : ToastTable
  newtup   : Memory
  newLen   : Nat
  oldtup   : Option (List UInt8)
  attrs    : List ToastAttr
  hasNulls : Bool
  prepared : toastPrepare routines newtup newLen oldtup = .ok (attrs, hasNulls)
  inTuple  : ∀ attr ∈ attrs, ∀ off, attr.value = some (.inTuple off) →
    (ToastDatum.inTuple off).WellFormed newtup
  apart    : ∀ i j : Nat, i ≠ j → ∀ attr attr' : ToastAttr, attrs[i]? = some attr → attrs[j]? = some attr' →
    ∀ datum datum', attr.value = some datum → attr'.value = some datum' → datum.Apart newtup datum'

namespace ToastCall

variable {routines : ToastRoutines} (call : ToastCall routines) (P : Platform) (key : Block)

-- PostgreSQL's own toaster would pass a value to `toast_save_datum` while it is still in the tuple.
def SavedInPlace (off : Nat) (bytes : List UInt8) : Prop :=
  ∃ final,
    heapToastInsertOrUpdate routines call.table call.newtup call.newLen call.oldtup = .ok final ∧
    (.inTuple off, bytes) ∈ final.saved

-- The call leaves both tuples as they were, and so another one stores the same again.
def Unmodified : Prop :=
  ∃ final,
    P.pgTdeToastInsertOrUpdate key routines call.table call.newtup call.newLen call.oldtup = .ok final ∧
    final.newtup = call.newtup ∧ final.oldtup = call.oldtup ∧
    ∃ again,
      P.pgTdeToastInsertOrUpdate key routines call.table final.newtup call.newLen final.oldtup = .ok again ∧
      again.saved.map Prod.snd = final.saved.map Prod.snd

end ToastCall
