import PgTde.Insert.Log
import PgTde.Page.Header

-- The tuple that is rebuilt from a record, with its fixed header.
def redoTuple (xid newXmax : UInt32) (bn offnum : Nat) (xlhdr : XlPgTdeHeader) (data : List UInt8) :
    List UInt8 :=
  toLittleEndian 4 xid.toNat ++ toLittleEndian 4 newXmax.toNat ++ toLittleEndian 4 0 ++
    itemPointer bn offnum ++
    { xlhdr with tInfomask := xlhdr.tInfomask &&& ~~~heapCombocid }.bytes ++ data

section

-- How a tuple is added to the page under a given offset number.
variable (addItem : Nat → Page → List UInt8 → Outcome (Page × Nat)) (xid : UInt32) (bn : Nat)

def invalidMaxOffsetNumber : Fault := .panic "invalid max offset number"

-- XLogInitBufferForRedo and PageInit, or XLogReadBufferForRedo
def bufferForRedo (initPage : Bool) (page : Page) : Page :=
  if initPage then Page.init else page

def redoAddItem (page : Page) (htup : List UInt8) (offnum : Nat) : Outcome Page := do
  let (page, off) ← addItem offnum page htup
  if off = invalidOffsetNumber
  then .error <| .panic "failed to add tuple"
  else return page

-- The first tuple's bytes follow its header, and make up the rest of the data.
def xlogInsertTuple (newXmax : UInt32) (page : Page) (offnum : Nat) (data : List UInt8) : Outcome Page :=
  if page.getMaxOffsetNumber + 1 < offnum then
    .error invalidMaxOffsetNumber
  else
    let htup := redoTuple xid newXmax bn offnum (.ofBytes data 0) (data.drop sizeOfHeapHeader)
    redoAddItem addItem page htup offnum

-- The loop over the tuples of a record. `tupdata` is the position in the data.
def xlogMultiInsertTuples (isinit : Bool) (offsets : List Nat) (data : List UInt8) :
    Nat → (i tupdata : Nat) → Page → Outcome (Page × Nat)
  | 0, _, tupdata, page                => .ok (page, tupdata)
  | remaining + 1, i, tupdata, page =>
    match if isinit then some (1 + i) else offsets[i]? with
    | none        => .error .undefined
    | some offnum =>
      if page.getMaxOffsetNumber + 1 < offnum then
        .error invalidMaxOffsetNumber
      else
        let xlhdr := shortalign tupdata
        let tupdata := xlhdr + sizeOfMultiInsertTuple
        let tuphdr := XlMultiInsertTuple.ofBytes data xlhdr
        let newlen := tuphdr.datalen.toNat
        if data.length < tupdata + newlen then
          .error .undefined
        else do
          let htup := redoTuple xid 0 bn offnum tuphdr.toXlPgTdeHeader ((data.drop tupdata).take newlen)
          let page ← redoAddItem addItem page htup offnum
          xlogMultiInsertTuples isinit offsets data remaining (i + 1) (tupdata + newlen) page

-- `pg_tde_xlog_insert`, `pg_tde_xlog_multi_insert` and the part of `pg_tde_xlog_update` that deals with
-- the new tuple on a page of its own.
def pgTdeRedo (page : Page) : HeapRecord → Outcome Page
  | .insert initPage offnum data              =>
    xlogInsertTuple addItem xid bn 0 (bufferForRedo initPage page) offnum data
  | .multiInsert initPage ntuples offsets data => do
    let (page, tupdata) ← xlogMultiInsertTuples addItem xid bn initPage offsets data ntuples.toNat 0 0
      (bufferForRedo initPage page)
    if tupdata ≠ data.length
    then .error <| .panic "total tuple length mismatch"
    else return page
  | .update initPage newOffnum newXmax data   =>
    xlogInsertTuple addItem xid bn newXmax (bufferForRedo initPage page) newOffnum data

end

def redoFlags : PaiFlags where
  overwrite := true
  isHeap    := true

-- PostgreSQL's redo adds the tuples as they are.
def addItemVerbatim (add : PageAddItemExtended) (offnum : Nat) (page : Page) (htup : List UInt8) :
    Outcome (Page × Nat) :=
  .ok (add.run offnum redoFlags page htup)

-- The handlers of this repository use `TDE_PageAddItem`.
def Platform.tdePageAddItem (P : Platform) (add : PageAddItemExtended) (key : Block) (bn offnum : Nat)
    (page : Page) (htup : List UInt8) : Outcome (Page × Nat) :=
  P.pgTdePageAddItemExtended (add.run offnum redoFlags) key bn page htup
