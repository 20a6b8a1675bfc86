import PgTde.Library.LittleEndian
import PgTde.Page.Intact
import PgTde.Update.Log

-- SizeOfHeapHeader, SizeOfMultiInsertTuple and SizeOfHeapMultiInsert
def sizeOfHeapHeader : Nat := 5
def sizeOfMultiInsertTuple : Nat := 7
def sizeOfHeapMultiInsert : Nat := 4

def shortalign (n : Nat) : Nat :=
  (n + 1) / 2 * 2

structure XlPgTdeHeader where
  tInfomask2 : UInt16
  tInfomask  : UInt16
  tHoff      : UInt8
  deriving DecidableEq, Repr

structure XlMultiInsertTuple extends XlPgTdeHeader where
  datalen : UInt16
  deriving DecidableEq, Repr

namespace XlPgTdeHeader

def bytes (xlhdr : XlPgTdeHeader) : List UInt8 :=
  toLittleEndian 2 xlhdr.tInfomask2.toNat ++ toLittleEndian 2 xlhdr.tInfomask.toNat ++ [xlhdr.tHoff]

-- The structure whose bytes start at `a`.
def ofBytes (bytes : List UInt8) (a : Nat) : XlPgTdeHeader where
  tInfomask2 := .ofNat (unsignedAt 2 bytes a)
  tInfomask  := .ofNat (unsignedAt 2 bytes (a + 2))
  tHoff      := bytes[a + 4]?.getD 0

-- The fields of a tuple's fixed header.
def ofTuple (tup : List UInt8) : XlPgTdeHeader where
  tInfomask2 := .ofNat (unsignedAt 2 tup 18)
  tInfomask  := .ofNat (unsignedAt 2 tup 20)
  tHoff      := tup[22]?.getD 0

end XlPgTdeHeader

namespace XlMultiInsertTuple

def bytes (xlhdr : XlMultiInsertTuple) : List UInt8 :=
  toLittleEndian 2 xlhdr.datalen.toNat ++ xlhdr.toXlPgTdeHeader.bytes

def ofBytes (bytes : List UInt8) (a : Nat) : XlMultiInsertTuple where
  toXlPgTdeHeader := .ofBytes bytes (a + 2)
  datalen         := .ofNat (unsignedAt 2 bytes a)

end XlMultiInsertTuple

-- What the records of new tuples hold: XLOG_HEAP_INIT_PAGE, the offset numbers, and the data of block 0.
inductive HeapRecord
  | insert (initPage : Bool) (offnum : Nat) (data : List UInt8)
  -- If the page is initialized, the offset numbers are left out.
  | multiInsert (initPage : Bool) (ntuples : UInt16) (offsets : List Nat) (data : List UInt8)
  -- The new tuple is on another page than the old one, so there is no prefix and no suffix.
  | update (initPage : Bool) (newOffnum : Nat) (newXmax : UInt32) (data : List UInt8)

-- What the functions call outside of their own module.
structure InsertRoutines where
  pageAddItem          : PageAddItemExtended
  pageGetHeapFreeSpace : Page → Nat

namespace Platform

variable (P : Platform) (routines : InsertRoutines) (key : Block) (bn : Nat)

-- `pgTdeRelationPutHeapTuple`, along with the offset number that it sets `t_self` to.
def putHeapTuple (page : Page) (heaptup : HeapTuple) (token : Bool) : Outcome (Page × Nat) := do
  let page' ← P.pgTdeRelationPutHeapTuple routines.pageAddItem.heap key bn page heaptup.tData token
  return (page', (routines.pageAddItem.heap.run page heaptup.tData).2)

-- The only tuple of a page, which may be initialized at redo.
def isFirstTuple (page : Page) (offnum : Nat) : Bool :=
  offnum = 1 ∧ page.getMaxOffsetNumber = 1

def pgTdeInsert (page : Page) (heaptup : HeapTuple) (speculative : Bool) :
    Outcome (Page × List (HeapTuple × Nat) × HeapRecord) := do
  let (page, offnum) ← P.putHeapTuple routines key bn page heaptup speculative
  -- register encrypted tuple data from the buffer
  let data := page.mem.read (page.pdUpper + sizeofHeapTupleHeader)
    (heaptup.tData.length - sizeofHeapTupleHeader)
  return (page, [(heaptup, offnum)],
    .insert (isFirstTuple page offnum) offnum ((XlPgTdeHeader.ofTuple heaptup.tData).bytes ++ data))

-- The part of an update that deals with the new tuple, if it goes to another page than the old one.
-- `oldOff` and `oldLen` are not used then.
def pgTdeUpdateNewPage (page : Page) (heaptup : HeapTuple) (newXmax : UInt32) (oldOff oldLen : Nat) :
    Outcome (Page × List (HeapTuple × Nat) × HeapRecord) := do
  let (page, offnum) ← P.putHeapTuple routines key bn page heaptup false
  let record := logPgTdeUpdate false page oldOff oldLen heaptup.tData
  return (page, [(heaptup, offnum)], .update (isFirstTuple page offnum) offnum newXmax
    ((XlPgTdeHeader.ofTuple heaptup.tData).bytes ++ record.data))

-- The tuples that fit on the page besides the first one.
def putHeapTuples (saveFreeSpace : Nat) : Page → List HeapTuple → Outcome (Page × List (HeapTuple × Nat))
  | page, []              => .ok (page, [])
  | page, heaptup :: rest =>
    if routines.pageGetHeapFreeSpace page < maxalign heaptup.tData.length + saveFreeSpace then
      .ok (page, [])
    else do
      let (page, offnum) ← P.putHeapTuple routines key bn page heaptup false
      let (page, placed) ← putHeapTuples saveFreeSpace page rest
      return (page, (heaptup, offnum) :: placed)

end Platform

-- The tuple data from `scratchptr` on. `scratch` is the content of the scratch space before.
def multiInsertData (scratch : Memory) (page : Page) :
    (scratchptr : Nat) → List (HeapTuple × Nat) → Outcome (List UInt8)
  | _, []                            => .ok []
  | scratchptr, (heaptup, offnum) :: rest =>
    match page.getItemId offnum with
    | none    => .error .undefined
    | some lp => do
      let tuphdr := shortalign scratchptr
      let datalen := heaptup.tData.length - sizeofHeapTupleHeader
      let xlhdr : XlMultiInsertTuple :=
        { XlPgTdeHeader.ofTuple heaptup.tData with datalen := .ofNat datalen }
      -- Point to an encrypted tuple data in the Buffer
      let data := page.mem.read (lp.lpOff + sizeofHeapTupleHeader) datalen
      let rest ← multiInsertData scratch page (tuphdr + sizeOfMultiInsertTuple + datalen) rest
      return scratch.read scratchptr (tuphdr - scratchptr) ++ xlhdr.bytes ++ data ++ rest

namespace Platform

variable (P : Platform) (routines : InsertRoutines) (key : Block) (bn : Nat)

-- One iteration of `pg_tde_multi_insert`, for the remaining tuples. The first one fits on the page.
def pgTdeMultiInsert (scratch : Memory) (saveFreeSpace : Nat) (page : Page) (heaptup : HeapTuple)
    (rest : List HeapTuple) : Outcome (Page × List (HeapTuple × Nat) × HeapRecord) := do
  let startingWithEmptyPage : Bool := page.getMaxOffsetNumber = 0
  let (page, offnum) ← P.putHeapTuple routines key bn page heaptup false
  let (page, others) ← P.putHeapTuples routines key bn saveFreeSpace page rest
  let placed := (heaptup, offnum) :: others
  let offsets := if startingWithEmptyPage then [] else placed.map (·.2)
  let tupledata := sizeOfHeapMultiInsert + 2 * offsets.length
  let data ← multiInsertData scratch page tupledata placed
  return (page, placed, .multiInsert startingWithEmptyPage (.ofNat placed.length) offsets data)

end Platform

-- The operations that put new tuples on a page and log them.
inductive InsertOperation
  | insert (heaptup : HeapTuple) (speculative : Bool)
  | multiInsert (scratch : Memory) (saveFreeSpace : Nat) (heaptup : HeapTuple) (rest : List HeapTuple)
  | update (heaptup : HeapTuple) (newXmax : UInt32) (oldOff oldLen : Nat)

-- The page afterwards, the tuples on it that are new, with their offset numbers, and the record.
def InsertOperation.perform (P : Platform) (routines : InsertRoutines) (key : Block) (bn : Nat)
    (page : Page) : InsertOperation → Outcome (Page × List (HeapTuple × Nat) × HeapRecord)
  | .insert heaptup speculative                         =>
    P.pgTdeInsert routines key bn page heaptup speculative
  | .multiInsert scratch saveFreeSpace heaptup rest     =>
    P.pgTdeMultiInsert routines key bn scratch saveFreeSpace page heaptup rest
  | .update heaptup newXmax oldOff oldLen               =>
    P.pgTdeUpdateNewPage routines key bn page heaptup newXmax oldOff oldLen
