import PgTde.Page.Basic

open Cint

structure ItemIdCompactData where
  offsetindex : Nat
  itemoff     : Nat
  len         : Nat
  alignedlen  : Nat
  deriving DecidableEq, Repr

-- The variables of the loops in `pgtde_compactify_tuples`.
structure Compaction where
  mem       : Memory
  scratch   : Memory
  linp      : List ItemIdData
  upper     : Nat
  copyTail  : Nat
  copyHead  : Nat
  itemidptr : ItemIdCompactData

namespace Compaction

-- Skips the tuples that already are where they belong. Yields `upper`, `itemidptr` and the tuples from
-- the index `i` on.
def skipInPlace :
    Nat → ItemIdCompactData → List ItemIdCompactData →
    Nat × ItemIdCompactData × List ItemIdCompactData
  | upper, itemidptr, [] => (upper, itemidptr, [])
  | upper, _, item :: items =>
    if upper ≠ item.itemoff + item.alignedlen
    then (upper, item, item :: items)
    else skipInPlace (upper - item.alignedlen) item items

-- Points the line pointer of the current tuple to its new place.
def place (s : Compaction) (item : ItemIdCompactData) : Compaction :=
  let upper := s.upper - item.alignedlen
  { s with
    upper
    copyHead  := item.itemoff
    itemidptr := item
    linp      := s.linp.modify item.offsetindex ({ · with lpOff := upper }) }

end Compaction

namespace Platform

variable (P : Platform)

-- The block "recrypt tuples one by one" of which the source has four copies. The tuple at `copy_head`
-- in `buf` is re-encrypted for its new place `upper`, where `len` is the length of `itemidptr`.
def recryptTuple (bn : Nat) (key : Block) (buf : Memory) (copyHead upper len : Nat) :
    Outcome Memory :=
  let headerSize := sizeofHeapTupleHeaderData
  let dataLen := uint32 (len - headerSize)
  let data := copyHead + headerSize
  if data + dataLen ≤ blcksz
  then P.reEncryptTupleData buf bn copyHead data bn upper data dataLen key
  else .error .undefined

def recryptPending (bn : Nat) (key : Block) (buf : Memory) (s : Compaction) (len : Nat) :
    Outcome Memory :=
  if s.copyHead < s.copyTail
  then P.recryptTuple bn key buf s.copyHead s.upper len
  else .ok buf

-- The loop of the presorted case, which works on the page itself.
def moveTuples (bn : Nat) (key : Block) : List ItemIdCompactData → Compaction → Outcome Compaction
  | [], s => .ok s
  | item :: items, s => do
    let mem ← P.recryptPending bn key s.mem s item.len
    let s :=
      if s.copyHead ≠ item.itemoff + item.alignedlen ∧ s.copyHead < s.copyTail then
        { s with
          mem      := mem.copy s.upper mem s.copyHead (s.copyTail - s.copyHead)
          copyTail := item.itemoff + item.alignedlen }
      else
        { s with mem }
    moveTuples bn key items (s.place item)

-- The loop of the other case, which works on the copies of the tuples in `scratch`.
def moveScratchTuples (bn : Nat) (key : Block) :
    List ItemIdCompactData → Compaction → Outcome Compaction
  | [], s => .ok s
  | item :: items, s => do
    let scratch ← P.recryptPending bn key s.scratch s item.len
    let s :=
      if s.copyHead ≠ item.itemoff + item.alignedlen then
        { s with
          scratch
          mem      := s.mem.copy s.upper scratch s.copyHead (s.copyTail - s.copyHead)
          copyTail := item.itemoff + item.alignedlen }
      else
        { s with scratch }
    moveScratchTuples bn key items (s.place item)

-- `stack` is what the uninitialized local array `scratch` happens to hold.
def pgtdeCompactifyTuples (bn : Nat) (key : Block) (stack : Memory)
    (itemidbase : List ItemIdCompactData) (page : Page) (presorted : Bool) : Outcome Page :=
  match itemidbase with
  | [] => .error .undefined
  | first :: _ =>
    if presorted then do
      let (upper, itemidptr, items) := Compaction.skipInPlace page.pdSpecial first itemidbase
      let copyTail := itemidptr.itemoff + itemidptr.alignedlen
      let s ← P.moveTuples bn key items
        { mem := page.mem, scratch := stack, linp := page.linp, upper, copyTail, copyHead := copyTail,
          itemidptr }
      let mem ← P.recryptPending bn key s.mem s s.itemidptr.len
      return { page with
        pdUpper := s.upper
        linp    := s.linp
        mem     := mem.copy s.upper mem s.copyHead (s.copyTail - s.copyHead) }
    else do
      let (scratch, upper, itemidptr, items) :=
        if itemidbase.length < page.getMaxOffsetNumber / 4 then
          let copyTuple (scratch : Memory) (item : ItemIdCompactData) :=
            scratch.copy item.itemoff page.mem item.itemoff item.alignedlen
          (itemidbase.foldl copyTuple stack, page.pdSpecial, first, itemidbase)
        else
          let (upper, itemidptr, items) := Compaction.skipInPlace page.pdSpecial first itemidbase
          (stack.copy page.pdUpper page.mem page.pdUpper (upper - page.pdUpper), upper, itemidptr, items)
      let copyTail := itemidptr.itemoff + itemidptr.alignedlen
      let s ← P.moveScratchTuples bn key items
        { mem := page.mem, scratch, linp := page.linp, upper, copyTail, copyHead := copyTail, itemidptr }
      let scratch ← P.recryptPending bn key s.scratch s s.itemidptr.len
      return { page with
        pdUpper := s.upper
        linp    := s.linp
        mem     := s.mem.copy s.upper scratch s.copyHead (s.copyTail - s.copyHead) }

end Platform

-- What `TdePageRepairFragmentation` collects in its run through the line pointer array.
structure LineScan where
  linp        : List ItemIdData
  itemidbase  : List ItemIdCompactData
  lastOffset  : Nat
  presorted   : Bool
  totallen    : Nat
  nunused     : Nat
  finalusedlp : Nat

namespace LineScan

-- One iteration, for the line pointer `lp` with the offset number `i`.
def scanItem (page : Page) (s : LineScan) (i : Nat) (lp : ItemIdData) : Outcome LineScan :=
  if lp.isUsed then
    if lp.hasStorage then
      if s.itemidbase.length < maxHeapTuplesPerPage then
        if lp.lpOff < page.pdUpper ∨ lp.lpOff ≥ page.pdSpecial then
          .error <| .error s!"corrupted line pointer: {lp.lpOff}"
        else
          let item :=
            { offsetindex := i - 1, itemoff := lp.lpOff, len := lp.lpLen, alignedlen := maxalign lp.lpLen }
          .ok { s with
            linp        := s.linp ++ [lp]
            itemidbase  := s.itemidbase ++ [item]
            lastOffset  := if s.lastOffset > lp.lpOff then lp.lpOff else s.lastOffset
            presorted   := s.presorted && decide (s.lastOffset > lp.lpOff)
            totallen    := s.totallen + item.alignedlen
            finalusedlp := i }
      else
        .error .undefined
    else
      .ok { s with linp := s.linp ++ [lp], finalusedlp := i }
  else
    .ok { s with linp := s.linp ++ [lp.setUnused], nunused := s.nunused + 1 }

-- The loop `for (i = FirstOffsetNumber; i <= nline; i++)`, from the offset number `i` on.
def scanItems (page : Page) : Nat → List ItemIdData → LineScan → Outcome LineScan
  | _, [], s => .ok s
  | i, lp :: linp, s => do
    let s ← scanItem page s i lp
    scanItems page (i + 1) linp s

def init (page : Page) : LineScan where
  linp        := []
  itemidbase  := []
  lastOffset  := page.pdSpecial
  presorted   := true
  totallen    := 0
  nunused     := 0
  finalusedlp := 0

end LineScan

def Platform.tdePageRepairFragmentation (P : Platform) (bn : Nat) (key : Block) (stack : Memory)
    (page : Page) : Outcome Page := do
  let lower := page.pdLower
  let upper := page.pdUpper
  let special := page.pdSpecial
  if lower < sizeOfPageHeaderData ∨ lower > upper ∨ upper > special ∨ special > blcksz ∨
      special ≠ maxalign special then
    .error <| .error
      s!"corrupted page pointers: lower = {lower}, upper = {upper}, special = {special}"
  let nline := page.getMaxOffsetNumber
  let s ← LineScan.scanItems page 1 page.linp (LineScan.init page)
  let page := { page with linp := s.linp }
  let page ←
    if s.itemidbase.length = 0 then
      .ok { page with pdUpper := special }
    else if s.totallen > special - lower then
      .error <| .error
        s!"corrupted item lengths: total {s.totallen}, available space {special - lower}"
    else
      P.pgtdeCompactifyTuples bn key stack s.itemidbase page s.presorted
  -- The trailing unused line pointers are cut off, and no longer count as unused.
  return { page with
    linp           := page.linp.take s.finalusedlp
    pdHasFreeLines := decide (s.nunused - (nline - s.finalusedlp) > 0) }
