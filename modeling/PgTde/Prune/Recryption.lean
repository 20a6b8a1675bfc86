import PgTde.Library.Traced
import PgTde.Prune.Accepted

open Cint

-- A use of PG_TDE_RE_ENCRYPT_TUPLE_DATA on the tuple at the old offset `readOffset`. Its data length is
-- computed from `len`, the length of the item that the loop is at.
structure Recryption where
  readOffset : Nat
  len        : Nat
  deriving DecidableEq, Repr

namespace Recryption

variable (r : Recryption)

-- The address, in the page or in `scratch`, that is read from and written to.
def start : Nat :=
  r.readOffset + sizeofHeapTupleHeaderData

def dataLen : Nat :=
  uint32 (r.len - sizeofHeapTupleHeaderData)

-- The bytes that are read and written are those of the page, or of the block `scratch`.
def Fits : Prop :=
  r.start + r.dataLen ≤ blcksz

instance : Decidable r.Fits :=
  inferInstanceAs (Decidable (_ ≤ _))

-- The bytes that are read and written are those of the item at the old offset, and of the page, and the data
-- length does not wrap.
def Inside (page : Page) : Prop :=
  r.Fits ∧ r.dataLen + sizeofHeapTupleHeaderData = r.len ∧
  ∃ lp ∈ page.linp, lp.hasStorage ∧ lp.lpOff = r.readOffset ∧ r.start + r.dataLen ≤ lp.lpOff + lp.lpLen

instance (page : Page) : Decidable (r.Inside page) :=
  inferInstanceAs (Decidable (_ ∧ _ ∧ ∃ _ ∈ _, _))

end Recryption

namespace Platform

variable (P : Platform) (bn : Nat) (key : Block)

-- The same functions as in the compaction, along with the re-encryptions that they perform.
abbrev Recrypting := Traced Fault Recryption

def traceRecryptPending (buf : Memory) (s : Compaction) (len : Nat) : Recrypting Memory :=
  if s.copyHead < s.copyTail
  then .perform ⟨s.copyHead, len⟩ (P.recryptTuple bn key buf s.copyHead s.upper len)
  else pure buf

def traceMoveTuples : List ItemIdCompactData → Compaction → Recrypting Compaction
  | [], s => pure s
  | item :: items, s => do
    let mem ← P.traceRecryptPending bn key s.mem s item.len
    let s :=
      if s.copyHead ≠ item.itemoff + item.alignedlen ∧ s.copyHead < s.copyTail then
        { s with
          mem      := mem.copy s.upper mem s.copyHead (s.copyTail - s.copyHead)
          copyTail := item.itemoff + item.alignedlen }
      else
        { s with mem }
    traceMoveTuples items (s.place item)

def traceMoveScratchTuples : List ItemIdCompactData → Compaction → Recrypting Compaction
  | [], s => pure s
  | item :: items, s => do
    let scratch ← P.traceRecryptPending bn key s.scratch s item.len
    let s :=
      if s.copyHead ≠ item.itemoff + item.alignedlen then
        { s with
          scratch
          mem      := s.mem.copy s.upper scratch s.copyHead (s.copyTail - s.copyHead)
          copyTail := item.itemoff + item.alignedlen }
      else
        { s with scratch }
    traceMoveScratchTuples items (s.place item)

-- The loop over the tuples on the page, with the statements that follow it.
def traceFinishPage (items : List ItemIdCompactData) (s : Compaction) : Recrypting Compaction := do
  let s ← P.traceMoveTuples bn key items s
  let mem ← P.traceRecryptPending bn key s.mem s s.itemidptr.len
  return { s with mem := mem.copy s.upper mem s.copyHead (s.copyTail - s.copyHead) }

-- The loop over the copies in `scratch`, with the statements that follow it.
def traceFinishScratch (items : List ItemIdCompactData) (s : Compaction) : Recrypting Compaction := do
  let s ← P.traceMoveScratchTuples bn key items s
  let scratch ← P.traceRecryptPending bn key s.scratch s s.itemidptr.len
  return { s with scratch, mem := s.mem.copy s.upper scratch s.copyHead (s.copyTail - s.copyHead) }

def traceCompactifyTuples (stack : Memory) (itemidbase : List ItemIdCompactData) (page : Page)
    (presorted : Bool) : Recrypting Page :=
  match itemidbase with
  | [] => .lift (.error .undefined)
  | first :: _ =>
    if presorted then do
      let (upper, itemidptr, items) := Compaction.skipInPlace page.pdSpecial first itemidbase
      let copyTail := itemidptr.itemoff + itemidptr.alignedlen
      let s ← P.traceFinishPage bn key items
        { mem := page.mem, scratch := stack, linp := page.linp, upper, copyTail, copyHead := copyTail,
          itemidptr }
      return { page with pdUpper := s.upper, linp := s.linp, mem := s.mem }
    else do
      let (scratch, upper, itemidptr, items) :=
        if itemidbase.length < page.getMaxOffsetNumber / 4 then
          let copyTuple (scratch : Memory) (item : ItemIdCompactData) :=
            scratch.copy item.itemoff page.mem item.itemoff item.alignedlen
          (itemidbase.foldl copyTuple stack, page.pdSpecial, first, itemidbase)
        else
          let (upper, itemidptr, items) := Compaction.skipInPlace page.pdSpecial first itemidbase
          (stack.copy page.pdUpper page.mem page.pdUpper (upper - page.pdUpper), upper, itemidptr, items)
      let copyTail := itemidptr.itemoff + itemidptr.alignedlen
      let s ← P.traceFinishScratch bn key items
        { mem := page.mem, scratch, linp := page.linp, upper, copyTail, copyHead := copyTail, itemidptr }
      return { page with pdUpper := s.upper, linp := s.linp, mem := s.mem }

def traceRepairFragmentation (stack : Memory) (page : Page) : Recrypting Page := do
  let lower := page.pdLower
  let upper := page.pdUpper
  let special := page.pdSpecial
  if lower < sizeOfPageHeaderData ∨ lower > upper ∨ upper > special ∨ special > blcksz ∨
      special ≠ maxalign special then
    Traced.lift <| .error <| .error
      s!"corrupted page pointers: lower = {lower}, upper = {upper}, special = {special}"
  let nline := page.getMaxOffsetNumber
  let s ← Traced.lift <| LineScan.scanItems page 1 page.linp (LineScan.init page)
  let page := { page with linp := s.linp }
  let page ←
    if s.itemidbase.length = 0 then
      pure { page with pdUpper := special }
    else if s.totallen > special - lower then
      Traced.lift <| .error <| .error
        s!"corrupted item lengths: total {s.totallen}, available space {special - lower}"
    else
      P.traceCompactifyTuples bn key stack s.itemidbase page s.presorted
  return { page with
    linp           := page.linp.take s.finalusedlp
    pdHasFreeLines := decide (s.nunused - (nline - s.finalusedlp) > 0) }

end Platform

-- Each re-encryption that `TdePageRepairFragmentation` performs on the page stays inside the tuple.
def TuplePage.RecryptsInside (P : Platform) (bn : Nat) (key : Block) (stack : Memory) (page : TuplePage) :
    Prop :=
  ∀ r ∈ (P.traceRepairFragmentation bn key stack page.toPage).trace, r.Inside page.toPage
