import Mathlib.Logic.Function.Basic
import PgTde.Page.Header
import PgTde.Page.Heap

-- HEAP_ONLY_TUPLE, which is a flag of t_infomask2.
def heapOnlyTuple : UInt16 := 0x8000

-- The flags of t_infomask that concern t_xmin and t_xmax.
def heapXmaxLockOnly : UInt16 := 0x0080
def heapXminInvalid : UInt16 := 0x0200
def heapXminFrozen : UInt16 := 0x0300
def heapXmaxInvalid : UInt16 := 0x0800
def heapXmaxIsMulti : UInt16 := 0x1000

def invalidTransactionId : Nat := 0
def frozenTransactionId : Nat := 2

def heapTupleHeaderIsHeapOnly (tup : List UInt8) : Bool :=
  tInfomask2 tup &&& heapOnlyTuple ≠ 0

-- Both hint bits about t_xmin together stand for a frozen tuple.
def heapTupleHeaderXminFrozen (tup : List UInt8) : Bool :=
  tInfomask tup &&& heapXminFrozen = heapXminFrozen

def heapTupleHeaderXminInvalid (tup : List UInt8) : Bool :=
  tInfomask tup &&& heapXminFrozen = heapXminInvalid

def heapTupleHeaderIsHotUpdated (tup : List UInt8) : Bool :=
  tInfomask2 tup &&& heapHotUpdated ≠ 0 ∧ tInfomask tup &&& heapXmaxInvalid = 0 ∧
    ¬heapTupleHeaderXminInvalid tup

def heapTupleHeaderGetXmin (tup : List UInt8) : Nat :=
  if heapTupleHeaderXminFrozen tup then frozenTransactionId else unsignedAt 4 tup 0

-- `updater` finds the updating member of a multixact, if there is one.
def heapTupleHeaderGetUpdateXid (updater : Nat → Nat) (tup : List UInt8) : Nat :=
  let xmax := unsignedAt 4 tup 4
  if tInfomask tup &&& heapXmaxInvalid = 0 ∧ tInfomask tup &&& heapXmaxIsMulti ≠ 0 ∧
    tInfomask tup &&& heapXmaxLockOnly = 0
  then updater xmax
  else xmax

-- The offset number of t_ctid.
def ctidOffsetNumber (tup : List UInt8) : Nat :=
  unsignedAt 2 tup 16

-- PageGetItem, for the item's length.
def Page.getItem (page : Page) (lp : ItemIdData) : List UInt8 :=
  page.mem.read lp.lpOff lp.lpLen

-- The array `root_offsets`. Unused entries are `InvalidOffsetNumber`.
abbrev RootOffsets := Nat → Nat

namespace Page

variable (page : Page) (updater : Nat → Nat)

-- Follows the HOT-chain of the line pointer `offnum`. The checks in the loop are of `offnum`, and never
-- fail, so that `nextoffnum` may leave the array of line pointers. A chain that takes more steps than there
-- are line pointers runs in a circle, and is followed forever.
def followHotChain (offnum : Nat) : Nat → Nat → Nat → RootOffsets → Outcome RootOffsets
  | 0, _, _, _ => .error .undefined
  | fuel + 1, nextoffnum, priorXmax, rootOffsets =>
    match page.getItemId nextoffnum with
    | none    => .error .undefined
    | some lp =>
      let htup := page.getItem lp
      if ¬lp.isNormal then
        .ok rootOffsets
      else if priorXmax ≠ invalidTransactionId ∧ priorXmax ≠ heapTupleHeaderGetXmin htup then
        .ok rootOffsets
      else
        let rootOffsets := Function.update rootOffsets (nextoffnum - 1) offnum
        if heapTupleHeaderIsHotUpdated htup then
          followHotChain offnum fuel (ctidOffsetNumber htup)
            (heapTupleHeaderGetUpdateXid updater htup) rootOffsets
        else
          .ok rootOffsets

-- The body of the loop over the line pointers.
def collectRootTuple (rootOffsets : RootOffsets) (offnum : Nat) : Outcome RootOffsets :=
  match page.getItemId offnum with
  | none    => .error .undefined
  | some lp =>
    let htup := page.getItem lp
    match lp.lpFlags with
    | .unused | .dead => .ok rootOffsets
    | .normal =>
      if heapTupleHeaderIsHeapOnly htup then
        .ok rootOffsets
      else
        let rootOffsets := Function.update rootOffsets (offnum - 1) offnum
        if heapTupleHeaderIsHotUpdated htup then
          page.followHotChain updater offnum (page.getMaxOffsetNumber + 1) (ctidOffsetNumber htup)
            (heapTupleHeaderGetUpdateXid updater htup) rootOffsets
        else
          .ok rootOffsets
    | .redirect =>
      page.followHotChain updater offnum (page.getMaxOffsetNumber + 1) lp.lpOff
        invalidTransactionId rootOffsets

-- The entry for the offset number `k` is the offset number of the root of its HOT-chain.
def pgTdeGetRootTuples : Outcome RootOffsets :=
  (List.range' 1 page.getMaxOffsetNumber).foldlM (page.collectRootTuple updater)
    fun _ => invalidOffsetNumber

end Page
