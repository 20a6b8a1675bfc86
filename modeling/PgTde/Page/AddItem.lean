import PgTde.Page.Basic

open Cint

def invalidOffsetNumber : Nat := 0

-- The header size of a tuple that is not on a page, as a field of its fixed header.
def itemHoff (item : List UInt8) : Nat :=
  (item[22]?.getD 0).toNat

-- The block number and the offset number as `t_ctid` holds them, in little-endian order.
def itemPointer (bn off : Nat) : List UInt8 :=
  let bytes (n : Nat) : List UInt8 := [.ofNat n, .ofNat (n / 256)]
  bytes (bn / 2 ^ 16) ++ bytes bn ++ bytes off

-- What PostgreSQL's `PageAddItemExtended` does to a page when it stores `item` under the offset number
-- `off`.
structure Page.Stored (p : Page) (item : List UInt8) (p' : Page) (off : Nat) : Prop where
  space   : maxalign item.length ≤ p.pdUpper
  upper   : p'.pdUpper = p.pdUpper - maxalign item.length
  lower   : p'.pdLower ≤ p'.pdUpper
  special : p'.pdSpecial = p.pdSpecial
  unused  : ∀ lp, p.getItemId off = some lp → ¬lp.hasStorage
  line    : p'.getItemId off = some ⟨p'.pdUpper, .normal, item.length⟩
  lines   : ∀ i ≠ off, p'.getItemId i = p.getItemId i
  bytes   : p'.mem.read p'.pdUpper item.length = item
  frame   : ∀ a, a < p'.pdUpper ∨ p'.pdUpper + item.length ≤ a → p'.mem a = p.mem a

-- PostgreSQL's `PageAddItemExtended`, without the flag PAI_OVERWRITE and without a given offset number. It
-- yields `InvalidOffsetNumber` when there is no space, and may clear the hint about free line pointers then.
structure PageAddItem where
  run    : Page → List UInt8 → Page × Nat
  failed : ∀ p item, (run p item).2 = invalidOffsetNumber →
    ∃ b, (run p item).1 = { p with pdHasFreeLines := b }
  stored : ∀ p item, (run p item).2 ≠ invalidOffsetNumber →
    p.Stored item (run p item).1 (run p item).2

-- The flags PAI_OVERWRITE and PAI_IS_HEAP.
structure PaiFlags where
  overwrite : Bool
  isHeap    : Bool
  deriving DecidableEq, Repr

-- What `PageAddItemExtended` does, in general, to a page when it stores `item` under the offset number
-- `off`: the line pointers from `off` on may have moved up by one.
structure Page.Added (p : Page) (item : List UInt8) (p' : Page) (off : Nat) : Prop where
  space   : maxalign item.length ≤ p.pdUpper
  upper   : p'.pdUpper = p.pdUpper - maxalign item.length
  lower   : p'.pdLower ≤ p'.pdUpper
  special : p'.pdSpecial = p.pdSpecial
  line    : p'.getItemId off = some ⟨p'.pdUpper, .normal, item.length⟩
  lines   :
    (∀ lp, p.getItemId off = some lp → ¬lp.hasStorage) ∧ (∀ i ≠ off, p'.getItemId i = p.getItemId i) ∨
    (∀ i < off, p'.getItemId i = p.getItemId i) ∧ ∀ i ≥ off, p'.getItemId (i + 1) = p.getItemId i
  bytes   : p'.mem.read p'.pdUpper item.length = item
  frame   : ∀ a, a < p'.pdUpper ∨ p'.pdUpper + item.length ≤ a → p'.mem a = p.mem a

-- The item may be stored under a given offset number without line pointers being moved.
structure Page.Fits (p : Page) (item : List UInt8) (flags : PaiFlags) (off : Nat) : Prop where
  pos     : off ≠ invalidOffsetNumber
  le      : off ≤ p.linp.length + 1
  free    : ∀ lp, p.getItemId off = some lp → ¬lp.isUsed ∧ ¬lp.hasStorage
  count   : flags.isHeap → off ≤ maxHeapTuplesPerPage
  space   : p.pdLower + (if off = p.linp.length + 1 then sizeofItemIdData else 0) + maxalign item.length ≤
    p.pdUpper

-- PostgreSQL's `PageAddItemExtended`. If it fails, it may still clear the hint about free line pointers.
structure PageAddItemExtended where
  run        : (offsetNumber : Nat) → PaiFlags → Page → List UInt8 → Page × Nat
  failed     : ∀ offsetNumber flags p item, (run offsetNumber flags p item).2 = invalidOffsetNumber →
    ∃ b, (run offsetNumber flags p item).1 = { p with pdHasFreeLines := b }
  stored     : ∀ offsetNumber flags p item, (run offsetNumber flags p item).2 ≠ invalidOffsetNumber →
    p.Added item (run offsetNumber flags p item).1 (run offsetNumber flags p item).2
  given      : ∀ offsetNumber flags p item, (run offsetNumber flags p item).2 ≠ invalidOffsetNumber →
    offsetNumber ≠ invalidOffsetNumber → (run offsetNumber flags p item).2 = offsetNumber
  inPlace    : ∀ offsetNumber flags p item, (run offsetNumber flags p item).2 ≠ invalidOffsetNumber →
    offsetNumber = invalidOffsetNumber ∨ flags.overwrite →
    p.Fits item flags (run offsetNumber flags p item).2 ∧
    ∀ i ≠ (run offsetNumber flags p item).2, (run offsetNumber flags p item).1.getItemId i = p.getItemId i
  overwrites : ∀ offsetNumber flags p item, flags.overwrite → p.pdUpper ≤ p.pdSpecial →
    p.pdSpecial ≤ blcksz → p.Fits item flags offsetNumber → (run offsetNumber flags p item).2 = offsetNumber

-- Its use for a tuple that any line pointer will do for.
def PageAddItemExtended.heap (add : PageAddItemExtended) : PageAddItem where
  run    := add.run invalidOffsetNumber { overwrite := false, isHeap := true }
  failed := add.failed _ _
  stored := by
    intro p item h
    have hs := add.stored _ _ p item h
    obtain ⟨hf, hl⟩ := add.inPlace _ _ p item h (.inl rfl)
    exact { hs with unused := fun lp he => (hf.free lp he).2, lines := hl }

namespace Platform

variable (P : Platform) (add : PageAddItem)

-- `run` is PostgreSQL's `PageAddItemExtended`, which the offset number and the flags are passed on to.
def pgTdePageAddItemExtended (run : Page → List UInt8 → Page × Nat) (key : Block) (bn : Nat)
    (page : Page) (item : List UInt8) : Outcome (Page × Nat) := do
  let (page, off) := run page item
  let headerSize := itemHoff item
  let toAddr := page.pdUpper + headerSize
  let dataLen := uint32 (item.length - headerSize)
  let offsetInPage := page.pdUpper
  -- The bytes behind the item's end are none of the item's.
  if item.length < headerSize + dataLen then
    .error .undefined
  let data ← P.encryptPageItem bn offsetInPage ((item.drop headerSize).take dataLen) key
  return ({ page with mem := page.mem.write toAddr data }, off)

-- `token` tells whether the tuple is inserted speculatively.
def pgTdeRelationPutHeapTuple (key : Block) (bn : Nat) (page : Page) (tuple : List UInt8)
    (token : Bool) : Outcome Page := do
  let (page, offnum) ← P.pgTdePageAddItemExtended add.run key bn page tuple
  if offnum = invalidOffsetNumber then
    .error <| .panic "failed to add tuple to page"
  if token then
    return page
  match page.getItemId offnum with
  | some itemId => return { page with mem := page.mem.write (itemId.lpOff + 12) (itemPointer bn offnum) }
  | none        => .error .undefined

end Platform
