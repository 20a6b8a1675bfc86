import Mathlib.Data.List.DropRight
import PgTde.Page.Heap
import PgTde.Prune.Layout

namespace ItemIdCompactData

def extent (item : ItemIdCompactData) : Extent where
  start := item.itemoff
  len   := item.alignedlen

end ItemIdCompactData

-- A line pointer with storage that is not corrupted. Unused ones should have none, which the source asserts.
structure ItemIdData.Accepted (page : Page) (lp : ItemIdData) : Prop where
  used       : lp.isUsed
  upper_le   : page.pdUpper ≤ lp.lpOff
  lt_special : lp.lpOff < page.pdSpecial

-- A page that passes the checks of `TdePageRepairFragmentation`.
structure AcceptedPage extends Page where
  lower_le        : toPage.pdLower ≤ pdUpper
  upper_le        : pdUpper ≤ pdSpecial
  special_le      : pdSpecial ≤ blcksz
  special_aligned : maxalign pdSpecial = pdSpecial
  lines           : ∀ lp ∈ linp, lp.hasStorage → lp.Accepted toPage
  total_le        : (toPage.storage.map (·.alignedlen)).sum ≤ pdSpecial - toPage.pdLower

-- The items of the page `q` are those of `p`, put one below the other in the order of their line pointers.
structure Page.Defragmented (p q : Page) : Prop where
  special  : q.pdSpecial = p.pdSpecial
  items    : ∀ (i : Nat) lp, p.linp[i]? = some lp → lp.hasStorage →
    ∃ off, q.linp[i]? = some { lp with lpOff := off }
  storage  : q.storage.map (fun item => (item.offsetindex, item.len)) =
    p.storage.map fun item => (item.offsetindex, item.len)
  tiles    : Extent.Tiles q.pdUpper q.pdSpecial (q.storage.map (·.extent))
  disjoint : (q.storage.map (·.extent)).Pairwise Extent.Disjoint
  upper    : q.pdUpper = p.pdSpecial - (p.storage.map (·.alignedlen)).sum
  others   : ∀ (i : Nat) lp, p.linp[i]? = some lp → lp.isUsed → ¬lp.hasStorage → q.linp[i]? = some lp
  lower    : q.pdLower + sizeofItemIdData * (p.linp.rtakeWhile (¬·.isUsed)).length = p.pdLower
  hint     : q.pdHasFreeLines ↔ ∃ lp ∈ q.linp, ¬lp.isUsed

-- The items of an accepted page are disjoint tuples.
structure TuplePage extends AcceptedPage where
  disjoint : linp.Pairwise fun lp₁ lp₂ =>
    lp₁.hasStorage → lp₂.hasStorage → lp₁.extent.Disjoint lp₂.extent
  header   : ∀ lp ∈ linp, lp.hasStorage → sizeofHeapTupleHeaderData ≤ lp.lpLen
