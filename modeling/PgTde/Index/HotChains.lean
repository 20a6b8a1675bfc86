import Mathlib.Logic.Relation
import PgTde.Index.RootTuples

-- The HOT-chains of a page, as its items name them.

namespace Page

variable (page : Page) (updater : Nat → Nat)

-- The offset number that an item names as that of the next member of its chain: that of its t_ctid, or of its
-- redirection.
def nextOffset (n : Nat) : Option Nat :=
  match page.getItemId n with
  | none    => none
  | some lp =>
    match lp.lpFlags with
    | .unused | .dead => none
    | .normal         =>
      let htup := page.getItem lp
      if heapTupleHeaderIsHotUpdated htup then some (ctidOffsetNumber htup) else none
    | .redirect       => some lp.lpOff

-- The xmin that the next member has, if it is valid.
def nextXmin (n : Nat) : Nat :=
  match page.getItemId n with
  | none    => invalidTransactionId
  | some lp =>
    if lp.isNormal then heapTupleHeaderGetUpdateXid updater (page.getItem lp) else invalidTransactionId

-- The next member of the chain is a normal tuple whose xmin matches.
structure Linked (n m : Nat) : Prop where
  next  : page.nextOffset n = some m
  tuple : ∃ lp, page.getItemId m = some lp ∧ lp.isNormal ∧
    (page.nextXmin updater n ≠ invalidTransactionId →
      page.nextXmin updater n = heapTupleHeaderGetXmin (page.getItem lp))

-- A plain tuple, or the root tuple of a chain.
def IsRootTuple (n : Nat) : Prop :=
  ∃ lp, page.getItemId n = some lp ∧ lp.isNormal ∧ ¬heapTupleHeaderIsHeapOnly (page.getItem lp)

def IsRedirect (n : Nat) : Prop :=
  ∃ lp, page.getItemId n = some lp ∧ lp.lpFlags = .redirect

-- Item `k` is the plain or root tuple `j`, or a normal tuple that is reached from the root `j`.
def HasRoot (k j : Nat) : Prop :=
  k = j ∧ page.IsRootTuple j ∨
  (page.IsRootTuple j ∨ page.IsRedirect j) ∧ Relation.TransGen (page.Linked updater) j k

-- The map tells the root of each item.
def MapsRoots (rootOffsets : RootOffsets) : Prop :=
  ∀ k ≠ invalidOffsetNumber,
    (∀ j ≠ invalidOffsetNumber, rootOffsets (k - 1) = j ↔ page.HasRoot updater k j) ∧
    (rootOffsets (k - 1) = invalidOffsetNumber ↔ ∀ j, ¬page.HasRoot updater k j)

end Page

-- A page whose HOT-chains are acyclic.
structure HotPage extends HeapPage where
  updater : Nat → Nat
  acyclic : ∀ n, ¬Relation.TransGen (toPage.Linked updater) n n

namespace HotPage

variable (page : HotPage)

-- `pg_tde_get_root_tuples` inspects no other line pointers than those of the page, terminates, and returns
-- the map of the roots.
def FindsRoots : Prop :=
  ∃ rootOffsets, page.pgTdeGetRootTuples page.updater = .ok rootOffsets ∧
    page.MapsRoots page.updater rootOffsets

-- The members of the chains name offset numbers within the array of line pointers only.
def NamesWithin : Prop :=
  ∀ j, page.IsRootTuple j ∨ page.IsRedirect j →
    ∀ n, Relation.ReflTransGen (page.Linked page.updater) j n →
      ∀ m, page.nextOffset n = some m → 1 ≤ m ∧ m ≤ page.getMaxOffsetNumber

-- No item has two roots.
def Disjoint : Prop :=
  ∀ k j j', page.HasRoot page.updater k j → page.HasRoot page.updater k j' → j = j'

end HotPage
