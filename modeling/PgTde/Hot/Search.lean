import PgTde.Library.FirstHit
import PgTde.Index.HotChains

-- The offset number of the tuple that a search of a HOT-chain finds, and `all_dead`.
structure HotSearch where
  found   : Option Nat
  allDead : Bool
  deriving DecidableEq, Repr

namespace Page

-- `satisfies` is the test of visibility for the snapshot, which may set hints.
variable (page : Page) (updater : Nat → Nat) (satisfies : List UInt8 → Bool × List UInt8)
variable (isSurelyDead : List UInt8 → Bool)

-- The loop over the members of the chain. A chain that takes more steps than there are line pointers runs in a
-- circle.
def searchHotChain : Nat → Nat → Nat → Bool → Bool → Bool → Outcome HotSearch
  | 0, _, _, _, _, _ => .error .undefined
  | fuel + 1, offnum, prevXmax, atChainStart, skip, allDead =>
    match page.getItemId offnum with
    | none    => .ok ⟨none, allDead⟩
    | some lp =>
      if ¬lp.isNormal then
        if lp.lpFlags = .redirect ∧ atChainStart
        then searchHotChain fuel lp.lpOff prevXmax false skip allDead
        else .ok ⟨none, allDead⟩
      else
        let heapTuple := page.getItem lp
        if atChainStart ∧ heapTupleHeaderIsHeapOnly heapTuple then
          .ok ⟨none, allDead⟩
        else if prevXmax ≠ invalidTransactionId ∧ prevXmax ≠ heapTupleHeaderGetXmin heapTuple then
          .ok ⟨none, allDead⟩
        else
          let (valid, heapTuple) := if skip then (false, heapTuple) else satisfies heapTuple
          if valid then
            .ok ⟨some offnum, false⟩
          else
            let allDead := allDead && isSurelyDead heapTuple
            if heapTupleHeaderIsHotUpdated heapTuple then
              searchHotChain fuel (ctidOffsetNumber heapTuple)
                (heapTupleHeaderGetUpdateXid updater heapTuple) false false allDead
            else
              .ok ⟨none, allDead⟩

-- A call that is not the first one goes on behind the tuple that the previous call has found.
def pgTdeHotSearchBuffer (offnum : Nat) (firstCall : Bool) : Outcome HotSearch :=
  page.searchHotChain updater satisfies isSurelyDead (page.getMaxOffsetNumber + 1) offnum invalidTransactionId
    firstCall (!firstCall) firstCall

-- The test finds the tuple to be visible.
def Hits (n : Nat) : Prop :=
  ∃ lp, page.getItemId n = some lp ∧ lp.isNormal ∧ (satisfies (page.getItem lp)).1

-- The chain goes on behind the tuple also with the hints that the test has set.
def Follows (n m : Nat) : Prop :=
  page.Linked updater n m ∧ ∀ lp, page.getItemId n = some lp → lp.isNormal →
    heapTupleHeaderIsHotUpdated (satisfies (page.getItem lp)).2

-- The test leaves the link to the next tuple as it is, unless it finds out that there is none.
def KeepsLinks : Prop :=
  ∀ n lp, page.getItemId n = some lp → lp.isNormal →
    heapTupleHeaderIsHotUpdated (satisfies (page.getItem lp)).2 →
      heapTupleHeaderIsHotUpdated (page.getItem lp) ∧
      ctidOffsetNumber (satisfies (page.getItem lp)).2 = ctidOffsetNumber (page.getItem lp) ∧
      heapTupleHeaderGetUpdateXid updater (satisfies (page.getItem lp)).2 =
        heapTupleHeaderGetUpdateXid updater (page.getItem lp)

-- The searches of two pages from a line pointer find the same tuple.
def FindsSame (page' : Page) (n : Nat) : Prop :=
  ∃ r r', page.pgTdeHotSearchBuffer updater satisfies isSurelyDead n true = .ok r ∧
    page'.pgTdeHotSearchBuffer updater satisfies isSurelyDead n true = .ok r' ∧ r'.found = r.found ∧
    ∀ m, r.found = some m → (page'.getItemId m).map page'.getItem = (page.getItemId m).map page.getItem

end Page
