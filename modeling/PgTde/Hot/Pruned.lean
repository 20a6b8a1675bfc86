import PgTde.Hot.Prune
import PgTde.Hot.Search
import PgTde.Index.Theorems.HotChains
import PgTde.Prune.Theorems.Execute

open Relation

def Page.IsHeapOnlyTuple (page : Page) (n : Nat) : Prop :=
  ∃ lp, page.getItemId n = some lp ∧ lp.isNormal ∧ heapTupleHeaderIsHeapOnly (page.getItem lp)

-- A page whose HOT-chains have a root each, and only heap-only tuples behind it.
structure ChainedPage extends HotPage where
  oneRoot  : toHotPage.Disjoint
  heapOnly : ∀ n m, toPage.Linked updater n m → toPage.IsHeapOnlyTuple m
  few      : toPage.getMaxOffsetNumber ≤ maxHeapTuplesPerPage

-- A page each of whose tuples has been tested.
structure TestedPage extends ChainedPage where
  htsv   : Nat → Option HTSVResult
  tested : ∀ n lp, toPage.getItemId n = some lp → (htsv n).isSome = lp.isNormal

namespace TestedPage

variable (page : TestedPage)

def Dead (n : Nat) : Prop :=
  page.htsv n = some .dead

instance : DecidablePred page.Dead :=
  fun _ => inferInstanceAs (Decidable (_ = _))

-- A tuple that is dead, or recently dead and updated to one that is dead in this sense.
inductive Doomed : Nat → Prop
  | dead {n : Nat} : page.Dead n → Doomed n
  | recentlyDead {n m : Nat} : page.htsv n = some .recentlyDead → page.Linked page.updater n m → Doomed m →
    Doomed n

-- A dead tuple that is the end of a chain, or that no chain leads to.
def Loose (n : Nat) : Prop :=
  page.IsHeapOnlyTuple n ∧ page.Dead n ∧ page.nextOffset n = none

-- The items that a chain is pruned across.
def Passable (n : Nat) : Prop :=
  page.IsRedirect n ∨ page.Dead n ∨ page.htsv n = some .recentlyDead

-- The chain of the root `r` gets to `m` across such items.
def PassesTo (r m : Nat) : Prop :=
  ReflTransGen (fun n m => page.Linked page.updater n m ∧ page.Passable n) r m

-- A search from the root `r` may as well start from `t`.
def LeadsTo (r t : Nat) : Prop :=
  ReflTransGen (fun n m => page.Linked page.updater n m ∧ (page.IsRedirect n ∨ page.Doomed n)) r t

-- The test of visibility finds none of the tuples visible that can be removed, nor that their updates have been
-- aborted.
structure Misses (satisfies : List UInt8 → Bool × List UInt8) : Prop where
  invisible : ∀ n lp, page.Doomed n → page.getItemId n = some lp → ¬(satisfies (page.getItem lp)).1
  goesOn    : ∀ n lp, page.Doomed n → page.getItemId n = some lp → heapTupleHeaderIsHotUpdated (page.getItem lp) →
    heapTupleHeaderIsHotUpdated (satisfies (page.getItem lp)).2

end TestedPage

namespace PrunePlan

variable (plan : PrunePlan)

-- The offset numbers of the line pointers that are changed.
def offnums : List Nat :=
  plan.redirected.map (·.1) ++ (plan.nowdead ++ plan.nowunused)

-- What has been planned for the chain of the root `r`: nothing, or that it is removed, or that it starts with
-- another one of its members from then on. Apart from that, tuples are only removed from its end.
inductive Settles (page : TestedPage) (r : Nat) : Prop
  | kept : r ∉ plan.offnums →
    (page.IsRedirect r → ∃ t, page.Linked page.updater r t ∧ t ∉ plan.offnums ∧ ¬page.Dead t) →
    (∀ m, TransGen (page.Linked page.updater) r m → m ∈ plan.offnums → page.Loose m) → Settles page r
  | removed : r ∈ plan.nowdead → (page.IsRedirect r ∨ page.Doomed r) →
    (∀ m, TransGen (page.Linked page.updater) r m → page.Doomed m) → Settles page r
  | redirected {t : Nat} : (r, t) ∈ plan.redirected → page.LeadsTo r t → TransGen (page.Linked page.updater) r t →
    (∀ m, TransGen (page.Linked page.updater) t m → m ∈ plan.offnums → page.Loose m) → Settles page r

-- What the assertions of `pg_tde_page_prune_execute` and `page_verify_redirects` tell of a plan.
structure WellFormed (page : TestedPage) : Prop where
  valid      : plan.Valid page.toPage
  once       : plan.offnums.Nodup
  redirected : ∀ r t, (r, t) ∈ plan.redirected →
    page.IsRoot r ∧ (page.IsRedirect r → page.nextOffset r ≠ some t) ∧ page.IsHeapOnlyTuple t ∧ t ∉ plan.offnums
  nowdead    : ∀ n ∈ plan.nowdead, page.IsRoot n
  nowunused  : ∀ n ∈ plan.nowunused, page.IsHeapOnlyTuple n
  -- A redirection that is kept refers to a heap-only tuple that is kept.
  redirects  : ∀ n, page.IsRedirect n → n ∉ plan.offnums →
    ∃ t, page.nextOffset n = some t ∧ page.IsHeapOnlyTuple t ∧ t ∉ plan.offnums

end PrunePlan
