import PgTde.Page.Heap
import PgTde.Prune.Compact

-- Changes the line pointer with the given offset number.
def Page.updateItemId (page : Page) (offnum : Nat) (f : ItemIdData → ItemIdData) : Outcome Page :=
  match page.getItemId offnum with
  | some _ => .ok (page.modifyItemId offnum f)
  | none   => .error .undefined

-- The changes that `pg_tde_page_prune` decides on, by offset numbers. A redirection is a pair of the
-- line pointer to be changed and the one that it is to refer to.
structure PrunePlan where
  redirected : List (Nat × Nat)
  nowdead    : List Nat
  nowunused  : List Nat

namespace Platform

variable (P : Platform)

def pgTdePagePruneExecute (bn : Nat) (key : Block) (stack : Memory) (plan : PrunePlan) (page : Page) :
    Outcome Page := do
  let page ← plan.redirected.foldlM
    (fun page (fromoff, tooff) => page.updateItemId fromoff (·.setRedirect tooff)) page
  let page ← plan.nowdead.foldlM (fun page off => page.updateItemId off (·.setDead)) page
  let page ← plan.nowunused.foldlM (fun page off => page.updateItemId off (·.setUnused)) page
  P.tdePageRepairFragmentation bn key stack page

end Platform
