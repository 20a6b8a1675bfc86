import PgTde.Keys.Fork
import PgTde.Page.Heap

inductive ForkNumber
  | main
  | fsm
  | visibilitymap
  | init
  deriving DecidableEq, Repr

-- The storage of relations, by their locators, and the locators whose storage is dropped at commit.
structure Tablespaces where
  session : KeySession
  forks   : RelFileLocator → ForkNumber → Option (List Page)
  drops   : List RelFileLocator

namespace Tablespaces

def relationCreateStorage (s : Tablespaces) (rlocator : RelFileLocator) : Outcome Tablespaces :=
  if (s.forks rlocator .main).isSome
  then .error (.error "could not create file")
  else .ok { s with forks := Function.update s.forks rlocator (Function.update (s.forks rlocator) .main (some [])) }

-- `RelationCopyStorage` copies the pages as they are.
def relationCopyStorage (s : Tablespaces) (src dst : RelFileLocator) (forkNum : ForkNumber) : Tablespaces :=
  match s.forks src forkNum with
  | none       => s
  | some pages =>
    { s with forks := Function.update s.forks dst (Function.update (s.forks dst) forkNum (some pages)) }

def relationDropStorage (s : Tablespaces) (rlocator : RelFileLocator) : Tablespaces :=
  { s with drops := rlocator :: s.drops }

def pgTdeamRelationCopyData (s : Tablespaces) (rel newrlocator : RelFileLocator) : Outcome Tablespaces := do
  let s ← s.relationCreateStorage newrlocator
  -- copy main fork, and those extra forks that exist
  let s := [ForkNumber.main, .fsm, .visibilitymap, .init].foldl (·.relationCopyStorage rel newrlocator ·) s
  return s.relationDropStorage rel

def commit (s : Tablespaces) : Tablespaces where
  session := s.session.xactCallback .commit 1
  forks   := fun rlocator => if rlocator ∈ s.drops then fun _ => none else s.forks rlocator
  drops   := []

end Tablespaces

-- The move of a relation whose tuples are readable to a locator that is not in use.
structure TableMove (server : KeyServer) (vault : KeyName → Except String KeyData) where
  before      : Tablespaces
  rel         : RelFileLocator
  newrlocator : RelFileLocator
  pages       : List HeapPage
  key         : InternalKey
  main        : before.forks rel .main = some (pages.map (·.toPage))
  keys        : ∃ keys s, server.getRelationKeys vault rel before.session = (.ok keys, s) ∧
    keys.internalKey.head? = some key
  unused      : before.forks newrlocator .main = none
  notDropped  : newrlocator ∉ before.drops

namespace TableMove

variable {server : KeyServer} {vault : KeyName → Except String KeyData}

-- The tuples of the pages decrypt to the same data with both keys.
def SameData (P : Platform) (m : TableMove server vault) (key : InternalKey) : Prop :=
  ∀ (bn : Nat) (page : HeapPage), m.pages[bn]? = some page → ∀ lp ∈ page.linp, lp.hasStorage →
    P.pgTdeCryptTuple bn page.mem lp.lpOff lp.lpLen key.key =
    P.pgTdeCryptTuple bn page.mem lp.lpOff lp.lpLen m.key.key

-- The relation has its pages and a key after the move has been committed, and reads as before.
def StaysReadable (P : Platform) (m : TableMove server vault) : Prop :=
  ∃ s, m.before.pgTdeamRelationCopyData m.rel m.newrlocator = .ok s ∧
    s.commit.forks m.newrlocator .main = some (m.pages.map (·.toPage)) ∧
    ∃ keys key session,
      server.getRelationKeys vault m.newrlocator s.commit.session = (.ok keys, session) ∧
      keys.internalKey.head? = some key ∧ m.SameData P key

end TableMove
