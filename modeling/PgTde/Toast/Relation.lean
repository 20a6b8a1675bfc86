import PgTde.Library.System
import PgTde.Page.Intact
import PgTde.Prune.Theorems.Execute
import PgTde.Rewrite.Insert

-- A TOAST relation, together with the data that its tuples were inserted with, and the rewrite in
-- progress, if there is one.
structure ToastRelation where
  rel      : HeapRelation
  inserted : Contents
  rewrite  : Option (RewriteState × Contents)

namespace ToastRelation

inductive Action
  -- The relation gets another page.
  | extend
  -- PostgreSQL's toast code inserts a tuple.
  | insert (bn : Nat) (tup : HeapTuple)
  | prune (bn : Nat) (stack : Memory) (plan : PrunePlan)
  | beginRewrite (key : Block)
  -- A tuple is read, and formed anew for the new relation.
  | rewriteTuple (bn i : Nat) (header : HeapTupleHeader)
  | endRewrite

variable (P : Platform) (routines : RewriteRoutines) (s : ToastRelation)

-- `heap_insert` and its `RelationPutHeapTuple` are PostgreSQL's.
def insert (bn : Nat) (tup : HeapTuple) : Outcome ToastRelation :=
  match s.rel.blocks[bn]? with
  | none      => .error .undefined
  | some page =>
    let (page, off) := routines.pageAddItem.run page tup.tData
    if off = invalidOffsetNumber then
      .error <| .panic "failed to add tuple to page"
    else
      let page := { page with mem := page.mem.write (page.pdUpper + 12) (itemPointer bn off) }
      .ok { s with
        rel      := { s.rel with blocks := s.rel.blocks.set bn page }
        inserted := s.inserted.insert bn off tup.data }

def prune (bn : Nat) (stack : Memory) (plan : PrunePlan) : Outcome ToastRelation :=
  match s.rel.blocks[bn]? with
  | none      => .error .undefined
  | some page => do
    let page ← P.pgTdePagePruneExecute bn s.rel.key stack plan page
    return { s with rel := { s.rel with blocks := s.rel.blocks.set bn page } }

-- The new relation is of the same kind, and has a key of its own.
def beginRewrite (key : Block) : ToastRelation :=
  { s with rewrite := (beginPgTdeRewrite { s.rel with key, blocks := [] }, s.inserted) }

def rewriteTuple (bn i : Nat) (header : HeapTupleHeader) : Outcome ToastRelation :=
  match s.rewrite, s.rel.blocks[bn]?.bind fun page => page.linp[i]?.map (page, ·) with
  | some (state, inserted), some (page, lp) =>
    if lp.hasStorage then do
      let tuple ← P.pgTdeExecStoreBufferHeapTuple s.rel.relkind bn s.rel.key page.mem lp
      let (state, off) ← P.rawPgTdeInsert routines state (header.bytes ++ tuple.drop (itemHoff tuple))
      return { s with rewrite := (state, inserted.insert state.rsBlockno off (s.inserted bn i)) }
    else
      .error .undefined
  | _, _ => .error .undefined

-- The new relation takes the place of the old one.
def endRewrite : Outcome ToastRelation :=
  match s.rewrite with
  | none                   => .error .undefined
  | some (state, inserted) => do
    let rel ← endPgTdeRewrite state
    return { rel, inserted, rewrite := none }

def step : Action → Outcome ToastRelation
  | .extend                   => .ok { s with rel := { s.rel with blocks := s.rel.blocks ++ [Page.init] } }
  | .insert bn tup            => s.insert routines bn tup
  | .prune bn stack plan      => s.prune P bn stack plan
  | .beginRewrite key         => .ok (s.beginRewrite key)
  | .rewriteTuple bn i header => s.rewriteTuple P routines bn i header
  | .endRewrite               => s.endRewrite

end ToastRelation

def toastSystem (P : Platform) (routines : RewriteRoutines) :
    System ToastRelation ToastRelation.Action where
  Initial s   := s.rel.relkind = .toastvalue ∧ s.rel.Intact s.inserted ∧ s.rewrite = none
  Step s a s' := s.step P routines a = .ok s'

-- The readers find the data of each tuple as it was inserted.
def ToastRelation.ReadsBack (P : Platform) (s : ToastRelation) : Prop :=
  ∀ (bn : Nat) (page : Page), s.rel.blocks[bn]? = some page →
    ∀ (i : Nat) (lp : ItemIdData), page.linp[i]? = some lp → lp.hasStorage → ∃ tup,
      P.pgTdeExecStoreBufferHeapTuple s.rel.relkind bn s.rel.key page.mem lp = .ok tup ∧
      P.pgTdeExecStorePinnedBufferHeapTuple s.rel.relkind bn s.rel.key page.mem lp = .ok tup ∧
      tup.drop (itemHoff tup) = s.inserted bn i
