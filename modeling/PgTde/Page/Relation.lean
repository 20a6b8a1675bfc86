import PgTde.Page.Intact
import PgTde.Page.Reader

-- A relation with its storage.
structure HeapRelation where
  relkind : Relkind
  key     : Block
  blocks  : List Page

-- Storage is extended by one block at its end.
def HeapRelation.smgrextend (rel : HeapRelation) (blockno : Nat) (page : Page) : Outcome HeapRelation :=
  if blockno = rel.blocks.length
  then .ok { rel with blocks := rel.blocks ++ [page] }
  else .error .undefined

-- Data by the number of its block and the index of its line pointer.
abbrev Contents := Nat → Nat → List UInt8

def Contents.insert (c : Contents) (bn off : Nat) (data : List UInt8) : Contents :=
  fun b i => if b = bn ∧ i = off - 1 then data else c b i

-- The pages of a relation hold the given data.
def HeapRelation.Intact (rel : HeapRelation) (inserted : Contents) : Prop :=
  ∀ (bn : Nat) (page : Page), rel.blocks[bn]? = some page → page.Intact (inserted bn)
