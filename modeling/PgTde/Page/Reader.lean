import PgTde.Page.Basic

-- The kinds of relations that have tuples of this access method.
inductive Relkind
  | relation
  | matview
  | toastvalue
  deriving DecidableEq, Repr

namespace Platform

variable (P : Platform) (relkind : Relkind) (bn : Nat) (key : Block) (page : Memory) (lp : ItemIdData)

-- The tuple that ends up in the slot.
def execStoreTuple : Outcome (List UInt8) :=
  let tuple := page.read lp.lpOff lp.lpLen
  if relkind ≠ .toastvalue then do
    -- `heap_copytuple`, with the data of the copy overwritten by the decrypted data
    let data ← P.pgTdeCryptTuple bn page lp.lpOff lp.lpLen key
    return tuple.take (tHoff page lp.lpOff) ++ data
  else
    .ok tuple

def pgTdeExecStoreBufferHeapTuple : Outcome (List UInt8) :=
  P.execStoreTuple relkind bn key page lp

def pgTdeExecStorePinnedBufferHeapTuple : Outcome (List UInt8) :=
  P.execStoreTuple relkind bn key page lp

end Platform
