import PgTde.Page.AddItem
import PgTde.Page.Header
import PgTde.Page.Relation

-- MaxHeapTupleSize
def maxHeapTupleSize : Nat := blcksz - maxalign (sizeOfPageHeaderData + sizeofItemIdData)

-- Whether the offset number in the `t_ctid` of a tuple is one.
def ctidIsValid (tup : List UInt8) : Bool :=
  tup[16]?.getD 0 ≠ 0 ∨ tup[17]?.getD 0 ≠ 0

structure RewriteState where
  rsNewRel      : HeapRelation
  rsBuffer      : Page
  rsBufferValid : Bool
  rsBlockno     : Nat

-- `rs_buffer` is not initialized, but not read either as long as it is not valid.
def beginPgTdeRewrite (newHeap : HeapRelation) : RewriteState where
  rsNewRel      := newHeap
  rsBuffer      := Page.init
  rsBufferValid := false
  rsBlockno     := newHeap.blocks.length

-- What a rewrite calls outside of its own module.
structure RewriteRoutines where
  pageAddItem          : PageAddItem
  pageGetHeapFreeSpace : Page → Nat
  -- RelationGetTargetPageFreeSpace
  saveFreeSpace        : Nat
  -- pg_tde_toast_insert_or_update
  toastInsertOrUpdate  : List UInt8 → Outcome (List UInt8)

namespace RewriteState

-- Writes out the current page.
def writeBuffer (state : RewriteState) : Outcome RewriteState := do
  let rsNewRel ← state.rsNewRel.smgrextend state.rsBlockno state.rsBuffer
  return { state with rsNewRel, rsBlockno := state.rsBlockno + 1, rsBufferValid := false }

-- Makes space for a tuple of the size `len`, on the current page or on a new one.
def makeSpace (routines : RewriteRoutines) (state : RewriteState) (len : Nat) :
    Outcome RewriteState := do
  let state ←
    if state.rsBufferValid ∧
        len + routines.saveFreeSpace > routines.pageGetHeapFreeSpace state.rsBuffer then
      state.writeBuffer
    else
      .ok state
  if state.rsBufferValid
  then return state
  else return { state with rsBuffer := Page.init, rsBufferValid := true }

end RewriteState

namespace Platform

variable (P : Platform) (routines : RewriteRoutines)

-- Also yields the offset number of the new tuple, which goes to `t_self` together with `rs_blockno`.
def rawPgTdeInsert (state : RewriteState) (tup : List UInt8) : Outcome (RewriteState × Nat) := do
  let heaptup ←
    if state.rsNewRel.relkind = .toastvalue then
      .ok tup
    else if heapTupleHasExternal tup ∨ tup.length > toastTupleThreshold then
      routines.toastInsertOrUpdate tup
    else
      .ok tup
  let len := maxalign heaptup.length
  if len > maxHeapTupleSize then
    .error <| .error s!"row is too big: size {len}, maximum size {maxHeapTupleSize}"
  let state ← state.makeSpace routines len
  let (page, newoff) ← P.pgTdePageAddItemExtended routines.pageAddItem.run state.rsNewRel.key
    state.rsBlockno state.rsBuffer heaptup
  if newoff = invalidOffsetNumber then
    .error <| .error "failed to add tuple"
  if ctidIsValid tup then
    return ({ state with rsBuffer := page }, newoff)
  match page.getItemId newoff with
  | some newitemid =>
    let mem := page.mem.write (newitemid.lpOff + 12) (itemPointer state.rsBlockno newoff)
    return ({ state with rsBuffer := { page with mem } }, newoff)
  | none => .error .undefined

end Platform

-- The tuples that are left in `rs_unresolved_tups` have been inserted before.
def endPgTdeRewrite (state : RewriteState) : Outcome HeapRelation :=
  if state.rsBufferValid
  then state.rsNewRel.smgrextend state.rsBlockno state.rsBuffer
  else .ok state.rsNewRel
