import Mathlib.Data.Prod.Lex
import PgTde.Index.RootTuples
import PgTde.Library.Traced
import PgTde.Page.Reader

structure ItemPointer where
  blkno  : Nat
  offnum : Nat
  deriving DecidableEq, Repr

namespace ItemPointer

-- ItemPointerCompare
instance : LinearOrder ItemPointer :=
  .lift' (fun p => toLex (p.blkno, p.offnum)) fun p q h => by
    cases p
    cases q
    cases h
    rfl

end ItemPointer

-- A table whose pages are not corrupted.
structure HeapTable where
  relname    : String
  relkind    : Relkind
  key        : Block
  blocks     : List HeapPage
  normal     : ∀ page ∈ blocks, ∀ lp ∈ page.linp, lp.isNormal → lp.hasStorage
  length_le  : ∀ page ∈ blocks, page.linp.length ≤ maxHeapTuplesPerPage

-- What `pg_tde_getnext` returns: a tuple on the page that the scan is at.
structure ScanTuple where
  tSelf : ItemPointer
  page  : HeapPage
  lp    : ItemIdData

namespace ScanTuple

-- The bytes of the tuple on the page, which are encrypted.
def tData (t : ScanTuple) : List UInt8 :=
  t.page.getItem t.lp

end ScanTuple

namespace HeapTable

variable (rel : HeapTable)

def blockTuples (blkno : Nat) (page : HeapPage) : List ScanTuple :=
  (page.linp.zipIdx 1).filterMap fun (lp, offnum) =>
    if lp.isNormal then some { tSelf := ⟨blkno, offnum⟩, page, lp } else none

-- The tuples that the calls of `pg_tde_getnext` return in a forward scan from block zero, where `satisfies`
-- are the tuples that satisfy the snapshot.
def heapTuples (satisfies : ItemPointer → Bool) : List ScanTuple :=
  (rel.blocks.zipIdx.flatMap fun (page, blkno) => blockTuples blkno page).filter (satisfies ·.tSelf)

-- What the scan of a table puts into the slot for a tuple.
def getnextslot (P : Platform) (t : ScanTuple) : Outcome (List UInt8) :=
  P.pgTdeExecStoreBufferHeapTuple rel.relkind t.tSelf.blkno rel.key t.page.mem t.lp

def failedToFindParent (t : ScanTuple) : Fault :=
  let blkno := t.tSelf.blkno
  let offnum := t.tSelf.offnum
  let relname := rel.relname
  .error s!"failed to find parent tuple for heap-only tuple at ({blkno},{offnum}) in table \"{relname}\""

end HeapTable

-- The TID that a tuple is indexed under: that of the root of its HOT-chain.
def HeapTable.rootTid (rel : HeapTable) (updater : Nat → Nat) (t : ScanTuple) : Outcome ItemPointer := do
  let rootOffsets ← t.page.pgTdeGetRootTuples updater
  if heapTupleHeaderIsHeapOnly t.tData then
    let offnum := rootOffsets (t.tSelf.offnum - 1)
    if offnum = invalidOffsetNumber then
      .error (rel.failedToFindParent t)
    return ⟨t.tSelf.blkno, offnum⟩
  else
    return t.tSelf

-- The evaluation of an index definition on the tuple in a slot: `ExecQual` for the predicate, which always
-- holds if there is none, and `FormIndexDatum`.
structure IndexInfo (α : Type) where
  iiPredicate    : List UInt8 → Outcome Bool
  formIndexDatum : List UInt8 → Outcome α

-- What the index is given for the heap tuple at `tSelf`: values from the tuple in the slot, under a TID.
structure IndexEntry (α : Type) where
  tSelf  : ItemPointer
  tuple  : List UInt8
  tid    : ItemPointer
  values : α
  deriving DecidableEq

-- The state of the merge with the sorted TIDs of the index. `inIndex` tells by offset numbers, less one,
-- which TIDs of the current page have been passed over.
structure MergeState where
  indexcursor    : Option ItemPointer
  tuplesort      : List ItemPointer
  tuplesortEmpty : Bool
  inIndex        : Nat → Bool

namespace MergeState

def init (tuplesort : List ItemPointer) : MergeState where
  indexcursor    := none
  tuplesort      := tuplesort
  tuplesortEmpty := false
  inIndex _      := false

def clear (m : MergeState) : MergeState :=
  { m with inIndex := fun _ => false }

-- Remembers index items seen earlier on the current heap page.
def remember (rootBlkno : Nat) (m : MergeState) : MergeState :=
  let inIndex :=
    match m.indexcursor with
    | none        => m.inIndex
    | some cursor =>
      if cursor.blkno = rootBlkno then Function.update m.inIndex (cursor.offnum - 1) true else m.inIndex
  { m with inIndex }

-- Skips through the index tuples until one is the current root tuple or behind it. The recursion is on the
-- state's tuplesort.
def merge (rootBlkno : Nat) (rootTuple : ItemPointer) : List ItemPointer → MergeState → MergeState
  | tuplesort, m =>
    if ¬m.tuplesortEmpty ∧ ∀ cursor ∈ m.indexcursor, cursor < rootTuple then
      let m := m.remember rootBlkno
      match tuplesort with
      | []          => { m with tuplesortEmpty := true, indexcursor := none }
      | tid :: tids => merge rootBlkno rootTuple tids { m with indexcursor := some tid, tuplesort := tids }
    else
      m

-- The tuplesort has overshot, and there was no match earlier.
def missing (m : MergeState) (rootTuple : ItemPointer) : Bool :=
  (m.tuplesortEmpty ∨ ∀ cursor ∈ m.indexcursor, cursor > rootTuple) ∧ ¬m.inIndex (rootTuple.offnum - 1)

end MergeState

section

variable {α : Type} (rel : HeapTable) (indexInfo : IndexInfo α) (updater : Nat → Nat)

-- The root block number and the map of root offsets of `pg_tdeam_index_build_range_scan`.
structure BuildState where
  rootBlkno   : Option Nat
  rootOffsets : RootOffsets

abbrev Building (α : Type) := Traced Fault (IndexEntry α × Bool)

-- A map of root item offsets is built on each page that is not the one of the state.
def BuildState.enterPage (s : BuildState) (t : ScanTuple) : Outcome BuildState :=
  if s.rootBlkno ≠ some t.tSelf.blkno then do
    let rootOffsets ← t.page.pgTdeGetRootTuples updater
    return { rootBlkno := some t.tSelf.blkno, rootOffsets }
  else
    .ok s

-- The body of the loop of `pg_tdeam_index_build_range_scan`. `timeQual` tells whether the tuple is to be
-- indexed and, if so, whether it is alive.
def buildRangeStep (P : Platform) (timeQual : ScanTuple → Outcome (Option Bool)) (s : BuildState)
    (t : ScanTuple) : Building α BuildState := do
  let blkno := t.tSelf.blkno
  let offnum := t.tSelf.offnum
  let s ← .lift (s.enterPage updater t)
  match ← .lift (timeQual t) with
  | none => return s
  | some tupleIsAlive =>
    let slot ← .lift (P.pgTdeExecStoreBufferHeapTuple rel.relkind blkno rel.key t.page.mem t.lp)
    if ← .lift (indexInfo.iiPredicate slot) then
      let values ← .lift (indexInfo.formIndexDatum slot)
      -- The heap tuple refers to the decrypted copy by now.
      if heapTupleHeaderIsHeapOnly slot then
        let rootOffsets ←
          if s.rootOffsets (offnum - 1) = invalidOffsetNumber
          then .lift (t.page.pgTdeGetRootTuples updater)
          else pure s.rootOffsets
        if rootOffsets (offnum - 1) = invalidOffsetNumber then
          .lift (.error (rel.failedToFindParent t))
        else
          .perform (⟨t.tSelf, slot, ⟨blkno, rootOffsets (offnum - 1)⟩, values⟩, tupleIsAlive)
            (.ok { s with rootOffsets })
      else
        .perform (⟨t.tSelf, slot, t.tSelf, values⟩, tupleIsAlive) (.ok s)
    else
      return s

-- `pg_tdeam_index_build_range_scan`, for the tuples of its scan.
def pgTdeamIndexBuildRangeScan (P : Platform) (timeQual : ScanTuple → Outcome (Option Bool))
    (tuples : List ScanTuple) : Building α BuildState :=
  tuples.foldlM (buildRangeStep rel indexInfo updater P timeQual) ⟨none, fun _ => 0⟩

-- The state of `pg_tdeam_index_validate_scan`.
structure ValidateState extends MergeState where
  rootBlkno   : Option Nat
  rootOffsets : RootOffsets

def ValidateState.enterPage (s : ValidateState) (t : ScanTuple) : Outcome ValidateState :=
  if s.rootBlkno ≠ some t.tSelf.blkno then do
    let rootOffsets ← t.page.pgTdeGetRootTuples updater
    return { s.clear with rootBlkno := some t.tSelf.blkno, rootOffsets }
  else
    .ok s

-- The actual offset number is converted to that of the root.
def ValidateState.rootOffnum (s : ValidateState) (t : ScanTuple) : Nat :=
  if heapTupleHeaderIsHeapOnly t.tData then s.rootOffsets (t.tSelf.offnum - 1) else t.tSelf.offnum

abbrev Validating (α : Type) := Traced Fault (IndexEntry α)

-- The last part of the loop's body, for a tuple that is missing from the index.
def insertMissing (t : ScanTuple) (rootTuple : ItemPointer) : Validating α Unit := do
  -- ExecStoreHeapTuple(heapTuple, slot, false)
  let slot := t.tData
  if ← .lift (indexInfo.iiPredicate slot) then
    let values ← .lift (indexInfo.formIndexDatum slot)
    .perform ⟨t.tSelf, slot, rootTuple, values⟩ (.ok ())

-- The body of the loop of `pg_tdeam_index_validate_scan`.
def validateStep (s : ValidateState) (t : ScanTuple) : Validating α ValidateState := do
  let s ← .lift (s.enterPage updater t)
  if heapTupleHeaderIsHeapOnly t.tData ∧ s.rootOffnum t = invalidOffsetNumber then
    .lift (.error (rel.failedToFindParent t))
  else do
    let rootTuple : ItemPointer := ⟨t.tSelf.blkno, s.rootOffnum t⟩
    let m := s.merge t.tSelf.blkno rootTuple s.tuplesort
    if m.missing rootTuple then
      insertMissing indexInfo t rootTuple
    return { s with toMergeState := m }

-- `pg_tdeam_index_validate_scan`, for the tuples of its scan and the sorted TIDs of the index.
def pgTdeamIndexValidateScan (tids : List ItemPointer) (tuples : List ScanTuple) :
    Validating α ValidateState :=
  tuples.foldlM (validateStep rel indexInfo updater)
    { MergeState.init tids with rootBlkno := none, rootOffsets := fun _ => 0 }

end

-- A call of `pg_tdeam_index_validate_scan`.
structure ValidateIndex (α : Type) where
  rel              : HeapTable
  indexInfo        : IndexInfo α
  updater          : Nat → Nat
  satisfies        : ItemPointer → Bool
  tids             : List ItemPointer
  sorted           : tids.Pairwise (· ≤ ·)
  offnums          : ∀ tid ∈ tids, tid.offnum ≠ invalidOffsetNumber

namespace ValidateIndex

variable {α : Type} (v : ValidateIndex α)

-- The visible tuples, in the order of the scan.
def tuples : List ScanTuple :=
  v.rel.heapTuples v.satisfies

def inserted : List (IndexEntry α) :=
  (pgTdeamIndexValidateScan v.rel v.indexInfo v.updater v.tids v.tuples).trace

-- What the scan of an index build passes to the index for a tuple of an MVCC snapshot.
def built (P : Platform) (t : ScanTuple) : List (IndexEntry α × Bool) :=
  (pgTdeamIndexBuildRangeScan v.rel v.indexInfo v.updater P (fun _ => .ok (some true)) [t]).trace

-- The tuple gets an index entry, unless the predicate or an expression raises an error.
def Missing (t : ScanTuple) (rootTuple : ItemPointer) : Prop :=
  v.rel.rootTid v.updater t = .ok rootTuple ∧ rootTuple ∉ v.tids ∧
    v.indexInfo.iiPredicate t.tData = .ok true

-- The scan gets past a tuple: its root is found, and no error is raised if it is missing.
def Passes (t : ScanTuple) : Prop :=
  ∃ rootTuple, v.rel.rootTid v.updater t = .ok rootTuple ∧
    (rootTuple ∉ v.tids → ∃ b, v.indexInfo.iiPredicate t.tData = .ok b ∧
      (b → ∃ values, v.indexInfo.formIndexDatum t.tData = .ok values))

-- The scan reaches a tuple, and gets past it.
def Reaches (t : ScanTuple) : Prop :=
  ∃ before after, v.tuples = before ++ t :: after ∧ (∀ u ∈ before, v.Passes u) ∧ v.Passes t

-- For each missing tuple, the same tuple is indexed under the same TID as in the scan of an index build,
-- and it is the tuple that ordinary scans return.
def IndexesAlike (P : Platform) : Prop :=
  ∀ e ∈ v.inserted, ∃ t ∈ v.tuples, (e, true) ∈ v.built P t ∧ v.rel.getnextslot P t = .ok e.tuple

end ValidateIndex
