import PgTde.Index.Scan
import PgTde.Rewrite.Insert
import PgTde.Update.Hot

open Cint

-- Transaction ids are compared modulo 2^32, except for those below `FirstNormalTransactionId`.
def transactionIdPrecedes (id₁ id₂ : Nat) : Bool :=
  if id₁ < 3 ∨ id₂ < 3 then id₁ < id₂ else int32 (id₁ - id₂) < 0

-- The address that t_ctid holds.
def tCtid (tup : List UInt8) : ItemPointer where
  blkno  := unsignedAt 2 tup 12 * 2 ^ 16 + unsignedAt 2 tup 14
  offnum := unsignedAt 2 tup 16

def storeCtid (ctid tup : List UInt8) : List UInt8 :=
  tup.take 12 ++ ctid ++ tup.drop 18

-- What ItemPointerSetInvalid stores: `InvalidBlockNumber` and `InvalidOffsetNumber`.
def invalidItemPointer : List UInt8 :=
  itemPointer 0xFFFFFFFF invalidOffsetNumber

-- The address that tells that a tuple has been moved to another partition.
def heapTupleHeaderIndicatesMovedPartitions (tup : List UInt8) : Bool :=
  tCtid tup = ⟨0xFFFFFFFF, 0xFFFD⟩

def userData (tup : List UInt8) : List UInt8 :=
  tup.drop (itemHoff tup)

structure TidHashKey where
  xmin : Nat
  tid  : ItemPointer
  deriving DecidableEq

structure UnresolvedTupData where
  key    : TidHashKey
  oldTid : ItemPointer
  tuple  : List UInt8

structure OldToNewMappingData where
  key    : TidHashKey
  newTid : ItemPointer

-- The plan of `pg_tde_prepare_freeze_tuple`. The old `xvac` is kept, or replaced.
structure HeapTupleFreeze where
  xmax      : UInt32
  xvac      : Option UInt32
  infomask2 : UInt16
  infomask  : UInt16

def HeapTupleFreeze.pgTdeExecuteFreezeTuple (frz : HeapTupleFreeze) (tup : List UInt8) : List UInt8 :=
  let xvac := match frz.xvac with
    | none      => (tup.take 12).drop 8
    | some xvac => toLittleEndian 4 xvac.toNat
  tup.take 4 ++ toLittleEndian 4 frz.xmax.toNat ++ xvac ++ (tup.take 18).drop 12 ++
    toLittleEndian 2 frz.infomask2.toNat ++ toLittleEndian 2 frz.infomask.toNat ++ tup.drop 22

-- A tuple in the old heap.
structure OldTuple where
  tSelf : ItemPointer
  tData : FormedTuple

def OldTuple.hashkey (old : OldTuple) : TidHashKey where
  xmin := heapTupleHeaderGetXmin old.tData.bytes
  tid  := old.tSelf

-- The arguments of `rewrite_pg_tde_tuple`.
structure LiveTuple where
  oldTuple : OldTuple
  newTuple : FormedTuple

-- What the rewrite of tuples calls outside of its own module, besides the routines of an insertion.
structure ChainRoutines extends RewriteRoutines where
  -- pg_tde_prepare_freeze_tuple, for the cutoffs of the rewrite
  prepareFreezeTuple : List UInt8 → Option HeapTupleFreeze
  -- HeapTupleHeaderIsOnlyLocked
  isOnlyLocked       : List UInt8 → Bool
  -- The member of a multixact that has updated, if there is one.
  updater            : Nat → Nat
  -- The order in which `hash_seq_search` goes through a table.
  hashSeq            : List UnresolvedTupData → List UnresolvedTupData
  hashSeq_perm       : ∀ tups, (hashSeq tups).Perm tups

-- A rewrite with its hash tables.
structure ChainState extends RewriteState where
  rsOldestXmin     : Nat
  rsUnresolvedTups : List UnresolvedTupData
  rsOldNewTidMap   : List OldToNewMappingData

namespace LiveTuple

variable (routines : ChainRoutines) (t : LiveTuple)

-- The new tuple with the visibility information of the old one, as far as it is not frozen, and with an
-- invalid ctid.
def prepared : List UInt8 :=
  let old := t.oldTuple.tData.bytes
  let new := t.newTuple.bytes
  let infomask := tInfomask new &&& ~~~heapXactMask ||| tInfomask old &&& heapXactMask
  let infomask2 := tInfomask2 new &&& ~~~heap2XactMask
  let tup := old.take 12 ++ (new.take 18).drop 12 ++ toLittleEndian 2 infomask2.toNat ++
    toLittleEndian 2 infomask.toNat ++ new.drop 22
  let tup := match routines.prepareFreezeTuple tup with
    | none     => tup
    | some frz => frz.pgTdeExecuteFreezeTuple tup
  storeCtid invalidItemPointer tup

-- The hash key of the tuple that this one has been updated to, if it has been.
def target : Option TidHashKey :=
  let old := t.oldTuple.tData.bytes
  if ¬(tInfomask old &&& heapXmaxInvalid ≠ 0 ∨ routines.isOnlyLocked old) ∧
      ¬heapTupleHeaderIndicatesMovedPartitions old ∧ t.oldTuple.tSelf ≠ tCtid old
  then some ⟨heapTupleHeaderGetUpdateXid routines.updater old, tCtid old⟩
  else none

end LiveTuple

-- What a rewrite is told about the tuples of the old heap.
inductive RewriteCall
  | tuple (t : LiveTuple)
  | dead (oldTuple : OldTuple)

def RewriteCall.hashkey : RewriteCall → TidHashKey
  | tuple t       => t.oldTuple.hashkey
  | dead oldTuple => oldTuple.hashkey

namespace ChainState

def begin (newHeap : HeapRelation) (oldestXmin : Nat) : ChainState where
  toRewriteState   := beginPgTdeRewrite newHeap
  rsOldestXmin     := oldestXmin
  rsUnresolvedTups := []
  rsOldNewTidMap   := []

variable (P : Platform) (routines : ChainRoutines)

-- The loop that writes a tuple, and then those that have been waiting for it. It takes one iteration for each
-- of them.
def writeChain : Nat → ChainState → ItemPointer → List UInt8 → Outcome ChainState
  | 0, _, _, _ => .error .undefined
  | fuel + 1, s, oldTid, newTuple => do
    let (state, newoff) ← P.rawPgTdeInsert routines.toRewriteRoutines s.toRewriteState newTuple
    let s := { s with toRewriteState := state }
    let newTid : ItemPointer := ⟨state.rsBlockno, newoff⟩
    let xmin := heapTupleHeaderGetXmin newTuple
    if tInfomask newTuple &&& heapUpdated ≠ 0 ∧ ¬transactionIdPrecedes xmin s.rsOldestXmin then
      let hashkey : TidHashKey := ⟨xmin, oldTid⟩
      match s.rsUnresolvedTups.find? (·.key = hashkey) with
      | some unresolved =>
        let s := { s with rsUnresolvedTups := s.rsUnresolvedTups.filter (·.key ≠ hashkey) }
        writeChain fuel s unresolved.oldTid (storeCtid (itemPointer newTid.blkno newTid.offnum) unresolved.tuple)
      | none =>
        return { s with rsOldNewTidMap := ⟨hashkey, newTid⟩ :: s.rsOldNewTidMap.filter (·.key ≠ hashkey) }
    else
      return s

def rewritePgTdeTuple (s : ChainState) (t : LiveTuple) : Outcome ChainState :=
  let newTuple := t.prepared routines
  match t.target routines with
  | none         => writeChain P routines (s.rsUnresolvedTups.length + 1) s t.oldTuple.tSelf newTuple
  | some hashkey =>
    match s.rsOldNewTidMap.find? (·.key = hashkey) with
    | some mapping =>
      let s := { s with rsOldNewTidMap := s.rsOldNewTidMap.filter (·.key ≠ hashkey) }
      writeChain P routines (s.rsUnresolvedTups.length + 1) s t.oldTuple.tSelf
        (storeCtid (itemPointer mapping.newTid.blkno mapping.newTid.offnum) newTuple)
    | none =>
      let unresolved : UnresolvedTupData := ⟨hashkey, t.oldTuple.tSelf, newTuple⟩
      .ok { s with rsUnresolvedTups := unresolved :: s.rsUnresolvedTups.filter (·.key ≠ hashkey) }

-- Also tells whether a tuple that is known to be dead now has been removed.
def rewritePgTdeDeadTuple (s : ChainState) (oldTuple : OldTuple) : ChainState × Bool :=
  match s.rsUnresolvedTups.find? (·.key = oldTuple.hashkey) with
  | some _ =>
    ({ s with rsUnresolvedTups := s.rsUnresolvedTups.filter (·.key ≠ oldTuple.hashkey) }, true)
  | none   => (s, false)

def call (s : ChainState) : RewriteCall → Outcome ChainState
  | .tuple t       => s.rewritePgTdeTuple P routines t
  | .dead oldTuple => .ok (s.rewritePgTdeDeadTuple oldTuple).1

-- The first part of `end_pg_tde_rewrite`: any remaining tuples are written.
def writeUnresolved (s : ChainState) : Outcome RewriteState :=
  (routines.hashSeq s.rsUnresolvedTups).foldlM (fun state unresolved => do
    let (state, _) ← P.rawPgTdeInsert routines.toRewriteRoutines state
      (storeCtid invalidItemPointer unresolved.tuple)
    return state) s.toRewriteState

end ChainState

-- A whole rewrite.
def rewriteHeap (P : Platform) (routines : ChainRoutines) (newHeap : HeapRelation) (oldestXmin : Nat)
    (calls : List RewriteCall) : Outcome HeapRelation := do
  let s ← calls.foldlM (ChainState.call P routines) (.begin newHeap oldestXmin)
  let state ← s.writeUnresolved P routines
  endPgTdeRewrite state
