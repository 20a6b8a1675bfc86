import PgTde.Keys.Cache

-- The kinds of relations in pg_class.
inductive ClassKind
  | relation
  | index
  | sequence
  | toastvalue
  | view
  | matview
  | compositeType
  | foreignTable
  | partitionedTable
  | partitionedIndex
  deriving DecidableEq, Repr

namespace ClassKind

-- RELKIND_HAS_STORAGE
def hasStorage (relkind : ClassKind) : Bool :=
  relkind = relation ∨ relkind = index ∨ relkind = sequence ∨ relkind = toastvalue ∨ relkind = matview

-- The kinds that `pgTdeamRelationSetNewFilelocator` creates a key file for.
def hasKeyFork (relkind : ClassKind) : Bool :=
  relkind = relation ∨ relkind = matview ∨ relkind = toastvalue

end ClassKind

-- `isPgTdeRel` tells whether the access method is this one.
structure PgClass where
  rdLocator  : RelFileLocator
  relkind    : ClassKind
  isPgTdeRel : Bool
  deriving DecidableEq, Repr

inductive ObjectAccessType
  | postCreate
  | drop
  | postAlter
  | namespaceSearch
  | functionExecute
  | truncate
  deriving DecidableEq, Repr

def relationRelationId : UInt32 := 1259

-- The catalog, and the relations whose storage is dropped by the transactions in progress, which lasts
-- until they commit.
structure Database (ι : Type) extends KeyCluster ι where
  pgClass : UInt32 → Option PgClass
  dropped : ι → List PgClass

inductive DdlAction
  | createRelation (relid : UInt32) (rel : PgClass) (replies : KeyringReplies) (random : Option Block)
    (relname : String)
  -- TRUNCATE, for one.
  | setNewRelfilenumber (relid : UInt32) (newrlocator : RelFileLocator) (replies : KeyringReplies)
    (random : Option Block) (relname : String)
  -- A table is rewritten by creating another one, swapping the files and dropping the other one.
  | swapRelationFiles (r1 r2 : UInt32)
  | objectAccess (access : ObjectAccessType) (classId objectId : UInt32) (subId : Int)
  | commit

namespace Database

variable {ι : Type} [DecidableEq ι] (server : KeyServer) (s : Database ι) (b : ι)

-- There are no subtransactions, so the nesting level is always 1. An error aborts the transaction.
def createKeyFork (newrlocator : RelFileLocator) (replies : KeyringReplies) (random : Option Block)
    (relname : String) : Outcome (Database ι) :=
  match server.pgTdeCreateKeyFork replies random 1 newrlocator relname (s.session b) with
  | (.error e, _)     => .error e
  | (.ok (), session) =>
    .ok { s with toKeyCluster := s.resume b session (KeyCluster.originOf server session newrlocator) }

def pgTdeamRelationSetNewFilelocator (relkind : ClassKind) (newrlocator : RelFileLocator)
    (replies : KeyringReplies) (random : Option Block) (relname : String) : Outcome (Database ι) :=
  if relkind.hasKeyFork
  then s.createKeyFork server b newrlocator replies random relname
  else .ok s

-- Other access methods have nothing to do with key files.
def tableRelationSetNewFilelocator (rel : PgClass) (newrlocator : RelFileLocator)
    (replies : KeyringReplies) (random : Option Block) (relname : String) : Outcome (Database ι) :=
  if rel.isPgTdeRel
  then s.pgTdeamRelationSetNewFilelocator server b rel.relkind newrlocator replies random relname
  else .ok s

def couldNotOpenRelation : Fault := .error "could not open relation"

def pgTdeObjectAccessHook (access : ObjectAccessType) (classId objectId : UInt32) (subId : Int) :
    Outcome (Database ι) :=
  if access = .drop ∧ classId = relationRelationId then
    match s.pgClass objectId with
    | none     => .error couldNotOpenRelation
    | some rel =>
      if rel.relkind.hasKeyFork ∧ subId = 0 ∧ rel.isPgTdeRel then
        let session := server.pgTdeDeleteKeyFork 1 rel.rdLocator (s.session b)
        .ok { s with toKeyCluster := s.resume b session (s.backends b).origin }
      else
        .ok s
  else
    .ok s

-- The storage of the relation is dropped by the transaction of the backend.
def relationDropStorage (rel : PgClass) : Database ι :=
  { s with dropped := Function.update s.dropped b (rel :: s.dropped b) }

def updateClass (relid : UInt32) (rel : Option PgClass) : Database ι :=
  { s with pgClass := Function.update s.pgClass relid rel }

def step : DdlAction → Outcome (Database ι)
  | .createRelation relid rel replies random relname => do
    let s ← s.tableRelationSetNewFilelocator server b rel rel.rdLocator replies random relname
    return s.updateClass relid (some rel)
  | .setNewRelfilenumber relid newrlocator replies random relname =>
    match s.pgClass relid with
    | none     => .error couldNotOpenRelation
    | some rel => do
      let s := s.relationDropStorage b rel
      let s ← s.tableRelationSetNewFilelocator server b rel newrlocator replies random relname
      return s.updateClass relid (some { rel with rdLocator := newrlocator })
  | .swapRelationFiles r1 r2 =>
    match s.pgClass r1, s.pgClass r2 with
    | some rel1, some rel2 =>
      -- The access methods are swapped as well.
      let s := s.updateClass r1 (some { rel2 with relkind := rel1.relkind })
      .ok <| s.updateClass r2 (some { rel1 with relkind := rel2.relkind })
    | _, _                 => .error couldNotOpenRelation
  | .objectAccess access classId objectId subId => do
    let rel := s.pgClass objectId
    let s ← s.pgTdeObjectAccessHook server b access classId objectId subId
    -- If only a column is dropped, `subId` is not 0.
    match rel with
    | some rel =>
      if access = .drop ∧ classId = relationRelationId ∧ subId = 0
      then return (s.relationDropStorage b rel).updateClass objectId none
      else return s
    | none     => return s
  | .commit =>
    let session := (s.session b).xactCallback .commit 1
    .ok { s with
      toKeyCluster := s.resume b session (s.backends b).origin
      dropped      := Function.update s.dropped b [] }

-- A relation is live until a transaction that drops it has committed.
def Live (rel : PgClass) : Prop :=
  (∃ relid, s.pgClass relid = some rel) ∨ ∃ b, rel ∈ s.dropped b

-- There is no storage at the path of a new locator.
def Unused (rlocator : RelFileLocator) : Prop :=
  ∀ rel, s.Live rel → rel.relkind.hasStorage →
    server.relpathperm rel.rdLocator ≠ server.relpathperm rlocator

-- What PostgreSQL sees to.
def Allows : DdlAction → Prop
  | .createRelation relid rel _ _ _          =>
    s.pgClass relid = none ∧ (rel.relkind.hasStorage → s.Unused server rel.rdLocator)
  | .setNewRelfilenumber _ newrlocator _ _ _ => s.Unused server newrlocator
  | .swapRelationFiles r1 r2                 =>
    r1 ≠ r2 ∧ ∀ rel1 rel2, s.pgClass r1 = some rel1 → s.pgClass r2 = some rel2 →
      rel1.relkind.hasKeyFork = rel2.relkind.hasKeyFork
  | _                                        => True

-- There is a key file for a locator iff a live relation of this access method uses it.
def Aligned : Prop :=
  ∀ rlocator, (s.files (server.pgTdeGetKeyFilePath rlocator)).isSome ↔ ∃ rel, s.Live rel ∧
    rel.isPgTdeRel ∧ rel.relkind.hasKeyFork ∧
    server.relpathperm rel.rdLocator = server.relpathperm rlocator

end Database

-- Initially, there are no relations of this access method and no transactions.
def ddlSystem (server : KeyServer) (ι : Type) [DecidableEq ι] : System (Database ι) (ι × DdlAction) where
  Initial s   := s.keyring.keyCount ≤ maxCacheEntries ∧
    (∀ i < s.keyring.keyCount, ∀ j < s.keyring.keyCount,
      (s.keyring.keys i).name.str = (s.keyring.keys j).name.str → i = j) ∧
    (∀ path, s.files path = none) ∧ (∀ relid rel, s.pgClass relid = some rel → rel.isPgTdeRel = false) ∧
    ∀ b, (s.backends b).deletes.pendingDeletes = [] ∧ s.dropped b = []
  Step s a s' := s.Allows server a.2 ∧ (s.step server a.1 a.2).Yields s'
