import PgTde.Keys.Fork

-- An entry of the keys cache in the memory of a process, where a pointer is a number.
structure RelKeysEntry extends RelKeys where
  next : Option Nat

-- The keys cache of a process. The pointers are the positions in the list of all entries that have been
-- allocated.
structure RelKeysMap where
  allocated     : List RelKeysEntry
  tdeRelKeysMap : Option Nat

-- What `GetRelationKeys` does that an answer from the list spares.
inductive KeysEffect
  | readKeyFile
  | allocate
  deriving DecidableEq, Repr

structure KeysAnswer where
  keys    : Outcome RelKeysData
  effects : List KeysEffect
  map     : RelKeysMap

namespace RelKeysMap

variable (m : RelKeysMap)

def putKeysIntoMap (relId : UInt32) (keys : RelKeysData) : RelKeysMap :=
  -- `prev` is initialized with `NULL`, and never set.
  let prev : Option Nat := none
  let new := m.allocated.length
  let allocated := m.allocated ++ [{ relId, keys, next := none }]
  match prev with
  | none      => { allocated, tdeRelKeysMap := some new }
  | some prev => { m with allocated := allocated.modify prev ({ · with next := some new }) }

-- The loop of `GetRelationKeys`. The list has no more entries than have been allocated.
def find (relId : UInt32) : Nat → Option Nat → Outcome (Option RelKeysData)
  | _, none              => .ok none
  | 0, some _            => .error .undefined
  | fuel + 1, some curr =>
    match m.allocated[curr]? with
    | none       => .error .undefined
    | some entry => if entry.relId = relId then .ok (some entry.keys) else find relId fuel entry.next

-- `fork` is what `pg_tde_get_keys_from_fork` makes of the key file if it is called. It allocates the keys
-- that it returns.
def getRelationKeys (rel : RelFileLocator) (fork : Outcome RelKeysData) : KeysAnswer :=
  match m.find rel.relNumber m.allocated.length m.tdeRelKeysMap with
  | .error e        => { keys := .error e, effects := [], map := m }
  | .ok (some keys) => { keys := .ok keys, effects := [], map := m }
  | .ok none        =>
    match fork with
    | .error e => { keys := .error e, effects := [.readKeyFile, .allocate], map := m }
    | .ok keys =>
      { keys := .ok keys, effects := [.readKeyFile, .allocate, .allocate],
        map := m.putKeysIntoMap rel.relNumber keys }

-- The list that a pointer is the head of.
def chain : Nat → Option Nat → List RelKeys
  | _, none              => []
  | 0, some _            => []
  | fuel + 1, some curr =>
    match m.allocated[curr]? with
    | none       => []
    | some entry => entry.toRelKeys :: chain fuel entry.next

def entries : List RelKeys :=
  m.chain m.allocated.length m.tdeRelKeysMap

-- The entries that are found from `tde_rel_keys_map` on.
inductive Reaches : Nat → Prop
  | head {p : Nat} : m.tdeRelKeysMap = some p → Reaches p
  | next {p q : Nat} {entry : RelKeysEntry} :
    Reaches p → m.allocated[p]? = some entry → entry.next = some q → Reaches q

end RelKeysMap

-- The key file may be another one with each lookup.
inductive MapOp
  | putKeysIntoMap (relId : UInt32) (keys : RelKeysData)
  | getRelationKeys (rel : RelFileLocator) (fork : Outcome RelKeysData)

-- A process, with the numbers of the relations that `GetRelationKeys` has returned keys for.
structure KeysProcess where
  map      : RelKeysMap
  returned : List UInt32

namespace KeysProcess

def start : KeysProcess where
  map      := { allocated := [], tdeRelKeysMap := none }
  returned := []

def step (s : KeysProcess) : MapOp → KeysProcess
  | .putKeysIntoMap relId keys => { s with map := s.map.putKeysIntoMap relId keys }
  | .getRelationKeys rel fork  =>
    let answer := s.map.getRelationKeys rel fork
    match answer.keys with
    | .error _ => { s with map := answer.map }
    | .ok _    => { map := answer.map, returned := rel.relNumber :: s.returned }

def run (ops : List MapOp) : KeysProcess :=
  ops.foldl step start

-- Each entry that has been added is reachable, and the keys that have been returned are found again without
-- reading the key file or allocating memory.
structure Kept (s : KeysProcess) : Prop where
  entries : ∀ p < s.map.allocated.length, s.map.Reaches p
  answers : ∀ rel fork, rel.relNumber ∈ s.returned →
    (s.map.getRelationKeys rel fork).effects = [] ∧ ∃ keys, (s.map.getRelationKeys rel fork).keys = .ok keys

end KeysProcess

-- At all times of a sequence of insertions and lookups.
def OnlyGrows (ops : List MapOp) : Prop :=
  ∀ before, before <+: ops → (KeysProcess.run before).Kept

-- The relation number that an operation adds to an empty map.
def MapOp.adds : MapOp → Option UInt32
  | .putKeysIntoMap relId _        => some relId
  | .getRelationKeys rel (.ok _)   => some rel.relNumber
  | .getRelationKeys _ (.error _)  => none

-- The operation adds nothing to a map that has an entry for `relId`: it is a lookup of this relation
-- number, or of one whose key file cannot be read.
def MapOp.Spares (relId : UInt32) : MapOp → Prop
  | .putKeysIntoMap _ _            => False
  | .getRelationKeys rel (.ok _)   => rel.relNumber = relId
  | .getRelationKeys _ (.error _)  => True

-- Behind the first operation that adds an entry, no operation does.
def AddsOnce : List MapOp → Prop
  | []        => True
  | op :: ops =>
    match op.adds with
    | none       => AddsOnce ops
    | some relId => ∀ op ∈ ops, op.Spares relId
