import PgTde.Keys.Fork
import PgTde.Library.System

-- What a backend has to itself. `origin` is the path and the content of the file that the entry of the
-- keys cache goes back to, which the code does not record.
structure KeyBackend where
  deletes       : Deletes String
  tdeRelKeysMap : List RelKeys
  origin        : Option (String × List UInt8)

-- Backends that share the keyring and the files. `answers` are the results of `GetRelationKeys`, each
-- along with that of reading the key file at the same time.
structure KeyCluster (ι : Type) where
  keyring  : KeyringCache
  files    : String → Option (List UInt8)
  wal      : List (List UInt8)
  backends : ι → KeyBackend
  answers  : List (Outcome RelKeysData × Outcome RelKeysData)

inductive KeyAction
  | createKeyFork (replies : KeyringReplies) (random : Option Block) (newrlocator : RelFileLocator)
    (relname : String)
  | deleteKeyFork (rlocator : RelFileLocator)
  | getRelationKeys (vault : KeyName → Except String KeyData) (rel : RelFileLocator)
  | xactCallback (event : XactEvent)
  | subxactCallback (event : SubXactEvent)
  -- The backend ends, and another one takes its place.
  | exit

namespace KeyCluster

variable {ι : Type} [DecidableEq ι] (server : KeyServer)

def session (s : KeyCluster ι) (b : ι) : KeySession where
  keyring       := s.keyring
  files         := s.files
  wal           := s.wal
  deletes       := (s.backends b).deletes
  tdeRelKeysMap := (s.backends b).tdeRelKeysMap

-- The state after a call of a backend.
def resume (s : KeyCluster ι) (b : ι) (session : KeySession) (origin : Option (String × List UInt8)) :
    KeyCluster ι where
  keyring  := session.keyring
  files    := session.files
  wal      := session.wal
  backends := Function.update s.backends b
    { deletes := session.deletes, tdeRelKeysMap := session.tdeRelKeysMap, origin }
  answers  := s.answers

-- The file that an entry goes back to which is added to the keys cache for `rel`.
def originOf (session : KeySession) (rel : RelFileLocator) : Option (String × List UInt8) :=
  let path := server.pgTdeGetKeyFilePath rel
  (session.files path).map fun content => (path, content)

def createKeyFork (s : KeyCluster ι) (b : ι) (nestLevel : Nat) (replies : KeyringReplies)
    (random : Option Block) (newrlocator : RelFileLocator) (relname : String) : Outcome (KeyCluster ι) :=
  match server.pgTdeCreateKeyFork replies random nestLevel newrlocator relname (s.session b) with
  | (.error .undefined, _) => .error .undefined
  | (.error _, session)    => .ok <| s.resume b session (s.backends b).origin
  | (.ok (), session)      => .ok <| s.resume b session (originOf server session newrlocator)

def getRelationKeys (s : KeyCluster ι) (b : ι) (vault : KeyName → Except String KeyData)
    (rel : RelFileLocator) : Outcome (KeyCluster ι) :=
  let stored := (server.pgTdeGetKeysFromFork vault rel (s.session b)).1
  let hit := ((s.backends b).tdeRelKeysMap.find? (·.relId = rel.relNumber)).isSome
  match server.getRelationKeys vault rel (s.session b) with
  | (.error .undefined, _) => .error .undefined
  | (.error e, session)    =>
    .ok { s.resume b session (s.backends b).origin with answers := (.error e, stored) :: s.answers }
  | (.ok keys, session)    =>
    let origin := if hit then (s.backends b).origin else originOf server session rel
    .ok { s.resume b session origin with answers := (.ok keys, stored) :: s.answers }

-- What the backend `b` does at the nesting level `nestLevel`.
def step (s : KeyCluster ι) (b : ι) (nestLevel : Nat) : KeyAction → Outcome (KeyCluster ι)
  | .createKeyFork replies random newrlocator relname =>
    s.createKeyFork server b nestLevel replies random newrlocator relname
  | .deleteKeyFork rlocator =>
    .ok <| s.resume b (server.pgTdeDeleteKeyFork nestLevel rlocator (s.session b)) (s.backends b).origin
  | .getRelationKeys vault rel => s.getRelationKeys server b vault rel
  | .xactCallback event =>
    .ok <| s.resume b ((s.session b).xactCallback event nestLevel) (s.backends b).origin
  | .subxactCallback event =>
    .ok <| s.resume b ((s.session b).subxactCallback event nestLevel) (s.backends b).origin
  | .exit =>
    let deletes : Deletes String := { pendingDeletes := [], unlinked := [] }
    .ok <| s.resume b { s.session b with deletes, tdeRelKeysMap := [] } none

-- Each call of `GetRelationKeys` has returned the keys that the relation's key file held at that time.
def Faithful (s : KeyCluster ι) : Prop :=
  ∀ answer ∈ s.answers, answer.1 = answer.2

end KeyCluster

-- Any keyring with unique names, and any key files that have been written. The caches are empty.
def keySystem (server : KeyServer) (ι : Type) [DecidableEq ι] :
    System (KeyCluster ι) (ι × Nat × KeyAction) where
  Initial s   := s.keyring.keyCount ≤ maxCacheEntries ∧
    (∀ i < s.keyring.keyCount, ∀ j < s.keyring.keyCount,
      (s.keyring.keys i).name.str = (s.keyring.keys j).name.str → i = j) ∧
    (∀ path content, s.files path = some content → content.length = sizeOfRelKeysData 1) ∧
    (∀ b, (s.backends b).tdeRelKeysMap = [] ∧ (s.backends b).origin = none) ∧ s.answers = []
  Step s a s' := (s.step server a.1 a.2.1 a.2.2).Yields s'
