import PgTde.Keys.Fork

-- Which of its callers calls `pg_tde_write_key_fork` with a key.
inductive ForkWriter (key : InternalKey)
  | createKeyFork (relname : String) (random : Block)
    (generated : key = { key := random, startLoc := 0, endLoc := 0, ctx := 0 })
  -- The record may have further bytes.
  | xlogCreateFork (more : List UInt8)

structure ForkWrite (key : InternalKey) where
  writer    : ForkWriter key
  replies   : KeyringReplies
  nestLevel : Nat

namespace ForkWrite

variable {key : InternalKey}

def perform (server : KeyServer) (rlocator : RelFileLocator) (w : ForkWrite key) (s : KeySession) :
    Outcome Unit × KeySession :=
  match w.writer with
  | .createKeyFork relname random _ =>
    server.pgTdeCreateKeyFork w.replies random w.nestLevel rlocator relname s
  | .xlogCreateFork more =>
    server.pgTdeXlogCreateFork w.replies w.nestLevel (rlocator.bytes ++ (key.bytes ++ more)) s

end ForkWrite

-- An error report ends a call, but what follows may still happen.
def KeySession.after {α : Type} : Outcome α × KeySession → Outcome KeySession
  | (.error .undefined, _) => .error .undefined
  | (_, s)                 => .ok s

def KeyServer.generateMasterKey (server : KeyServer) (s : KeySession) (replies : KeyringReplies) :
    Outcome (Option Nat) × KeySession :=
  let (r, keyring) := keyringGenerateKey server.config replies masterKeyName internalKeyLen s.keyring
  (r, { s with keyring })

-- A key file is written, maybe repeatedly. After the last time, further master keys are generated.
structure ForkRun (key : InternalKey) where
  before    : List (ForkWrite key)
  last      : ForkWrite key
  generates : List KeyringReplies

namespace ForkRun

variable {key : InternalKey} (server : KeyServer) (rlocator : RelFileLocator)

def performBefore (before : List (ForkWrite key)) (s : KeySession) : Outcome KeySession :=
  before.foldlM (fun s w => KeySession.after (w.perform server rlocator s)) s

def performGenerates (generates : List KeyringReplies) (s : KeySession) : Outcome KeySession :=
  generates.foldlM (fun s replies => KeySession.after (server.generateMasterKey s replies)) s

def perform (run : ForkRun key) (s : KeySession) : Outcome KeySession := do
  let s ← performBefore server rlocator run.before s
  match run.last.perform server rlocator s with
  | (.error e, _) => .error e
  | (.ok (), s)   => performGenerates server run.generates s

-- The run is defined, and if the last write is successful, then the key is read back, along with the
-- name of the master key that it has been written with.
structure RoundTrips (run : ForkRun key) (s : KeySession) : Prop where
  defined : run.perform server rlocator s ≠ .error .undefined
  reads   : ∀ s₁ s₂ s₃, performBefore server rlocator run.before s = .ok s₁ →
    run.last.perform server rlocator s₁ = (.ok (), s₂) →
    performGenerates server run.generates s₂ = .ok s₃ →
    ∃ masterKeyInfo,
      (keyringMasterKey server.config run.last.replies masterKeyName s₁.keyring).1 =
        .ok (some masterKeyInfo) ∧
      ∀ vault, ∃ keys s₄, server.pgTdeGetKeysFromFork vault rlocator s₃ = (.ok keys, s₄) ∧
        keys.masterKeyName.str = (s₂.keyring.keys masterKeyInfo).name.str ∧
        keys.internalKeysLen = 1 ∧ keys.internalKey = [key]

end ForkRun

-- A session in which the names of the keyring are unique. If there already is a file for a locator, then
-- it is one that has been written for it.
structure UniqueSession (server : KeyServer) (rlocator : RelFileLocator) extends KeySession where
  count_le : keyring.keyCount ≤ maxCacheEntries
  unique   : ∀ i < keyring.keyCount, ∀ j < keyring.keyCount,
    (keyring.keys i).name.str = (keyring.keys j).name.str → i = j
  fork     : ∀ content, files (server.pgTdeGetKeyFilePath rlocator) = some content →
    content.length = sizeOfRelKeysData 1
