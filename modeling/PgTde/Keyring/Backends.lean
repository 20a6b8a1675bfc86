import PgTde.Encryption.Aes
import PgTde.Keyring.Api
import PgTde.Library.System

def masterKeyName : List UInt8 := toStr "master-key"

-- Where a backend is in `pg_tde_write_key_fork`, by the next step that it takes.
inductive WriteKeyFork
  | start
  -- The loop of `keyringGetLatestKey`, which is about to look up the version `i`.
  | getLatestKey (i : Nat) (prev : Option Nat)
  -- The loop of `keyringGenerateKey`, likewise, and what follows it.
  | generateKey (i : Nat)
  | storeKey (i : Nat) (kd : KeyData)
  | encrypt (masterKeyInfo : Nat)

-- The shared keyring and the backends that use it, together with the keys that backends have been given
-- and used.
structure KeyringUse (ι : Type) where
  cache : KeyringCache
  pc    : ι → WriteKeyFork
  given : List KeyInfo

-- What a step gets from outside: the result of the vault's lookup, that of `RAND_bytes`, and that of the
-- provider's store.
structure KeyringInput where
  reply  : Except String KeyData
  random : Option (Fin 32 → UInt8)
  stored : Except String Bool

namespace KeyringUse

variable {ι : Type} [DecidableEq ι] (config : KeyringConfig)

def goto (s : KeyringUse ι) (b : ι) (pc : WriteKeyFork) : KeyringUse ι :=
  { s with pc := Function.update s.pc b pc }

-- Where a backend goes on after a call into the keyring. An error report makes it leave the function.
def resume (s : KeyringUse ι) (b : ι) (call : Outcome (Option Nat) × KeyringCache)
    (next : Option Nat → WriteKeyFork) : Outcome (KeyringUse ι) :=
  match call with
  | (.ok ki, cache)   => .ok <| { s with cache }.goto b (next ki)
  | (.error e, cache) => if e = .undefined then .error e else .ok <| { s with cache }.goto b .start

def step (s : KeyringUse ι) (b : ι) (input : KeyringInput) : Outcome (KeyringUse ι) :=
  let name := keyringConstructKeyName config masterKeyName
  match s.pc b with
  | .start               => .ok <| s.goto b (.getLatestKey 1 none)
  | .getLatestKey i prev => s.resume b (keyringGetKey config input.reply (name i) s.cache) fun
    | some curr => .getLatestKey (i + 1) (some curr)
    | none      =>
      match prev with
      | some masterKeyInfo => .encrypt masterKeyInfo
      | none               => .generateKey 1
  | .generateKey i       => s.resume b (keyringGetKey config input.reply (name i) s.cache) fun
    | some _ => .generateKey (i + 1)
    | none   =>
      match input.random with
      | some data => .storeKey i { data, len := .ofNat internalKeyLen }
      -- failed to retrieve master key
      | none      => .start
  | .storeKey i kd       => s.resume b (keyringStoreKey config input.stored (name i) kd s.cache) fun
    | some masterKeyInfo => .encrypt masterKeyInfo
    -- failed to retrieve master key
    | none               => .start
  | .encrypt masterKeyInfo =>
    if masterKeyInfo < maxCacheEntries
    then .ok <| { s with given := s.cache.keys masterKeyInfo :: s.given }.goto b .start
    else .error .undefined

end KeyringUse

-- Any cache with unique names, which no backend uses at the moment.
def keyringSystem (config : KeyringConfig) (ι : Type) [DecidableEq ι] :
    System (KeyringUse ι) (ι × KeyringInput) where
  Initial s   := s.cache.keyCount ≤ maxCacheEntries ∧ s.given = [] ∧ (∀ b, s.pc b = .start) ∧
    ∀ i < s.cache.keyCount, ∀ j < s.cache.keyCount,
      (s.cache.keys i).name.str = (s.cache.keys j).name.str → i = j
  Step s a s' := (s.step config a.1 a.2).Yields s'

-- Names are unique up to entries with the same data, and each key that a backend has been given is the
-- one that every backend finds under its name.
structure KeyringUse.OneKeyPerName {ι : Type} (config : KeyringConfig) (s : KeyringUse ι) : Prop where
  unique : ∀ i < s.cache.keyCount, ∀ j < s.cache.keyCount,
    (s.cache.keys i).name.str = (s.cache.keys j).name.str →
    (s.cache.keys i).data = (s.cache.keys j).data
  given  : ∀ info ∈ s.given, ∀ reply, ∃ i,
    keyringGetKey config reply info.name s.cache = (.ok (some i), s.cache) ∧
    (s.cache.keys i).data = info.data
