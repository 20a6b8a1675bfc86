import PgTde.Keyring.Latest
import PgTde.Library.System

-- What the name of a key starts with.
def keyNamePrefix (config : KeyringConfig) : List UInt8 :=
  match config.keyringKeyPrefix with
  | some keyPrefix => if keyPrefix.length > 0 then keyPrefix ++ toStr "-" else []
  | none           => []

-- The name of a key in full.
def keyNameText (config : KeyringConfig) (internalName : List UInt8) (version : Nat) : List UInt8 :=
  keyNamePrefix config ++ internalName ++ toStr "-" ++ toStr (Nat.repr version)

-- The name fits into its array, along with the terminating zero.
def NameFits (config : KeyringConfig) (internalName : List UInt8) (version : Nat) : Prop :=
  (keyNameText config internalName version).length < 256

-- A string that is so short that no name that gets constructed from it is truncated. A cache has no more
-- than `maxCacheEntries` versions, and the loops try one more.
structure InternalName (config : KeyringConfig) where
  name   : List UInt8
  string : 0 ∉ name
  fits   : ∀ version ≤ maxCacheEntries + 1, NameFits config name version

-- The keyring as a whole: the cache of the process, and the names of the keys that the provider has
-- stored.
structure VersionedKeyring where
  cache  : KeyringCache
  stored : List (List UInt8)

-- Some entry has the name of a version.
def KeyringCache.Present (cache : KeyringCache) (config : KeyringConfig) (internalName : List UInt8)
    (version : Nat) : Prop :=
  ∃ i < cache.keyCount, (cache.keys i).name.str = (keyringConstructKeyName config internalName version).str

-- The entry of a version if there are `n` of them, or `NULL` if there are none.
structure KeyringCache.Latest (cache : KeyringCache) (config : KeyringConfig) (internalName : List UInt8)
    (n : Nat) (latest : Option Nat) : Prop where
  none : n = 0 → latest = .none
  some : 0 < n → ∃ i, latest = .some i ∧ i < cache.keyCount ∧
    (cache.keys i).name.str = (keyringConstructKeyName config internalName n).str

-- What a cache is like that has another entry than before, where all other lookups are as before.
structure KeyringCache.AddsOnly (cache cache' : KeyringCache) (added : KeyName) (keyLen ki : Nat) : Prop where
  keyCount : cache'.keyCount = cache.keyCount + 1
  name     : (cache'.keys ki).name = added
  len      : (cache'.keys ki).data.len = .ofNat keyLen
  found    : cache'.search added 0 cache'.keyCount = .ok (some ki)
  entries  : ∀ i < cache.keyCount, cache'.keys i = cache.keys i
  lookups  : ∀ other : KeyName, other.str ≠ added.str →
    cache'.search other 0 cache'.keyCount = cache.search other 0 cache.keyCount

namespace VersionedKeyring

-- What the vault finds has been stored there. It may fail at any time.
def Answers (s : VersionedKeyring) (vault : KeyName → Except String KeyData) : Prop :=
  ∀ name data, vault name = .ok data → data.len > 0 → name.str ∈ s.stored

-- A successful call of `keyringGenerateKey`.
structure Generates (config : KeyringConfig) (replies : KeyringReplies) (a : InternalName config)
    (keyLen : Nat) (s : VersionedKeyring) (ki : Nat) (cache : KeyringCache) : Prop where
  answers : s.Answers replies.vault
  -- assert(keyLen <= 32)
  assert  : keyLen ≤ 32
  call    : keyringGenerateKey config replies a.name keyLen s.cache = (.ok (some ki), cache)

-- The request to the vault for the version that comes next fails.
def LookupFails (config : KeyringConfig) (vault : KeyName → Except String KeyData) (internalName : List UInt8)
    (n : Nat) (msg : String) : Prop :=
  config.keyringProvider = .vaultV2 ∧ vault (keyringConstructKeyName config internalName (n + 1)) = .error msg

-- There are the versions from 1 to `n` of an internal name. All searches end, with the version `n`, or with
-- an error that the vault reports, and a key that gets generated becomes the version `n + 1`.
structure Versions (config : KeyringConfig) (s : VersionedKeyring) (a : InternalName config) (n : Nat) :
    Prop where
  present  : ∀ version, NameFits config a.name version →
    (s.cache.Present config a.name version ↔ 1 ≤ version ∧ version ≤ n)
  search   : ∀ vault, s.Answers vault →
    let call := nextVersion config vault a.name versionFuel 1 none s.cache
    (∃ msg, LookupFails config vault a.name n msg ∧ call = (.error (.error msg), s.cache)) ∨
    ∃ prev, call = (.ok (prev, n + 1), s.cache)
  latest   : ∀ vault, s.Answers vault →
    let call := keyringGetLatestKey config vault a.name s.cache
    (∃ msg, LookupFails config vault a.name n msg ∧ call = (.error (.error msg), s.cache)) ∨
    ∃ ki, call = (.ok ki, s.cache) ∧ s.cache.Latest config a.name n ki
  generate : ∀ replies keyLen ki cache, s.Generates config replies a keyLen ki cache →
    s.cache.AddsOnly cache (keyringConstructKeyName config a.name (n + 1)) keyLen ki

end VersionedKeyring

-- A process that starts with an empty keyring and generates keys of any names.
def versionedSystem (config : KeyringConfig) :
    System VersionedKeyring (InternalName config × Nat × KeyringReplies) where
  Initial s   := s.cache.keyCount = 0 ∧ s.stored = []
  Step s a s' := ∃ ki, s.Generates config a.2.2 a.1 a.2.1 ki s'.cache ∧
    s'.stored = (s'.cache.keys ki).name.str :: s.stored

