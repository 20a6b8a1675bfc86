import PgTde.Keyring.File
import PgTde.Keyring.Latest

-- The indices of the entries that a search reads, from `i` on. It does not get beyond one that is not
-- there.
def KeyringCache.searched (cache : KeyringCache) (name : KeyName) : Nat → Nat → List Nat
  | _, 0     => []
  | i, n + 1 =>
    if i < maxCacheEntries then
      if (cache.keys i).name.str = name.str then [i] else i :: searched cache name (i + 1) n
    else
      [i]

-- The calls that access the entries of the cache.
inductive CacheCall
  | getKey (reply : Except String KeyData) (name : KeyName)
  | storeKey (stored : Except String Bool) (name : KeyName) (data : KeyData)

namespace CacheCall

variable (config : KeyringConfig)

def run : CacheCall → Keyring (Option Nat)
  | getKey reply name         => keyringGetKey config reply name
  | storeKey stored name data => keyringStoreKey config stored name data

-- The indices of the entries that a call reads or writes.
def entries (cache : KeyringCache) : CacheCall → List Nat
  | getKey reply name =>
    cache.searched name 0 cache.keyCount ++
    match cache.search name 0 cache.keyCount, config.keyringProvider, reply with
    | .ok none, .vaultV2, .ok data => if data.len > 0 then [cache.keyCount] else []
    | _, _, _                      => []
  | storeKey _ _ _    => [cache.keyCount]

def runAll (cache : KeyringCache) : List CacheCall → KeyringCache
  | []            => cache
  | call :: calls => runAll (call.run config cache).2 calls

-- All entries that the calls access are entries of the array, and the count never exceeds its size.
def InBounds (cache : KeyringCache) : List CacheCall → Prop
  | []            => cache.keyCount ≤ maxCacheEntries
  | call :: calls =>
    cache.keyCount ≤ maxCacheEntries ∧ (∀ i ∈ call.entries config cache, i < maxCacheEntries) ∧
    InBounds (call.run config cache).2 calls

end CacheCall

-- The keyring's operations, with what they get from outside.
inductive KeyringOp
  | getKey (reply : Except String KeyData) (name : KeyName)
  | storeKey (stored : Except String Bool) (name : KeyName) (data : KeyData)
  | getLatestKey (vault : KeyName → Except String KeyData) (internalName : List UInt8)
  | generateKey (replies : KeyringReplies) (internalName : List UInt8) (keyLen : Nat)

namespace KeyringOp

variable (config : KeyringConfig)

def run : KeyringOp → Keyring (Option Nat)
  | getKey reply name                       => keyringGetKey config reply name
  | storeKey stored name data               => keyringStoreKey config stored name data
  | getLatestKey vault internalName         => keyringGetLatestKey config vault internalName
  | generateKey replies internalName keyLen => keyringGenerateKey config replies internalName keyLen

-- The lookups of the versions from `i` on.
def versionCalls (vault : KeyName → Except String KeyData) (internalName : List UInt8) :
    Nat → Nat → KeyringCache → List CacheCall
  | 0, _, _               => []
  | fuel + 1, i, cache =>
    let name := keyringConstructKeyName config internalName i
    .getKey (vault name) name ::
    match keyringGetKey config (vault name) name cache with
    | (.ok (some _), cache) => versionCalls vault internalName fuel (i + 1) cache
    | _                     => []

-- The calls that an operation consists of.
def calls (cache : KeyringCache) : KeyringOp → List CacheCall
  | getKey reply name                       => [.getKey reply name]
  | storeKey stored name data               => [.storeKey stored name data]
  | getLatestKey vault internalName         => versionCalls config vault internalName versionFuel 1 cache
  | generateKey replies internalName keyLen =>
    versionCalls config replies.vault internalName versionFuel 1 cache ++
    match nextVersion config replies.vault internalName versionFuel 1 none cache, replies.random with
    | (.ok (_, i), _), some data =>
      [.storeKey replies.stored (keyringConstructKeyName config internalName i) { data, len := .ofNat keyLen }]
    | _, _ => []

-- The calls of a sequence of operations, each of which may fail. It does not go on after undefined behavior.
def allCalls : KeyringCache → List KeyringOp → List CacheCall
  | _, []            => []
  | cache, op :: ops =>
    op.calls config cache ++
    match op.run config cache with
    | (.error .undefined, _) => []
    | (_, cache)             => allCalls cache ops

end KeyringOp
