import PgTde.Fault

def maxCacheEntries : Nat := 1024

-- A `char` array, which usually holds a string and, behind its terminating zero, arbitrary bytes.
structure KeyName where
  name : Fin 256 → UInt8

namespace KeyName

def str (n : KeyName) : List UInt8 :=
  (List.ofFn n.name).takeWhile (· ≠ 0)

-- What `snprintf` makes of a text. It terminates the string in any case.
def ofStr (s : List UInt8) : KeyName where
  name i := (s.take 255)[i.val]?.getD 0

end KeyName

structure KeyData where
  data : Fin 32 → UInt8
  len  : UInt32

structure KeyInfo where
  name : KeyName
  data : KeyData

structure KeyringCache where
  keys     : Nat → KeyInfo
  keyCount : Nat

inductive KeyringProvider
  | unknown
  | file
  | vaultV2
  deriving DecidableEq, Repr

-- The parts of the server's configuration that the keyring depends on.
structure KeyringConfig where
  keyringProvider  : KeyringProvider
  keyringKeyPrefix : Option (List UInt8)

-- A call that may change the cache even if it raises an error. Pointers into the cache are indices of
-- `keys`.
abbrev Keyring (α : Type) := KeyringCache → Outcome α × KeyringCache

namespace KeyringCache

-- for(int i = 0; i < cache->keyCount; ++i), from `i` on
-- The names are compared with `strcmp`. Every name that is searched for is terminated.
def search (cache : KeyringCache) (name : KeyName) : Nat → Nat → Outcome (Option Nat)
  | _, 0     => .ok none
  | i, n + 1 =>
    if i < maxCacheEntries then
      if (cache.keys i).name.str = name.str then .ok (some i) else search cache name (i + 1) n
    else
      .error .undefined

end KeyringCache

open KeyringCache

def keyringCacheStoreKey (name : KeyName) (data : KeyData) : Keyring Nat := fun cache =>
  if cache.keyCount < maxCacheEntries then
    (.ok cache.keyCount,
      { keys i   := if i = cache.keyCount then { name, data } else cache.keys i
        keyCount := cache.keyCount + 1 })
  else
    (.error .undefined, cache)

-- `reply` is what `keyringVaultGetKey` leaves in `data`, or the error that it raises, if it is called.
def keyringGetKey (config : KeyringConfig) (reply : Except String KeyData) (name : KeyName) :
    Keyring (Option Nat) := fun cache =>
  match cache.search name 0 cache.keyCount with
  | .error e     => (.error e, cache)
  | .ok (some i) => (.ok (some i), cache)
  | .ok none     =>
    match config.keyringProvider with
    | .vaultV2 =>
      match reply with
      | .error msg => (.error <| .error msg, cache)
      | .ok data   =>
        if data.len > 0 then
          let (i, cache) := keyringCacheStoreKey name data cache
          (i.map some, cache)
        else
          (.ok none, cache)
    | .file | .unknown => (.ok none, cache)

-- `stored` is the result of the provider's function that stores a key, or the error that it raises.
def keyringStoreKey (config : KeyringConfig) (stored : Except String Bool) (name : KeyName) (data : KeyData) :
    Keyring (Option Nat) := fun cache =>
  match keyringCacheStoreKey name data cache with
  | (.error e, cache) => (.error e, cache)
  | (.ok ki, cache)   =>
    let failed : Outcome (Option Nat) × KeyringCache :=
      (.ok none, { cache with keyCount := cache.keyCount - 1 })
    match config.keyringProvider with
    | .file | .vaultV2 =>
      match stored with
      | .error msg => (.error <| .error msg, cache)
      | .ok true   => (.ok (some ki), cache)
      | .ok false  => failed
    | .unknown => failed

def toStr (s : String) : List UInt8 :=
  s.toList.map fun c => .ofNat c.toNat

def keyringConstructKeyName (config : KeyringConfig) (internalName : List UInt8) (version : Nat) :
    KeyName :=
  let versioned := internalName ++ toStr "-" ++ toStr (Nat.repr version)
  match config.keyringKeyPrefix with
  | some keyPrefix =>
    if keyPrefix.length > 0
    then .ofStr (keyPrefix ++ toStr "-" ++ versioned)
    else .ofStr versioned
  | none => .ofStr versioned
