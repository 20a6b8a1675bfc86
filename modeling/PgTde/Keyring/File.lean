import PgTde.Keyring.Api
import PgTde.Library.Memory

-- sizeof(keyInfo), and the offset of `keyCount` in a `keyringCache`
def sizeofKeyInfo : Nat := 256 + 32 + 4
def offsetofKeyCount : Nat := maxCacheEntries * sizeofKeyInfo

def keyringCacheMemorySize : Nat := offsetofKeyCount + 4

-- An `unsigned` in little-endian order.
def unsignedByte (n i : Nat) : UInt8 :=
  .ofNat (n / 256 ^ i)

def Memory.readUnsigned (m : Memory) (a : Nat) : Nat :=
  (m a).toNat + 256 * (m (a + 1)).toNat + 256 ^ 2 * (m (a + 2)).toNat + 256 ^ 3 * (m (a + 3)).toNat

namespace KeyInfo

def byte (info : KeyInfo) (o : Nat) : UInt8 :=
  if h : o < 256 then info.name.name ⟨o, h⟩
  else if h : o - 256 < 32 then info.data.data ⟨o - 256, h⟩
  else unsignedByte info.data.len.toNat (o - 256 - 32)

def ofMemory (m : Memory) (a : Nat) : KeyInfo where
  name := { name := fun t => m (a + t) }
  data := { data := fun t => m (a + 256 + t), len := .ofNat (m.readUnsigned (a + 256 + 32)) }

end KeyInfo

namespace KeyringCache

-- The bytes of the structure.
def toMemory (cache : KeyringCache) : Memory := fun x =>
  if x < offsetofKeyCount
  then (cache.keys (x / sizeofKeyInfo)).byte (x % sizeofKeyInfo)
  else unsignedByte cache.keyCount (x - offsetofKeyCount)

def ofMemory (m : Memory) : KeyringCache where
  keys i   := .ofMemory m (i * sizeofKeyInfo)
  keyCount := m.readUnsigned offsetofKeyCount

end KeyringCache

-- `file` is the content of the data file, if it can be opened.
def keyringFilePreloadCache (file : Option (List UInt8)) (m : Memory) : Memory :=
  match file with
  | some content => m.write 0 (content.take keyringCacheMemorySize)
  | none         => m

-- `keyringInitCache` after a restart, with the file provider.
def keyringInitCache (file : Option (List UInt8)) : KeyringCache :=
  .ofMemory (keyringFilePreloadCache file Memory.zero)

-- How the I/O of `keyringFileStoreKey` goes. The number of bytes that get written is at most the size of
-- the structure.
inductive FileOutcome
  | openFails
  | stops (written : Nat)
  | writes (written : Nat)
  deriving DecidableEq, Repr

-- Yields what the function returns, if the process does not stop before, and the content of the file.
def keyringFileStoreKey (keyringFileDataFileName : String) (outcome : FileOutcome)
    (cache : KeyringCache) (file : Option (List UInt8)) :
    Option (Except String Bool) × Option (List UInt8) :=
  let dump (written : Nat) := cache.toMemory.read 0 (min written keyringCacheMemorySize)
  if keyringFileDataFileName.length = 0 then
    (some (.error "Keyring datafile is not set"), file)
  else
    match outcome with
    | .openFails      => (some (.error s!"Couldn't write keyring data into '{keyringFileDataFileName}'"), file)
    | .stops written  => (none, some (dump written))
    | .writes written => (some (.ok true), some (dump written))

-- The data that `keyringGetKey` finds under a name. With the file provider, it only searches the cache.
def KeyringCache.Retrievable (cache : KeyringCache) (name : KeyName) (data : KeyData) : Prop :=
  ∃ i, cache.search name 0 cache.keyCount = .ok (some i) ∧ (cache.keys i).data = data

-- `keyringStoreKey` adds the key to the cache and calls `keyringFileStoreKey`. After a restart, all keys
-- that could be retrieved before can be retrieved, and so can the new one if the store was successful.
def SurvivesStore (keyringFileDataFileName : String) (outcome : FileOutcome) (cache : KeyringCache)
    (file : Option (List UInt8)) (name : KeyName) (data : KeyData) : Prop :=
  ∃ ki cache', keyringCacheStoreKey name data cache = (.ok ki, cache') ∧
    let (returned, file) := keyringFileStoreKey keyringFileDataFileName outcome cache' file
    (∀ n d, cache.Retrievable n d → (keyringInitCache file).Retrievable n d) ∧
    (returned = some (.ok true) → (keyringInitCache file).Retrievable name data)
