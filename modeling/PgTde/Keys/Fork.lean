import PgTde.Keyring.Backends
import PgTde.Keyring.Latest
import PgTde.Library.LittleEndian
import PgTde.Transaction.Handler

structure RelFileLocator where
  spcOid    : UInt32
  dbOid     : UInt32
  relNumber : UInt32
  deriving DecidableEq, Repr

-- The pointer `ctx` is a number, which is 0 for `NULL`.
structure InternalKey where
  key      : Block
  startLoc : UInt64
  endLoc   : UInt64
  ctx      : UInt64

structure RelKeysData where
  masterKeyName   : KeyName
  internalKeysLen : UInt64
  internalKey     : List InternalKey

-- An entry of the keys cache, which is a linked list.
structure RelKeys where
  relId : UInt32
  keys  : RelKeysData

def sizeofInternalKey : Nat := 16 + 8 + 8 + 8
def sizeofRelFileLocator : Nat := 4 + 4 + 4
def sizeOfRelKeysDataHeader : Nat := 256 + 8

def sizeOfRelKeysData (keysNum : Nat) : Nat :=
  sizeOfRelKeysDataHeader + sizeofInternalKey * keysNum

-- The bytes that start at `a`, as an array.
def byteArray (n : Nat) (bytes : List UInt8) (a : Nat) : Fin n → UInt8 :=
  fun t => bytes[a + t.val]?.getD 0

-- memcpy to the bytes from `a` on
def overwrite (bytes : List UInt8) (a : Nat) (source : List UInt8) : List UInt8 :=
  bytes.take a ++ source ++ bytes.drop (a + source.length)

namespace RelFileLocator

def bytes (rlocator : RelFileLocator) : List UInt8 :=
  toLittleEndian 4 rlocator.spcOid.toNat ++ toLittleEndian 4 rlocator.dbOid.toNat ++
    toLittleEndian 4 rlocator.relNumber.toNat

def ofBytes (bytes : List UInt8) : RelFileLocator where
  spcOid    := .ofNat (unsignedAt 4 bytes 0)
  dbOid     := .ofNat (unsignedAt 4 bytes 4)
  relNumber := .ofNat (unsignedAt 4 bytes 8)

end RelFileLocator

namespace InternalKey

def bytes (k : InternalKey) : List UInt8 :=
  List.ofFn k.key ++ toLittleEndian 8 k.startLoc.toNat ++ toLittleEndian 8 k.endLoc.toNat ++
    toLittleEndian 8 k.ctx.toNat

def ofBytes (bytes : List UInt8) (a : Nat) : InternalKey where
  key      := byteArray 16 bytes a
  startLoc := .ofNat (unsignedAt 8 bytes (a + 16))
  endLoc   := .ofNat (unsignedAt 8 bytes (a + 24))
  ctx      := .ofNat (unsignedAt 8 bytes (a + 32))

end InternalKey

namespace RelKeysData

def bytes (keys : RelKeysData) : List UInt8 :=
  List.ofFn keys.masterKeyName.name ++ toLittleEndian 8 keys.internalKeysLen.toNat ++
    keys.internalKey.flatMap (·.bytes)

def ofBytes (bytes : List UInt8) : RelKeysData where
  masterKeyName   := { name := byteArray 256 bytes 0 }
  internalKeysLen := .ofNat (unsignedAt 8 bytes 256)
  internalKey     := (List.range ((bytes.length - sizeOfRelKeysDataHeader) / sizeofInternalKey)).map
    fun i => .ofBytes bytes (sizeOfRelKeysDataHeader + i * sizeofInternalKey)

end RelKeysData

-- strncpy with the size of the array
def strncpy (name : KeyName) : KeyName where
  name i := name.str[i.val]?.getD 0

-- OpenSSL's `EVP_aes_128_cbc` without padding, on a single block.
structure AesCbc where
  encrypt         : (key iv block : Block) → Block
  decrypt         : (key iv block : Block) → Block
  decrypt_encrypt : ∀ key iv block, decrypt key iv (encrypt key iv block) = block

-- What stays the same in the server.
structure KeyServer where
  config      : KeyringConfig
  cbc         : AesCbc
  -- relpathperm(rlocator, MAIN_FORKNUM)
  relpathperm : RelFileLocator → String

-- What the functions of a backend work on: the keyring and the files, which are shared, the log, and the
-- backend's pending deletes and keys cache.
structure KeySession where
  keyring       : KeyringCache
  files         : String → Option (List UInt8)
  wal           : List (List UInt8)
  deletes       : Deletes String
  tdeRelKeysMap : List RelKeys

-- The first bytes of the data are used as the key of the cipher.
def KeyData.aesKey (data : KeyData) : Block :=
  fun t => data.data ⟨t.val, Nat.lt_of_lt_of_le t.isLt (by decide)⟩

def zeroIv : Block := fun _ => 0

def putKeysIntoMap (relId : UInt32) (keys : RelKeysData) (s : KeySession) : KeySession :=
  -- `prev` is always `NULL`, so that the new entry becomes the whole list.
  { s with tdeRelKeysMap := [{ relId, keys }] }

namespace KeyServer

variable (server : KeyServer)

def pgTdeGetKeyFilePath (rlocator : RelFileLocator) : String :=
  server.relpathperm rlocator ++ ".tde"

-- The content of the file that `data` is written to, with its first key encrypted.
def encryptedFork (masterKey : KeyData) (data : RelKeysData) : List UInt8 :=
  let block := byteArray 16 data.bytes sizeOfRelKeysDataHeader
  overwrite data.bytes sizeOfRelKeysDataHeader <|
    List.ofFn <| server.cbc.encrypt masterKey.aesKey zeroIv block

def noMasterKey : Fault := .error "failed to retrieve master key"

def pgTdeWriteKeyFork (replies : KeyringReplies) (nestLevel : Nat) (rlocator : RelFileLocator)
    (key : InternalKey) (s : KeySession) : Outcome Unit × KeySession :=
  match keyringMasterKey server.config replies masterKeyName s.keyring with
  | (.error e, keyring)                 => (.error e, { s with keyring })
  | (.ok none, keyring)                 => (.error noMasterKey, { s with keyring })
  | (.ok (some masterKeyInfo), keyring) =>
    if masterKeyInfo < maxCacheEntries then
      let info := keyring.keys masterKeyInfo
      let path := server.pgTdeGetKeyFilePath rlocator
      let data : RelKeysData :=
        { masterKeyName := strncpy info.name, internalKeysLen := 1, internalKey := [key] }
      let dataEnc := server.encryptedFork info.data data
      -- The file is not truncated.
      let content := dataEnc ++ ((s.files path).getD []).drop dataEnc.length
      (.ok (), putKeysIntoMap rlocator.relNumber data
        { s with
          keyring
          files   := Function.update s.files path (some content)
          deletes := s.deletes.registerFileForDeletion path false nestLevel })
    else
      (.error .undefined, { s with keyring })

-- `random` is the result of `RAND_bytes`.
def pgTdeCreateKeyFork (replies : KeyringReplies) (random : Option Block) (nestLevel : Nat)
    (newrlocator : RelFileLocator) (relname : String) (s : KeySession) : Outcome Unit × KeySession :=
  match random with
  | none     =>
    (.error (.fatal s!"could not generate internal key for relation \"{relname}\""), s)
  | some key =>
    let intKey : InternalKey := { key, startLoc := 0, endLoc := 0, ctx := 0 }
    let s := { s with wal := s.wal ++ [newrlocator.bytes ++ intKey.bytes] }
    server.pgTdeWriteKeyFork replies nestLevel newrlocator intKey s

def pgTdeXlogCreateFork (replies : KeyringReplies) (nestLevel : Nat) (rec : List UInt8) (s : KeySession) :
    Outcome Unit × KeySession :=
  if rec.length < sizeofInternalKey + sizeofRelFileLocator then
    (.error (.fatal "corrupted XLOG_TDE_CREATE_FORK data"), s)
  else
    server.pgTdeWriteKeyFork replies nestLevel (.ofBytes rec) (.ofBytes rec sizeofRelFileLocator) s

def pgTdeDeleteKeyFork (nestLevel : Nat) (rlocator : RelFileLocator) (s : KeySession) : KeySession :=
  let keyFilePath := server.pgTdeGetKeyFilePath rlocator
  { s with deletes := s.deletes.registerFileForDeletion keyFilePath true nestLevel }

def pgTdeGetKeysFromFork (vault : KeyName → Except String KeyData) (rlocator : RelFileLocator)
    (s : KeySession) : Outcome RelKeysData × KeySession :=
  let keyFilePath := server.pgTdeGetKeyFilePath rlocator
  match s.files keyFilePath with
  | none         => (.error (.fatal s!"could not open tde key file \"{keyFilePath}\""), s)
  | some content =>
    let nbytes := content.length
    if nbytes < sizeOfRelKeysData 1 ∨ (nbytes - sizeOfRelKeysDataHeader) % sizeofInternalKey ≠ 0 then
      (.error (.fatal s!"corrupted key data in file \"{keyFilePath}\""), s)
    else
      let name := strncpy (RelKeysData.ofBytes content).masterKeyName
      match keyringGetKey server.config (vault name) name s.keyring with
      | (.error e, keyring)                 => (.error e, { s with keyring })
      | (.ok none, keyring)                 => (.error noMasterKey, { s with keyring })
      | (.ok (some masterKeyInfo), keyring) =>
        if masterKeyInfo < maxCacheEntries then
          let block := byteArray 16 content sizeOfRelKeysDataHeader
          let dataDec := server.cbc.decrypt (keyring.keys masterKeyInfo).data.aesKey zeroIv block
          let keys := overwrite content sizeOfRelKeysDataHeader (List.ofFn dataDec)
          (.ok (.ofBytes keys), { s with keyring })
        else
          (.error .undefined, { s with keyring })

-- First it looks in a cache. If nothing is found in the cache, it reads data from the fork file.
def getRelationKeys (vault : KeyName → Except String KeyData) (rel : RelFileLocator) (s : KeySession) :
    Outcome RelKeysData × KeySession :=
  match s.tdeRelKeysMap.find? (·.relId = rel.relNumber) with
  | some curr => (.ok curr.keys, s)
  | none      =>
    match server.pgTdeGetKeysFromFork vault rel s with
    | (.error e, s) => (.error e, s)
    | (.ok keys, s) => (.ok keys, putKeysIntoMap rel.relNumber keys s)

end KeyServer

namespace KeySession

-- `durable_unlink` of the files that a callback has gone through
def unlink (s : KeySession) (deletes : Deletes String) : KeySession :=
  let unlinked := (deletes.unlinked.drop s.deletes.unlinked.length).map (·.path)
  { s with deletes, files := fun path => if path ∈ unlinked then none else s.files path }

def xactCallback (s : KeySession) (event : XactEvent) (nestLevel : Nat) : KeySession :=
  s.unlink (s.deletes.pgTdeXactCallback event nestLevel)

def subxactCallback (s : KeySession) (event : SubXactEvent) (nestLevel : Nat) : KeySession :=
  s.unlink (s.deletes.pgTdeSubxactCallback event nestLevel)

end KeySession
