import PgTde.Keyring.File
import PgTde.Keyring.Vault

-- json-c, with the functions that build objects and write them.
structure JsonBuilder extends JsonLibrary where
  -- json_object_new_object
  newObject    : Object
  -- json_object_new_string
  newString    : List UInt8 → Object
  -- json_object_object_add
  objectAdd    : Object → List UInt8 → Object → Object
  -- json_object_to_json_string
  toJsonString : Object → List UInt8

-- pg_b64_encode, and pg_b64_decode on a string that may be invalid
structure Base64 where
  encode : List UInt8 → List UInt8
  decode : List UInt8 → Option (List UInt8)

-- The vault, as it keeps what gets posted.
structure VaultServer where
  State : Type
  post  : State → List UInt8 → List UInt8 → Option HttpReply × State
  get   : State → List UInt8 → Option HttpReply

def KeyData.bytes (data : KeyData) : List UInt8 :=
  (List.ofFn data.data).take data.len.toNat

-- The string in the array `keyData`, which has 64 characters.
def encodedKey (base64 : Base64) (data : KeyData) : Outcome (List UInt8) :=
  let keyData := base64.encode data.bytes
  if data.len.toNat ≤ 32 ∧ keyData.length < 64 then .ok (cString keyData) else .error .undefined

def JsonBuilder.keyObject (json : JsonBuilder) (keyData : List UInt8) : json.Object :=
  json.objectAdd json.newObject (toStr "key") (json.newString keyData)

def JsonBuilder.request (json : JsonBuilder) (keyData : List UInt8) : json.Object :=
  json.objectAdd json.newObject (toStr "data") (json.keyObject keyData)

-- A key that is stored with the vault provider, and looked up after a restart.
structure VaultRestart where
  json    : JsonBuilder
  base64  : Base64
  vault   : VaultConfig
  server  : VaultServer
  state   : server.State
  config  : KeyringConfig
  isVault : config.keyringProvider = .vaultV2
  cache   : KeyringCache
  name    : KeyName
  data    : KeyData
  -- What the variable that `keyringGetKey` reads into contains before.
  outData : Fin 32 → UInt8

namespace VaultRestart

variable (r : VaultRestart)

def body (keyData : List UInt8) : List UInt8 :=
  cString (r.json.toJsonString (r.json.request keyData))

-- `keyringVaultStoreKey` with the content of the request.
def storeKey : Outcome Bool := do
  let keyData ← encodedKey r.base64 r.data
  keyringVaultStoreKey r.vault (fun url => (r.server.post r.state url (r.body keyData)).1)
    { name := r.name, data := r.data }

def store : Outcome (Option Nat) × KeyringCache :=
  callProvider r.storeKey (fun stored => keyringStoreKey r.config stored r.name r.data) r.cache

-- The state of the vault after the store.
def stored : Outcome r.server.State := do
  let keyData ← encodedKey r.base64 r.data
  let url ← keyringVaultKeyUrl r.vault r.name
  return (r.server.post r.state url (r.body keyData)).2

-- The lookup of the same name, in a cache that has been cleared.
def lookup (state : r.server.State) : VaultLookup where
  json     := r.json.toJsonLibrary
  base64   := r.base64.decode
  data     := r.outData
  vault    := r.vault
  perform  := r.server.get state
  config   := r.config
  isVault  := r.isVault
  cache    := keyringInitCache none
  count_le := by decide
  name     := r.name
  absent   := by
    intro i (hi : i < 0)
    omega

-- The lookup yields an entry with the same length and the same bytes.
def Survives : Prop :=
  ∃ state i, r.stored = .ok state ∧ (r.lookup state).run.1 = .ok (some i) ∧
    let entry := (r.lookup state).run.2.keys i
    entry.name = r.name ∧ entry.data.len = r.data.len ∧
    ∀ t : Fin 32, t.val < r.data.len.toNat → entry.data.data t = r.data.data t

end VaultRestart

-- What has been encoded is decoded again. Each three bytes, or what is left of them, become four characters.
structure Base64.Inverts (base64 : Base64) (bytes : List UInt8) : Prop where
  decode : base64.decode (base64.encode bytes) = some bytes
  length : (base64.encode bytes).length = 4 * ((bytes.length + 2) / 3)
  string : 0 ∉ base64.encode bytes

-- A request is read as it has been written.
structure JsonBuilder.ReadsBack (json : JsonBuilder) (keyData : List UInt8) : Prop where
  parse  : json.parse (cString (json.toJsonString (json.request keyData))) = some (json.request keyData)
  data   : json.objectGet (json.request keyData) (toStr "data") = some (json.keyObject keyData)
  key    : json.objectGet (json.keyObject keyData) (toStr "key") = some (json.newString keyData)
  string : json.getString (json.newString keyData) = some keyData

-- The vault answers with the value that has been stored.
def VaultServer.Returns (server : VaultServer) (json : JsonLibrary) : Prop :=
  ∀ s url body reply s', server.post s url body = (some reply, s') → httpSuccess reply.httpCode →
    ∀ request data, json.parse body = some request → json.objectGet request (toStr "data") = some data →
    ∃ answer response outer, server.get s' url = some answer ∧ httpSuccess answer.httpCode ∧
      json.parse (cString answer.body) = some response ∧
      json.objectGet response (toStr "data") = some outer ∧ json.objectGet outer (toStr "data") = some data
