import PgTde.Keyring.Api

-- The settings of the vault provider, each in an array of 128 characters.
structure VaultConfig where
  keyringVaultUrl       : List UInt8
  keyringVaultMountPath : List UInt8
  url_lt                : keyringVaultUrl.length < 128
  mountPath_lt          : keyringVaultMountPath.length < 128

-- What json-c makes of JSON. An object is what a `json_object*` points to.
structure JsonLibrary where
  Object       : Type
  -- json_tokener_parse
  parse        : List UInt8 → Option Object
  -- json_object_object_get_ex
  objectGet    : Object → List UInt8 → Option Object
  -- json_object_get_string
  getString    : Object → Option (List UInt8)

-- What `curlPerform` yields, if it succeeds.
structure HttpReply where
  httpCode : Int
  body     : List UInt8

def httpSuccess (httpCode : Int) : Bool :=
  httpCode.tdiv 100 = 2

-- The string that a `char` pointer points to.
def cString (bytes : List UInt8) : List UInt8 :=
  bytes.takeWhile (· ≠ 0)

-- The URL is put together in an array of 512 characters.
def keyringVaultKeyUrl (vault : VaultConfig) (name : KeyName) : Outcome (List UInt8) :=
  let out := vault.keyringVaultUrl ++ toStr "/v1/" ++ vault.keyringVaultMountPath ++ toStr "/data/" ++ name.str
  if out.length < 512 then .ok out else .error .undefined

-- `perform` is the request, by its URL.
def keyringVaultStoreKey (vault : VaultConfig) (perform : List UInt8 → Option HttpReply) (ki : KeyInfo) :
    Outcome Bool := do
  -- All bytes of the data are read.
  if 32 < ki.data.len.toNat then
    .error .undefined
  let url ← keyringVaultKeyUrl vault ki.name
  match perform url with
  | none       => .error <| .error "HTTP(S) request to vault failed."
  | some reply => return httpSuccess reply.httpCode

section

-- `base64` is what a string encodes, if it is valid, and `data` is what `outData` points to before.
variable (json : JsonLibrary) (base64 : List UInt8 → Option (List UInt8)) (data : Fin 32 → UInt8)

-- On invalid input, or if there is no room for the result, `pg_b64_decode` clears the destination and
-- yields -1, which becomes the length.
def decodeKey (key : List UInt8) : KeyData :=
  match base64 key with
  | none       => { data := fun _ => 0, len := -1 }
  | some bytes =>
    if bytes.length ≤ 32
    then { data := fun i => bytes[i.val]?.getD (data i), len := .ofNat bytes.length }
    else { data := fun _ => 0, len := -1 }

-- Where the key is in the answer.
def keyringVaultKeyObject (body : List UInt8) : Except String json.Object :=
  match json.parse (cString body) with
  | none          => .error "Vault response is not a json object."
  | some response =>
    match json.objectGet response (toStr "data") with
    | none      => .error "No data attribute in Vault response."
    | some data =>
      match json.objectGet data (toStr "data") with
      | none       => .error "No data.data attribute in Vault response."
      | some data2 =>
        match json.objectGet data2 (toStr "key") with
        | none      => .error "No data.data.key attribute in Vault response."
        | some keyO => .ok keyO

def keyringVaultKey (body : List UInt8) : Except String (List UInt8) :=
  match keyringVaultKeyObject json body with
  | .error msg => .error msg
  | .ok keyO   =>
    match (json.getString keyO).map cString with
    | none     => .error "Key doesn't exist or empty"
    | some key => if key.length = 0 then .error "Key doesn't exist or empty" else .ok key

-- What is in `outData` in the end. The caller has cleared its length.
def keyringVaultGetKey (vault : VaultConfig) (perform : List UInt8 → Option HttpReply) (name : KeyName) :
    Outcome KeyData := do
  let url ← keyringVaultKeyUrl vault name
  match perform url with
  | none       => .error <| .error "HTTP(S) request to vault failed."
  | some reply =>
    if ¬httpSuccess reply.httpCode then
      if reply.httpCode ≠ 404
      then .error <| .error s!"Unexpected HTTP code: {reply.httpCode}"
      else return { data, len := 0 }
    else
      match keyringVaultKey json reply.body with
      | .error msg => .error <| .error msg
      | .ok key    => return decodeKey base64 data key

end

-- A keyring function gets to know what the provider's function returns, or the error that it raises.
def callProvider {α β : Type} (returned : Outcome α) (f : Except String α → Keyring β) : Keyring β :=
  fun cache =>
  match returned with
  | .ok a                => f (.ok a) cache
  | .error (.error msg)  => f (.error msg) cache
  | .error e             => (.error e, cache)

-- A lookup of a key that is not in the cache, with the vault provider.
structure VaultLookup where
  json     : JsonLibrary
  base64   : List UInt8 → Option (List UInt8)
  data     : Fin 32 → UInt8
  vault    : VaultConfig
  perform  : List UInt8 → Option HttpReply
  config   : KeyringConfig
  isVault  : config.keyringProvider = .vaultV2
  cache    : KeyringCache
  count_le : cache.keyCount ≤ maxCacheEntries
  name     : KeyName
  absent   : ∀ i < cache.keyCount, (cache.keys i).name.str ≠ name.str

namespace VaultLookup

variable (lookup : VaultLookup)

def fetched : Outcome KeyData :=
  keyringVaultGetKey lookup.json lookup.base64 lookup.data lookup.vault lookup.perform lookup.name

def run : Outcome (Option Nat) × KeyringCache :=
  callProvider lookup.fetched (fun reply => keyringGetKey lookup.config reply lookup.name) lookup.cache

-- The key that the vault answers with.
def Answers (key : List UInt8) : Prop :=
  ∃ url reply, keyringVaultKeyUrl lookup.vault lookup.name = .ok url ∧ lookup.perform url = some reply ∧
    httpSuccess reply.httpCode ∧ keyringVaultKey lookup.json reply.body = .ok key

-- The call yields an entry with the decoded key, or nothing, where the cache is as before.
def YieldsDecoded : Prop :=
  (∃ i key bytes, lookup.run.1 = .ok (some i) ∧ lookup.Answers key ∧ lookup.base64 key = some bytes ∧
    let entry := (lookup.run.2.keys i).data
    1 ≤ entry.len.toNat ∧ entry.len.toNat ≤ 32 ∧ bytes.length = entry.len.toNat ∧
    ∀ t : Fin 32, t.val < entry.len.toNat → bytes[t.val]? = some (entry.data t)) ∨
  ((lookup.run.1 = .ok none ∨ ∃ msg, lookup.run.1 = .error (.error msg)) ∧ lookup.run.2 = lookup.cache)

end VaultLookup
