import PgTde.Keyring.File
import PgTde.Keyring.Latest
import PgTde.Keyring.Vault

-- The key that a lookup yields.
def Keyring.answer (call : Outcome (Option Nat) × KeyringCache) : Outcome (Option KeyInfo) :=
  call.1.map fun ki => ki.map call.2.keys

-- Nobody can tell two states of the keyring apart.
structure KeyringCache.SameAnswers (config : KeyringConfig) (cache cache' : KeyringCache) : Prop where
  keyCount  : cache'.keyCount = cache.keyCount
  getKey    : ∀ reply name,
    Keyring.answer (keyringGetKey config reply name cache') =
    Keyring.answer (keyringGetKey config reply name cache)
  getLatest : ∀ vault internalName,
    Keyring.answer (keyringGetLatestKey config vault internalName cache') =
    Keyring.answer (keyringGetLatestKey config vault internalName cache)

-- A call of `keyringStoreKey`, and what the functions of the providers depend on: the name of the data file
-- and its content, how many bytes get written to it if it can be opened, and the vault.
structure KeyringStore where
  config                  : KeyringConfig
  keyringFileDataFileName : String
  file                    : Option (List UInt8)
  written                 : Option Nat
  vault                   : VaultConfig
  perform                 : List UInt8 → Option HttpReply
  cache                   : KeyringCache
  name                    : KeyName
  data                    : KeyData

namespace KeyringStore

variable (store : KeyringStore)

-- What the provider's function returns, if it is called.
def provider : Outcome Bool :=
  match store.config.keyringProvider with
  | .file    =>
    let outcome :=
      match store.written with
      | none         => .openFails
      | some written => .writes written
    let cache := (keyringCacheStoreKey store.name store.data store.cache).2
    match (keyringFileStoreKey store.keyringFileDataFileName outcome cache store.file).1 with
    | none              => .error .undefined
    | some (.error msg) => .error <| .error msg
    | some (.ok stored) => .ok stored
  | .vaultV2 => keyringVaultStoreKey store.vault store.perform { name := store.name, data := store.data }
  | .unknown => .ok false

def run : Outcome (Option Nat) × KeyringCache :=
  callProvider store.provider (fun stored => keyringStoreKey store.config stored store.name store.data) store.cache

-- Unless the call returns a key, it leaves the keyring as it was.
def LeavesKeyring : Prop :=
  store.run.1 ≠ .error .undefined ∧
  ((∀ ki, store.run.1 ≠ .ok (some ki)) → store.cache.SameAnswers store.config store.run.2)

-- The provider's function comes to its end.
def ProviderReturns : Prop :=
  match store.config.keyringProvider with
  | .file    => store.keyringFileDataFileName.length ≠ 0 ∧ store.written.isSome
  | .vaultV2 =>
    store.data.len.toNat ≤ 32 ∧
    ∃ url, keyringVaultKeyUrl store.vault store.name = .ok url ∧ (store.perform url).isSome
  | .unknown => True

end KeyringStore
