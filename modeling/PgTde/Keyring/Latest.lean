import PgTde.Encryption.Aes
import PgTde.Keyring.Api

-- What the keyring functions get from outside in a call: the results of the vault's lookups, that of
-- `RAND_bytes`, and that of the provider's store.
structure KeyringReplies where
  vault  : KeyName → Except String KeyData
  random : Option (Fin 32 → UInt8)
  stored : Except String Bool

variable (config : KeyringConfig) (vault : KeyName → Except String KeyData)

-- while(keyringGetKey(keyringConstructKeyName(internalName, i)) != NULL), from `i` on
-- Yields the last key that has been found and the version of the first one that has not. The fuel is the
-- number of iterations until `i` overflows.
def nextVersion (internalName : List UInt8) : Nat → Nat → Option Nat → Keyring (Option Nat × Nat)
  | 0, _, _           => fun cache => (.error .undefined, cache)
  | fuel + 1, i, prev => fun cache =>
    let name := keyringConstructKeyName config internalName i
    match keyringGetKey config (vault name) name cache with
    | (.error e, cache)        => (.error e, cache)
    | (.ok none, cache)        => (.ok (prev, i), cache)
    | (.ok (some curr), cache) => nextVersion internalName fuel (i + 1) (some curr) cache

def versionFuel : Nat := 2 ^ 31 - 1

def keyringGetLatestKey (internalName : List UInt8) : Keyring (Option Nat) := fun cache =>
  match nextVersion config vault internalName versionFuel 1 none cache with
  | (.error e, cache)      => (.error e, cache)
  | (.ok (prev, _), cache) => (.ok prev, cache)

def keyringGenerateKey (replies : KeyringReplies) (internalName : List UInt8) (keyLen : Nat) :
    Keyring (Option Nat) := fun cache =>
  match nextVersion config replies.vault internalName versionFuel 1 none cache with
  | (.error e, cache)   => (.error e, cache)
  | (.ok (_, i), cache) =>
    match replies.random with
    -- openssl error
    | none      => (.ok none, cache)
    | some data =>
      let kd : KeyData := { data, len := .ofNat keyLen }
      keyringStoreKey config replies.stored (keyringConstructKeyName config internalName i) kd cache

-- The latest master key, which is generated if there is none.
def keyringMasterKey (replies : KeyringReplies) (internalName : List UInt8) : Keyring (Option Nat) :=
  fun cache =>
  match keyringGetLatestKey config replies.vault internalName cache with
  | (.error e, cache)                   => (.error e, cache)
  | (.ok (some masterKeyInfo), cache)   => (.ok (some masterKeyInfo), cache)
  | (.ok none, cache)                   =>
    keyringGenerateKey config replies internalName internalKeyLen cache
