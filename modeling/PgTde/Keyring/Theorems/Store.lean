import PgTde.Keyring.Store
import PgTde.Keyring.Theorems.Latest

namespace KeyringCache

variable {cache cache' : KeyringCache} {config : KeyringConfig} {name : KeyName} {data : KeyData}

-- Two caches hold the same entries.
structure Agrees (cache cache' : KeyringCache) : Prop where
  keyCount : cache'.keyCount = cache.keyCount
  keys     : ∀ i < cache.keyCount, cache'.keys i = cache.keys i

theorem Agrees.append (h : cache.Agrees cache') : (cache.append name data).Agrees (cache'.append name data) where
  keyCount  := by simp only [KeyringCache.append, h.keyCount]
  keys i hi := by
    simp only [KeyringCache.append, h.keyCount]
    by_cases hl : i = cache.keyCount
    case pos => rw [if_pos hl, if_pos hl]
    case neg =>
      rw [if_neg hl, if_neg hl]
      exact h.keys i <| Nat.lt_of_le_of_ne (Nat.le_of_lt_succ hi) hl

theorem Agrees.search (h : cache.Agrees cache') {i n : Nat} (hn : i + n ≤ cache.keyCount) :
    cache'.search name i n = cache.search name i n := by
  induction n generalizing i
  case zero      => rfl
  case succ n hi =>
    rw [KeyringCache.search, KeyringCache.search, h.keys i (by omega), hi (by omega)]

-- The index that a search finds is one of those searched.
theorem search_lt {i n k : Nat} (h : cache.search name i n = .ok (some k)) : k < i + n := by
  induction n generalizing i
  case zero      => cases h
  case succ n hi =>
    rw [KeyringCache.search] at h
    split at h
    case isFalse => cases h
    case isTrue  =>
      split at h
      case isTrue  => cases h; omega
      case isFalse => have := hi h; omega

-- A call yields the same on two caches, a pointer to an entry that they agree on.
structure SameCall (cache : KeyringCache) (call call' : Outcome (Option Nat) × KeyringCache) : Prop where
  result  : call'.1 = call.1
  agrees  : call.2.Agrees call'.2
  le      : cache.keyCount ≤ call.2.keyCount
  pointer : ∀ i, call.1 = .ok (some i) → i < call.2.keyCount

theorem SameCall.answer {call call' : Outcome (Option Nat) × KeyringCache} (h : cache.SameCall call call') :
    Keyring.answer call' = Keyring.answer call := by
  obtain ⟨r, c⟩ := call
  obtain ⟨r', c'⟩ := call'
  obtain rfl : r' = r := h.result
  cases r'
  case error => rfl
  case ok ki =>
    cases ki
    case none   => rfl
    case some i =>
      have hk : c'.keys i = c.keys i := h.agrees.keys i (h.pointer i rfl)
      simp only [Keyring.answer, Except.map, Option.map_some, hk]

theorem Agrees.getKey (h : cache.Agrees cache') (reply : Except String KeyData) (name : KeyName) :
    cache.SameCall (keyringGetKey config reply name cache) (keyringGetKey config reply name cache') := by
  have hself {r : Outcome (Option Nat)} (hp : ∀ i, r = .ok (some i) → i < cache.keyCount) :
      cache.SameCall (r, cache) (r, cache') := ⟨rfl, h, Nat.le_refl _, hp⟩
  simp only [keyringGetKey, h.keyCount, h.search (Nat.le_of_eq (Nat.zero_add _))]
  cases hs : cache.search name 0 cache.keyCount
  case error e => exact hself <| by simp
  case ok r    =>
    cases r
    case some i =>
      have hi := search_lt hs
      rw [Nat.zero_add] at hi
      apply hself
      rintro _ ⟨⟩
      exact hi
    case none   =>
      cases config.keyringProvider
      case unknown => exact hself <| by simp
      case file    => exact hself <| by simp
      case vaultV2 =>
        cases reply
        case error msg => exact hself <| by simp
        case ok data   =>
          dsimp only
          split
          case isFalse => exact hself <| by simp
          case isTrue  =>
            by_cases hc : cache.keyCount < maxCacheEntries
            case neg =>
              have hc' : ¬cache'.keyCount < maxCacheEntries := h.keyCount ▸ hc
              simp only [keyringCacheStoreKey, if_neg hc, if_neg hc']
              exact hself <| by simp [Except.map]
            case pos =>
              rw [keyringCacheStoreKey_eq hc, keyringCacheStoreKey_eq (h.keyCount ▸ hc), h.keyCount]
              refine ⟨rfl, h.append, Nat.le_succ _, ?_⟩
              rintro _ ⟨⟩
              exact Nat.lt_succ_self _

-- The same for the search for the next version, where `prev` points to an entry.
theorem Agrees.versions {vault : KeyName → Except String KeyData} {internalName : List UInt8} {fuel i : Nat}
    {prev : Option Nat} (h : cache.Agrees cache') (hp : ∀ k, prev = some k → k < cache.keyCount) :
    let call  := nextVersion config vault internalName fuel i prev cache
    let call' := nextVersion config vault internalName fuel i prev cache'
    call'.1 = call.1 ∧ call.2.Agrees call'.2 ∧
    ∀ prev i, call.1 = .ok (prev, i) → ∀ k, prev = some k → k < call.2.keyCount := by
  induction fuel generalizing i prev cache cache'
  case zero         => exact ⟨rfl, h, by simp [nextVersion]⟩
  case succ fuel hi =>
    simp only [nextVersion]
    generalize keyringConstructKeyName config internalName i = name
    have hs : cache.SameCall (keyringGetKey config (vault name) name cache)
      (keyringGetKey config (vault name) name cache') := h.getKey _ _
    obtain ⟨hr, ha, hl, hk⟩ := hs
    generalize keyringGetKey config (vault name) name cache = call at hr ha hl hk
    generalize keyringGetKey config (vault name) name cache' = call' at hr ha
    obtain ⟨r, c⟩ := call
    obtain ⟨r', c'⟩ := call'
    obtain rfl : r' = r := hr
    cases r'
    case error e => exact ⟨rfl, ha, by simp⟩
    case ok curr =>
      cases curr
      case none      =>
        refine ⟨rfl, ha, ?_⟩
        rintro _ _ ⟨⟩ k hp'
        exact Nat.lt_of_lt_of_le (hp k hp') hl
      case some curr =>
        apply hi ha
        rintro k ⟨⟩
        exact hk curr rfl

theorem Agrees.sameAnswers (h : cache.Agrees cache') : cache.SameAnswers config cache' where
  keyCount                     := h.keyCount
  getKey reply name            := (h.getKey reply name).answer
  getLatest vault internalName := by
    obtain ⟨hr, ha, hk⟩ := @Agrees.versions cache cache' config vault internalName versionFuel 1 none h (by simp)
    simp only [keyringGetLatestKey]
    generalize nextVersion config vault internalName versionFuel 1 none cache = call at hr ha hk
    generalize nextVersion config vault internalName versionFuel 1 none cache' = call' at hr ha
    obtain ⟨r, c⟩ := call
    obtain ⟨r', c'⟩ := call'
    obtain rfl : r' = r := hr
    cases r'
    case error e => rfl
    case ok r    =>
      obtain ⟨prev, i⟩ := r
      cases prev
      case none      => rfl
      case some curr =>
        have hc : c'.keys curr = c.keys curr := ha.keys curr (hk _ _ rfl curr rfl)
        simp only [Keyring.answer, Except.map, Option.map_some, hc]

-- An entry that is added and removed again leaves no trace.
theorem agrees_removed : cache.Agrees { cache.append name data with keyCount := cache.keyCount } where
  keyCount  := rfl
  keys _ hi := append_keys_of_lt hi

end KeyringCache

namespace KeyringStore

open KeyringCache

variable {store : KeyringStore}

-- The provider's function raises an error, or its behavior is undefined, unless it returns.
theorem provider_cases :
    (store.ProviderReturns ∧ ∃ stored, store.provider = .ok stored) ∨
    (¬store.ProviderReturns ∧ store.config.keyringProvider ≠ .unknown ∧
      (store.provider = .error .undefined ∨ ∃ msg, store.provider = .error (.error msg))) := by
  simp only [ProviderReturns, provider]
  cases store.config.keyringProvider
  case unknown => exact .inl ⟨trivial, false, rfl⟩
  case file    =>
    simp only [keyringFileStoreKey]
    by_cases hn : store.keyringFileDataFileName.length = 0
    case pos => exact .inr ⟨fun h => h.left hn, by simp, .inr ⟨_, by rw [if_pos hn]⟩⟩
    case neg =>
      rw [if_neg hn]
      cases store.written
      case none   => exact .inr ⟨by simp, by simp, .inr ⟨_, rfl⟩⟩
      case some n => exact .inl ⟨⟨hn, rfl⟩, true, rfl⟩
  case vaultV2 =>
    simp only [keyringVaultStoreKey]
    by_cases hl : 32 < store.data.len.toNat
    case pos => exact .inr ⟨fun h => by omega, by simp, .inl <| by rw [if_pos hl]; rfl⟩
    case neg =>
      rw [if_neg hl]
      cases hu : keyringVaultKeyUrl store.vault store.name
      case error e =>
        obtain rfl : e = .undefined := by
          simp only [keyringVaultKeyUrl] at hu
          split at hu
          · cases hu
          · exact Except.error.inj hu.symm
        refine .inr ⟨?_, by simp, .inl rfl⟩
        rintro ⟨-, url, ⟨⟩, -⟩
      case ok url  =>
        simp only [Outcome.ok_bind, Outcome.pure_eq]
        cases hr : store.perform url
        case none       =>
          refine .inr ⟨?_, by simp, .inr ⟨_, rfl⟩⟩
          rintro ⟨-, _, ⟨⟩, hs⟩
          simp [hr] at hs
        case some reply => exact .inl ⟨⟨by omega, url, rfl, by rw [hr]; rfl⟩, _, rfl⟩

theorem run_full (h : ¬store.cache.keyCount < maxCacheEntries) : store.run.1 = .error .undefined := by
  simp only [run, callProvider]
  obtain ⟨-, stored, hp⟩ | ⟨-, -, hp | ⟨msg, hp⟩⟩ := @provider_cases store
  · rw [hp]
    exact keyringStoreKey_undefined h
  · rw [hp]
  · rw [hp]
    exact keyringStoreKey_undefined h

theorem run_of_returned {stored : Bool} (h : store.cache.keyCount < maxCacheEntries)
    (hp : store.provider = .ok stored) :
    (∃ ki, store.run.1 = .ok (some ki)) ∨
    store.run = (.ok none, { store.cache.append store.name store.data with keyCount := store.cache.keyCount }) := by
  simp only [run, callProvider, hp, keyringStoreKey, keyringCacheStoreKey_eq h]
  cases store.config.keyringProvider <;> cases stored
  case unknown.false => exact .inr rfl
  case unknown.true  => exact .inr rfl
  case file.false    => exact .inr rfl
  case file.true     => exact .inl ⟨_, rfl⟩
  case vaultV2.false => exact .inr rfl
  case vaultV2.true  => exact .inl ⟨_, rfl⟩

-- The entry stays in the cache if an error is raised.
theorem run_of_raised {msg : String} (h : store.cache.keyCount < maxCacheEntries)
    (hu : store.config.keyringProvider ≠ .unknown) (hp : store.provider = .error (.error msg)) :
    store.run = (.error (.error msg), store.cache.append store.name store.data) := by
  simp only [run, callProvider, hp, keyringStoreKey, keyringCacheStoreKey_eq h]
  cases hc : store.config.keyringProvider
  case unknown => exact absurd hc hu
  case file    => rfl
  case vaultV2 => rfl

-- A call that stores nothing leaves no trace, unless the provider's function does not come to its end.
theorem leavesKeyring_iff (store : KeyringStore) :
    store.LeavesKeyring ↔ store.cache.keyCount < maxCacheEntries ∧ store.ProviderReturns := by
  by_cases hc : store.cache.keyCount < maxCacheEntries
  case neg => simp [LeavesKeyring, run_full hc, hc]
  case pos =>
    obtain ⟨hr, stored, hp⟩ | ⟨hr, hu, hp⟩ := @provider_cases store
    case inl =>
      simp only [hc, hr, and_self, iff_true]
      obtain ⟨ki, hk⟩ | hk := run_of_returned hc hp
      · exact ⟨by simp [hk], fun hn => absurd hk (hn ki)⟩
      · exact ⟨by simp [hk], fun _ => by rw [hk]; exact agrees_removed.sameAnswers⟩
    case inr =>
      simp only [hr, and_false, iff_false]
      rintro ⟨hd, hs⟩
      obtain hp | ⟨msg, hp⟩ := hp
      · exact hd <| by simp only [run, callProvider, hp]
      · rw [run_of_raised hc hu hp] at hs
        have hk := (hs (by simp)).keyCount
        simp [KeyringCache.append] at hk

end KeyringStore

-- A store to a data file that cannot be opened, by the first user of the keyring.
def unwritableStore : KeyringStore where
  config.keyringProvider      := .file
  config.keyringKeyPrefix     := none
  keyringFileDataFileName     := "/etc/keys"
  file                        := none
  written                     := none
  vault.keyringVaultUrl       := []
  vault.keyringVaultMountPath := []
  vault.url_lt                := by decide
  vault.mountPath_lt          := by decide
  perform _                   := none
  cache.keys _                := { name := .ofStr [], data := { data := fun _ => 0, len := 0 } }
  cache.keyCount              := 0
  name                        := .ofStr (toStr "master-key-1")
  data                        := { data := fun _ => 7, len := 16 }

-- The key stays in the cache although it was not stored.
theorem not_leavesKeyring_unwritableStore : ¬unwritableStore.LeavesKeyring := by
  rintro ⟨-, hs⟩
  have hk := (hs (by rintro ki ⟨⟩)).keyCount
  exact absurd hk (by decide)
