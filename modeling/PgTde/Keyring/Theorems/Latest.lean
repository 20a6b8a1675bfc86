import PgTde.Keyring.Latest
import PgTde.Keyring.Theorems.Api

open KeyringCache

variable {config : KeyringConfig} {vault : KeyName → Except String KeyData} {replies : KeyringReplies}
variable {cache cache' : KeyringCache} {internalName : List UInt8} {name : KeyName}
variable {reply : Except String KeyData} {fuel i : Nat} {prev : Option Nat}

theorem KeyringCache.Extends.trans {c : KeyringCache} (h : cache.Extends cache')
    (h' : cache'.Extends c) : cache.Extends c where
  le        := h.le.trans h'.le
  count_le  := h'.count_le
  keys i hi := (h'.keys i (Nat.lt_of_lt_of_le hi h.le)).trans (h.keys i hi)
  unique    := h'.unique

-- A lookup that adds a key of the vault finds room for it.
def LookupFits (config : KeyringConfig) (reply : Except String KeyData) (name : KeyName)
    (cache : KeyringCache) : Prop :=
  config.keyringProvider = .vaultV2 → (∀ i, ¬cache.Holds name i) →
    (∃ data, reply = .ok data ∧ data.len > 0) → cache.keyCount < maxCacheEntries

-- So do the lookups of all versions from `i` on, and there is a version that is not found before `i`
-- overflows.
def VersionsFit (config : KeyringConfig) (vault : KeyName → Except String KeyData)
    (internalName : List UInt8) : Nat → Nat → KeyringCache → Prop
  | 0, _, _               => False
  | fuel + 1, i, cache =>
    let name := keyringConstructKeyName config internalName i
    LookupFits config (vault name) name cache ∧
    ∀ curr cache', keyringGetKey config (vault name) name cache = (.ok (some curr), cache') →
      VersionsFit config vault internalName fuel (i + 1) cache'

-- A generated key finds room as well.
def GenerateFits (config : KeyringConfig) (replies : KeyringReplies) (internalName : List UInt8)
    (cache : KeyringCache) : Prop :=
  VersionsFit config replies.vault internalName versionFuel 1 cache ∧
  ∀ r cache', nextVersion config replies.vault internalName versionFuel 1 none cache = (.ok r, cache') →
    replies.random.isSome → cache'.keyCount < maxCacheEntries

def MasterKeyFits (config : KeyringConfig) (replies : KeyringReplies) (internalName : List UInt8)
    (cache : KeyringCache) : Prop :=
  VersionsFit config replies.vault internalName versionFuel 1 cache ∧
  ∀ cache', keyringGetLatestKey config replies.vault internalName cache = (.ok none, cache') →
    GenerateFits config replies internalName cache'

theorem keyringGetKey_none {cache' : KeyringCache} (hc : cache.keyCount ≤ maxCacheEntries)
    (h : keyringGetKey config reply name cache = (.ok none, cache')) :
    cache' = cache ∧ ∀ i, ¬cache.Holds name i := by
  have hl := h ▸ @keyringGetKey_lookedUp config cache name reply hc
  generalize hr : ((.ok none, cache') : Outcome (Option Nat) × KeyringCache) = r at hl
  cases hl
  case found     => cases hr
  case absent hn => cases hr; exact ⟨rfl, hn⟩
  case failed    => cases hr
  case fetched   =>
    simp only [keyringCacheStoreKey] at hr
    split at hr <;> cases hr

-- A key that is found is the first one of its name, even if it comes from the vault.
theorem keyringGetKey_some {cache' : KeyringCache} (hc : cache.keyCount ≤ maxCacheEntries)
    (h : keyringGetKey config reply name cache = (.ok (some i), cache')) : cache'.First name i := by
  have hl := h ▸ @keyringGetKey_lookedUp config cache name reply hc
  generalize hr : ((.ok (some i), cache') : Outcome (Option Nat) × KeyringCache) = r at hl
  cases hl
  case found hf         => cases hr; exact hf
  case absent           => cases hr
  case failed           => cases hr
  case fetched data hn _ _ _ =>
    by_cases hlt : cache.keyCount < maxCacheEntries
    case neg =>
      simp only [keyringCacheStoreKey, if_neg hlt] at hr
      cases hr
    case pos =>
      rw [keyringCacheStoreKey_eq hlt] at hr
      cases hr
      refine ⟨⟨Nat.lt_succ_self _, by rw [append_keys_last]⟩, fun j hj he => ?_⟩
      rw [append_keys_of_lt hj] at he
      exact hn j ⟨hj, he⟩

theorem keyringGetKey_undefined (hc : cache.keyCount ≤ maxCacheEntries)
    (h : ¬LookupFits config reply name cache) :
    (keyringGetKey config reply name cache).1 = .error .undefined := by
  simp only [LookupFits, Classical.not_imp] at h
  obtain ⟨hp, hn, ⟨data, hr, hl⟩, hlt⟩ := h
  have hs := (search_none hc).mpr hn
  simp only [keyringGetKey, hs, hp, hr, hl, if_true, keyringCacheStoreKey, hlt, if_false]
  rfl

-- What a search for the next version does to the cache, and what it yields.
structure KeyringCache.Search (config : KeyringConfig) (internalName : List UInt8)
    (cache : KeyringCache) (r : Outcome (Option Nat × Nat) × KeyringCache) : Prop
    extends cache.Extends r.2 where
  defined : r.1 ≠ .error .undefined
  pointer : ∀ prev i, r.1 = .ok (prev, i) → ∀ k, prev = some k → k < r.2.keyCount
  free    : ∀ prev i, r.1 = .ok (prev, i) →
    ∀ j, ¬r.2.Holds (keyringConstructKeyName config internalName i) j

theorem nextVersion_search (hc : cache.keyCount ≤ maxCacheEntries) (hu : cache.Unique)
    (hp : ∀ k, prev = some k → k < cache.keyCount)
    (hf : VersionsFit config vault internalName fuel i cache) :
    cache.Search config internalName (nextVersion config vault internalName fuel i prev cache) := by
  induction fuel generalizing i prev cache
  case zero         => exact hf.elim
  case succ fuel hi =>
    obtain ⟨hl, hf⟩ := hf
    have hcall := keyringGetKey_call hc hu hl
    simp only [nextVersion]
    generalize hg : keyringGetKey config _ _ cache = call at hcall
    obtain ⟨r, cache'⟩ := call
    cases r
    case error e => exact ⟨hcall.toExtends, fun he => hcall.defined (by cases he; rfl), by simp, by simp⟩
    case ok curr =>
      cases curr
      case none =>
        obtain ⟨rfl, hn⟩ := keyringGetKey_none hc hg
        refine ⟨hcall.toExtends, by simp, ?_, ?_⟩
        · rintro _ _ ⟨⟩
          exact hp
        · rintro _ _ ⟨⟩
          exact hn
      case some curr =>
        have hs := hi hcall.count_le hcall.unique (fun k hk => hcall.pointer k (congrArg _ hk))
          (hf curr cache' hg)
        exact ⟨hcall.toExtends.trans hs.toExtends, hs.defined, hs.pointer, hs.free⟩

theorem nextVersion_undefined (hc : cache.keyCount ≤ maxCacheEntries) (hu : cache.Unique)
    (hf : ¬VersionsFit config vault internalName fuel i cache) :
    (nextVersion config vault internalName fuel i prev cache).1 = .error .undefined := by
  induction fuel generalizing i prev cache
  case zero         => rfl
  case succ fuel hi =>
    simp only [nextVersion]
    by_cases hl : LookupFits config (vault (keyringConstructKeyName config internalName i))
      (keyringConstructKeyName config internalName i) cache
    case neg =>
      have he := keyringGetKey_undefined hc hl
      generalize keyringGetKey config _ _ cache = call at he
      obtain ⟨r, cache'⟩ := call
      cases he
      rfl
    case pos =>
      simp only [VersionsFit, hl, true_and, not_forall] at hf
      obtain ⟨curr, cache', hg, hf⟩ := hf
      have hcall := keyringGetKey_call hc hu hl
      rw [hg] at hcall
      rw [hg]
      exact hi hcall.count_le hcall.unique hf

theorem keyringGenerateKey_call (hc : cache.keyCount ≤ maxCacheEntries) (hu : cache.Unique)
    (hf : GenerateFits config replies internalName cache) :
    cache.Call (keyringGenerateKey config replies internalName i cache) := by
  obtain ⟨hv, hf⟩ := hf
  have hs := @nextVersion_search _ _ _ _ _ _ none hc hu (by simp) hv
  simp only [keyringGenerateKey]
  generalize hn : nextVersion config replies.vault internalName _ _ _ cache = r at hs hf
  obtain ⟨r, cache'⟩ := r
  cases r
  case error e => exact ⟨hs.toExtends, fun he => hs.defined (by cases he; rfl), by simp⟩
  case ok r    =>
    obtain ⟨prev, version⟩ := r
    cases hr : replies.random
    case none      => exact ⟨hs.toExtends, by simp, by simp⟩
    case some data =>
      have hlt := hf _ _ rfl (by simp [hr])
      have hst := @keyringStoreKey_call config cache' _ { data, len := .ofNat i } replies.stored
        hs.unique hlt fun _ j hj => absurd hj (hs.free prev version rfl j)
      exact ⟨hs.toExtends.trans hst.toExtends, hst.defined, hst.pointer⟩

theorem keyringStoreKey_undefined {data : KeyData} {stored : Except String Bool}
    (h : ¬cache.keyCount < maxCacheEntries) :
    (keyringStoreKey config stored name data cache).1 = .error .undefined := by
  simp only [keyringStoreKey, keyringCacheStoreKey, if_neg h]

theorem keyringGenerateKey_undefined (hc : cache.keyCount ≤ maxCacheEntries) (hu : cache.Unique)
    (hf : ¬GenerateFits config replies internalName cache) :
    (keyringGenerateKey config replies internalName i cache).1 = .error .undefined := by
  simp only [keyringGenerateKey]
  by_cases hv : VersionsFit config replies.vault internalName versionFuel 1 cache
  case neg =>
    have he := @nextVersion_undefined _ _ _ _ _ _ none hc hu hv
    generalize nextVersion config replies.vault internalName _ _ _ cache = r at he
    obtain ⟨r, cache'⟩ := r
    cases he
    rfl
  case pos =>
    simp only [GenerateFits, hv, true_and, not_forall] at hf
    obtain ⟨⟨prev, version⟩, cache', hn, hr, hlt⟩ := hf
    obtain ⟨data, hr⟩ := Option.isSome_iff_exists.mp hr
    simp only [hn, hr, keyringStoreKey_undefined hlt]

theorem keyringGetLatestKey_call (hc : cache.keyCount ≤ maxCacheEntries) (hu : cache.Unique)
    (hf : VersionsFit config vault internalName versionFuel 1 cache) :
    cache.Call (keyringGetLatestKey config vault internalName cache) := by
  have hs := @nextVersion_search _ _ _ _ _ _ none hc hu (by simp) hf
  simp only [keyringGetLatestKey]
  generalize nextVersion config vault internalName _ _ _ cache = r at hs
  obtain ⟨r, cache'⟩ := r
  cases r
  case error e => exact ⟨hs.toExtends, fun he => hs.defined (by cases he; rfl), by simp⟩
  case ok r    =>
    refine ⟨hs.toExtends, by simp, fun ki hk => hs.pointer _ _ rfl ki ?_⟩
    exact Except.ok.inj hk

theorem keyringGetLatestKey_undefined (hc : cache.keyCount ≤ maxCacheEntries) (hu : cache.Unique)
    (hf : ¬VersionsFit config vault internalName versionFuel 1 cache) :
    (keyringGetLatestKey config vault internalName cache).1 = .error .undefined := by
  have he := @nextVersion_undefined _ _ _ _ _ _ none hc hu hf
  simp only [keyringGetLatestKey]
  generalize nextVersion config vault internalName _ _ _ cache = r at he
  obtain ⟨r, cache'⟩ := r
  cases he
  rfl

theorem keyringMasterKey_call (hc : cache.keyCount ≤ maxCacheEntries) (hu : cache.Unique)
    (hf : MasterKeyFits config replies internalName cache) :
    cache.Call (keyringMasterKey config replies internalName cache) := by
  obtain ⟨hv, hf⟩ := hf
  have hl := keyringGetLatestKey_call hc hu hv
  simp only [keyringMasterKey]
  generalize keyringGetLatestKey config replies.vault internalName cache = call at hl hf
  obtain ⟨r, cache'⟩ := call
  cases r
  case error e => exact ⟨hl.toExtends, fun he => hl.defined (by cases he; rfl), by simp⟩
  case ok ki   =>
    cases ki
    case some ki => exact hl
    case none    =>
      have hg := keyringGenerateKey_call (i := internalKeyLen) hl.count_le hl.unique (hf cache' rfl)
      exact ⟨hl.toExtends.trans hg.toExtends, hg.defined, hg.pointer⟩

theorem keyringMasterKey_undefined (hc : cache.keyCount ≤ maxCacheEntries) (hu : cache.Unique)
    (hf : ¬MasterKeyFits config replies internalName cache) :
    (keyringMasterKey config replies internalName cache).1 = .error .undefined := by
  simp only [keyringMasterKey]
  by_cases hv : VersionsFit config replies.vault internalName versionFuel 1 cache
  case neg =>
    have he := keyringGetLatestKey_undefined hc hu hv
    generalize keyringGetLatestKey config replies.vault internalName cache = call at he
    obtain ⟨r, cache'⟩ := call
    cases he
    rfl
  case pos =>
    have hl := keyringGetLatestKey_call hc hu hv
    simp only [MasterKeyFits, hv, true_and, not_forall] at hf
    obtain ⟨cache', hn, hf⟩ := hf
    rw [hn] at hl
    rw [hn]
    exact keyringGenerateKey_undefined hl.count_le hl.unique hf

theorem exists_versionFuel_eq : ∃ fuel, versionFuel = fuel + 1 :=
  Nat.exists_eq_add_one.mpr (by simp [versionFuel])

theorem nextVersion_of_none (hc : cache.keyCount ≤ maxCacheEntries)
    (hn : ∀ i, ¬cache.Holds (keyringConstructKeyName config internalName 1) i)
    (hp : config.keyringProvider ≠ .vaultV2) :
    nextVersion config vault internalName versionFuel 1 none cache = (.ok (none, 1), cache) := by
  obtain ⟨fuel, hf⟩ := exists_versionFuel_eq
  rw [hf, nextVersion]
  simp only [keyringGetKey_of_none hc hn hp]

-- The first key fits into a keyring that has room for it.
theorem masterKeyFits_of_room (hc : cache.keyCount < maxCacheEntries)
    (hn : ∀ i, ¬cache.Holds (keyringConstructKeyName config internalName 1) i)
    (hp : config.keyringProvider ≠ .vaultV2) : MasterKeyFits config replies internalName cache := by
  have hv (vault) := @nextVersion_of_none config vault cache internalName hc.le hn hp
  have hf : VersionsFit config replies.vault internalName versionFuel 1 cache := by
    obtain ⟨fuel, hf⟩ := exists_versionFuel_eq
    rw [hf]
    refine ⟨fun h => absurd h hp, fun curr cache' hg => ?_⟩
    rw [keyringGetKey_of_none hc.le hn hp] at hg
    cases hg
  refine ⟨hf, fun cache' hl => ?_⟩
  simp only [keyringGetLatestKey, hv, Prod.mk.injEq, true_and] at hl
  subst hl
  refine ⟨hf, fun r cache' hg _ => ?_⟩
  rw [hv, Prod.mk.injEq] at hg
  exact hg.2 ▸ hc

-- It does not fit into a keyring that is full of other keys.
theorem not_masterKeyFits_of_full (hc : cache.keyCount = maxCacheEntries)
    (hn : ∀ i, ¬cache.Holds (keyringConstructKeyName config internalName 1) i)
    (hp : config.keyringProvider ≠ .vaultV2) (hr : replies.random.isSome) :
    ¬MasterKeyFits config replies internalName cache := by
  have hv (vault) := @nextVersion_of_none config vault cache internalName hc.le hn hp
  rintro ⟨-, hf⟩
  have hlt := (hf cache (by simp only [keyringGetLatestKey, hv])).2 _ _ (hv _) hr
  exact Nat.lt_irrefl _ (hc ▸ hlt)
