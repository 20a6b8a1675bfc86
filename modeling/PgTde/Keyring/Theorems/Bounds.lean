import PgTde.Keyring.Bounds
import PgTde.Keyring.Theorems.File
import PgTde.Keyring.Theorems.Latest

variable {config : KeyringConfig} {cache : KeyringCache} {name : KeyName} {i n fuel : Nat} {prev : Option Nat}
variable {vault : KeyName → Except String KeyData} {internalName : List UInt8}

open KeyringCache

theorem searched_lt (h : i + n ≤ maxCacheEntries) : ∀ j ∈ cache.searched name i n, j < maxCacheEntries := by
  induction n generalizing i
  case zero      => simp [searched]
  case succ n hi =>
    have hlt : i < maxCacheEntries := by omega
    rw [searched, if_pos hlt]
    split
    · simpa using hlt
    · exact List.forall_mem_cons.mpr ⟨hlt, hi (by omega)⟩

namespace CacheCall

variable {call : CacheCall} {calls calls' : List CacheCall}

-- A call that adds an entry finds room for it.
def Room (config : KeyringConfig) (cache : KeyringCache) : CacheCall → Prop
  | getKey reply name => LookupFits config reply name cache
  | storeKey _ _ _    => cache.keyCount < maxCacheEntries

-- So does each call of a sequence.
def AllRoom (config : KeyringConfig) (cache : KeyringCache) : List CacheCall → Prop
  | []            => True
  | call :: calls => call.Room config cache ∧ AllRoom config (call.run config cache).2 calls

theorem entries_lt_iff (hc : cache.keyCount ≤ maxCacheEntries) :
    (∀ i ∈ call.entries config cache, i < maxCacheEntries) ↔ call.Room config cache := by
  cases call
  case storeKey          => simp [entries, Room]
  case getKey reply name =>
    have hs : ∀ j ∈ cache.searched name 0 cache.keyCount, j < maxCacheEntries :=
      searched_lt (by omega)
    simp only [entries, Room, LookupFits, List.forall_mem_append, and_iff_right hs]
    cases search_cases name hc
    case inl h =>
      obtain ⟨i, he, hf⟩ := h
      rw [he]
      exact iff_of_true (by simp) fun _ hn => absurd hf.holds (hn i)
    case inr h =>
      obtain ⟨he, hn⟩ := h
      rw [he]
      cases config.keyringProvider
      case unknown => simp
      case file    => simp
      case vaultV2 =>
        cases reply
        case error   => simp
        case ok data =>
          by_cases hl : data.len > 0
          case pos => simp [hl, hn]
          case neg => simp [hl]

theorem keyCount_run_le (hc : cache.keyCount ≤ maxCacheEntries) (hr : call.Room config cache) :
    (call.run config cache).2.keyCount ≤ maxCacheEntries := by
  cases call
  case getKey reply name =>
    have hl := @keyringGetKey_lookedUp config cache name reply hc
    simp only [run]
    generalize keyringGetKey config reply name cache = r at hl
    cases hl
    case found                    => exact hc
    case absent                   => exact hc
    case failed                   => exact hc
    case fetched data hn hp hd hl =>
      have hlt := hr hp hn ⟨data, hd, hl⟩
      rw [keyringCacheStoreKey_eq hlt]
      exact hlt
  case storeKey stored name data =>
    have hlt : cache.keyCount < maxCacheEntries := hr
    simp only [run, keyringStoreKey, keyringCacheStoreKey_eq hlt]
    cases config.keyringProvider
    case unknown => exact hc
    all_goals
      obtain _ | _ | _ := stored
      · exact hlt
      · exact hc
      · exact hlt

-- The calls stay in bounds as long as there is room for each entry that they add.
theorem inBounds_iff :
    InBounds config cache calls ↔ cache.keyCount ≤ maxCacheEntries ∧ AllRoom config cache calls := by
  induction calls generalizing cache
  case nil                => simp [InBounds, AllRoom]
  case cons call calls hi =>
    simp only [InBounds, AllRoom]
    refine and_congr_right fun hc => ?_
    rw [entries_lt_iff hc]
    refine and_congr_right fun hr => ?_
    rw [hi, and_iff_right (keyCount_run_le hc hr)]

theorem runAll_append :
    runAll config cache (calls ++ calls') = runAll config (runAll config cache calls) calls' := by
  induction calls generalizing cache
  case nil        => rfl
  case cons _ _ i => exact i

end CacheCall

namespace KeyringOp

theorem runAll_versionCalls :
    CacheCall.runAll config cache (versionCalls config vault internalName fuel i cache) =
    (nextVersion config vault internalName fuel i prev cache).2 := by
  induction fuel generalizing i prev cache
  case zero         => rfl
  case succ fuel hi =>
    simp only [versionCalls, nextVersion, CacheCall.runAll, CacheCall.run]
    generalize keyringGetKey config _ _ cache = call
    obtain ⟨r, cache'⟩ := call
    obtain _ | _ | curr := r
    · rfl
    · rfl
    · exact hi

-- The calls are what an operation does to the cache.
theorem runAll_calls (op : KeyringOp) :
    CacheCall.runAll config cache (op.calls config cache) = (op.run config cache).2 := by
  cases op
  case getKey   => rfl
  case storeKey => rfl
  case getLatestKey vault internalName =>
    simp only [calls, run, keyringGetLatestKey, @runAll_versionCalls _ _ _ _ none]
    generalize nextVersion config vault internalName _ _ _ cache = call
    obtain ⟨r, cache'⟩ := call
    cases r <;> rfl
  case generateKey replies internalName keyLen =>
    simp only [calls, run, keyringGenerateKey, CacheCall.runAll_append, @runAll_versionCalls _ _ _ _ none]
    generalize nextVersion config replies.vault internalName _ _ _ cache = call
    obtain ⟨r, cache'⟩ := call
    cases r
    case error => rfl
    case ok r  => cases replies.random <;> rfl

-- The operations after a start with any file stay in bounds as long as there is room for each entry.
theorem allCalls_inBounds_iff (config : KeyringConfig) (file : Option (List UInt8)) (ops : List KeyringOp) :
    CacheCall.InBounds config (keyringInitCache file) (allCalls config (keyringInitCache file) ops) ↔
    (keyringInitCache file).keyCount ≤ maxCacheEntries ∧
    CacheCall.AllRoom config (keyringInitCache file) (allCalls config (keyringInitCache file) ops) :=
  CacheCall.inBounds_iff

-- A cache with as many keys as there is room for, and one of the same kind after a restart.
def fullKeyringCache : KeyringCache :=
  { oneKeyCache with keyCount := maxCacheEntries }

theorem exists_full_file : ∃ file, (keyringInitCache file).keyCount = maxCacheEntries :=
  ⟨_, @reloaded_keyCount fullKeyringCache keyringCacheMemorySize (by decide)⟩

-- The file holds as many keys as there is room for, and another one is stored.
theorem not_allCalls_inBounds_full :
    ¬∀ config file ops, CacheCall.InBounds config (keyringInitCache file)
      (allCalls config (keyringInitCache file) ops) := by
  intro h
  obtain ⟨file, hk⟩ := exists_full_file
  have hi := h { keyringProvider := .file, keyringKeyPrefix := none } file
    [.storeKey (.ok true) (.ofStr (toStr "master-key-2")) ⟨fun _ => 2, 16⟩]
  rw [CacheCall.inBounds_iff] at hi
  have hlt : (keyringInitCache file).keyCount < maxCacheEntries := hi.right.left
  omega

end KeyringOp
