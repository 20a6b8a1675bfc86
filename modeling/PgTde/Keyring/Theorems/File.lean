import PgTde.Keyring.File
import PgTde.Keyring.Theorems.Api

theorem toNat_unsignedByte (n i : Nat) : (unsignedByte n i).toNat = n / 256 ^ i % 256 := by
  simp [unsignedByte]

-- Reading back the first `b` bytes of an `unsigned`, where the other ones are zero.
theorem Memory.readUnsigned_eq {m : Memory} {a n b : Nat} (hn : n < 2 ^ 32) (hb : b ≤ 4)
    (h : ∀ i < 4, m (a + i) = if i < b then unsignedByte n i else 0) :
    m.readUnsigned a = n % 256 ^ b := by
  have hi (i : Nat) (hi : i < 4) : (m (a + i)).toNat = if i < b then n / 256 ^ i % 256 else 0 := by
    rw [h i hi]
    split
    · exact toNat_unsignedByte n i
    · rfl
  rw [readUnsigned, ←Nat.add_zero a, hi 0 (by omega), Nat.add_zero, hi 1 (by omega), hi 2 (by omega),
    hi 3 (by omega)]
  obtain rfl | rfl | rfl | rfl | rfl : b = 0 ∨ b = 1 ∨ b = 2 ∨ b = 3 ∨ b = 4 := by omega
  all_goals
    simp only [Nat.reducePow, Nat.reduceLT, if_true, if_false]
    omega

namespace KeyringCache

variable {cache cache' : KeyringCache} {m : Memory} {n : Nat} {i k : Nat} {name : KeyName}
variable {data : KeyData}

-- An entry that lies within the memory that agrees with the structure is read back.
theorem ofMemory_keys (hi : i < maxCacheEntries)
    (h : ∀ x < (i + 1) * sizeofKeyInfo, m x = cache.toMemory x) :
    (ofMemory m).keys i = cache.keys i := by
  have hb (o : Nat) (ho : o < sizeofKeyInfo) : m (i * sizeofKeyInfo + o) = (cache.keys i).byte o := by
    have hx : i * sizeofKeyInfo + o < offsetofKeyCount := by
      simp only [offsetofKeyCount, maxCacheEntries, sizeofKeyInfo] at *
      omega
    have hd : (i * sizeofKeyInfo + o) / sizeofKeyInfo = i := by
      simp only [sizeofKeyInfo] at *
      omega
    have hm : (i * sizeofKeyInfo + o) % sizeofKeyInfo = o := by
      simp only [sizeofKeyInfo] at *
      omega
    rw [h _ (by simp only [sizeofKeyInfo] at *; omega), toMemory, if_pos hx, hd, hm]
  have hl : m.readUnsigned (i * sizeofKeyInfo + 256 + 32) = (cache.keys i).data.len.toNat := by
    have hbytes (j : Nat) (hj : j < 4) : m (i * sizeofKeyInfo + 256 + 32 + j) =
        if j < 4 then unsignedByte (cache.keys i).data.len.toNat j else 0 := by
      have hx : i * sizeofKeyInfo + 256 + 32 + j = i * sizeofKeyInfo + (288 + j) := by omega
      have ho : 288 + j - 256 - 32 = j := by omega
      rw [hx, hb _ (by simp only [sizeofKeyInfo]; omega), if_pos hj, KeyInfo.byte, dif_neg (by omega),
        dif_neg (by omega), ho]
    rw [Memory.readUnsigned_eq (UInt32.toNat_lt _) (Nat.le_refl 4) hbytes]
    exact Nat.mod_eq_of_lt (UInt32.toNat_lt _)
  have hname (t : Fin 256) : m (i * sizeofKeyInfo + t) = (cache.keys i).name.name t := by
    rw [hb _ (by simp only [sizeofKeyInfo]; omega), KeyInfo.byte, dif_pos t.isLt]
  have hdata (t : Fin 32) : m (i * sizeofKeyInfo + 256 + t) = (cache.keys i).data.data t := by
    have hx : 256 + t.val - 256 = t := by omega
    rw [Nat.add_assoc, hb _ (by simp only [sizeofKeyInfo]; omega), KeyInfo.byte, dif_neg (by omega),
      dif_pos (by omega)]
    simp only [hx]
  simp only [ofMemory, KeyInfo.ofMemory, hl, hname, hdata, UInt32.ofNat_toNat]

-- The memory after a restart, when only some bytes of the structure have been written.
theorem preload_apply {x : Nat} :
    keyringFilePreloadCache (some (cache.toMemory.read 0 (min n keyringCacheMemorySize))) Memory.zero x =
    if x < min n keyringCacheMemorySize then cache.toMemory x else 0 := by
  have hl : (cache.toMemory.read 0 (min n keyringCacheMemorySize)).length =
      min n keyringCacheMemorySize := Memory.length_read
  rw [keyringFilePreloadCache, List.take_of_length_le (by omega)]
  by_cases hx : x < min n keyringCacheMemorySize
  case pos =>
    have h := @Memory.copy_add Memory.zero 0 0 (min n keyringCacheMemorySize) cache.toMemory x hx
    simpa [Memory.copy, hx] using h
  case neg => rw [if_neg hx, Memory.write_of_ge (by omega), Memory.zero]

-- The cache after a restart, when only some bytes of the structure have been written.
def reloaded (cache : KeyringCache) (n : Nat) : KeyringCache :=
  keyringInitCache (some (cache.toMemory.read 0 (min n keyringCacheMemorySize)))

-- What the written bytes of the count amount to.
def writtenCount (cache : KeyringCache) (n : Nat) : Nat :=
  cache.keyCount % 256 ^ (min n keyringCacheMemorySize - offsetofKeyCount)

theorem reloaded_keyCount (hc : cache.keyCount < 2 ^ 32) :
    (cache.reloaded n).keyCount = cache.writtenCount n := by
  rw [reloaded, keyringInitCache, ofMemory, writtenCount]
  refine Memory.readUnsigned_eq hc (by simp only [keyringCacheMemorySize]; omega) fun i _ => ?_
  have hx : ¬offsetofKeyCount + i < offsetofKeyCount := by omega
  rw [preload_apply, toMemory, if_neg hx, Nat.add_sub_cancel_left]
  congr 1
  simp only [eq_iff_iff]
  omega

theorem reloaded_keys (hn : offsetofKeyCount ≤ min n keyringCacheMemorySize)
    (hi : i < maxCacheEntries) : (cache.reloaded n).keys i = cache.keys i := by
  refine ofMemory_keys hi fun x hx => ?_
  have hlt : x < min n keyringCacheMemorySize := by
    simp only [offsetofKeyCount, maxCacheEntries, sizeofKeyInfo] at *
    omega
  rw [preload_apply, if_pos hlt]

theorem first_iff_of_agree (h : cache'.keyCount ≤ cache.keyCount)
    (hk : ∀ i < cache'.keyCount, cache'.keys i = cache.keys i) :
    cache'.First name i ↔ cache.First name i ∧ i < cache'.keyCount := by
  constructor
  case mp =>
    rintro ⟨⟨hi, hn⟩, hf⟩
    exact ⟨⟨⟨by omega, hk i hi ▸ hn⟩, fun j hj => hk j (by omega) ▸ hf j hj⟩, hi⟩
  case mpr =>
    rintro ⟨⟨⟨_, hn⟩, hf⟩, hi⟩
    exact ⟨⟨hi, (hk i hi).symm ▸ hn⟩, fun j hj => (hk j (by omega)).symm ▸ hf j hj⟩

theorem First.unique (h : cache.First name i) (h' : cache.First name k) : i = k := by
  have h₁ : ¬i < k := fun hlt => h'.first i hlt h.holds.2
  have h₂ : ¬k < i := fun hlt => h.first k hlt h'.holds.2
  omega

theorem retrievable_iff (hc : cache.keyCount ≤ maxCacheEntries) :
    cache.Retrievable name data ↔ ∃ i, cache.First name i ∧ (cache.keys i).data = data := by
  simp only [Retrievable, search_some hc]

theorem lt_of_le_max (hc : cache.keyCount ≤ maxCacheEntries) : cache.keyCount < 2 ^ 32 := by
  simp only [maxCacheEntries] at hc
  omega

theorem writtenCount_le : cache.writtenCount n ≤ cache.keyCount :=
  Nat.mod_le _ _

theorem reloaded_keys_of_lt (hc : cache.keyCount ≤ maxCacheEntries) (hi : i < cache.writtenCount n) :
    (cache.reloaded n).keys i = cache.keys i := by
  have hle := @writtenCount_le cache n
  by_cases hn : offsetofKeyCount ≤ min n keyringCacheMemorySize
  case pos => exact reloaded_keys hn (by omega)
  case neg =>
    have hz : min n keyringCacheMemorySize - offsetofKeyCount = 0 := by omega
    rw [writtenCount, hz, Nat.pow_zero, Nat.mod_one] at hi
    omega

-- The keys with an index below the written count are found after a restart, and no others.
theorem reloaded_retrievable_iff (hc : cache.keyCount ≤ maxCacheEntries) :
    (cache.reloaded n).Retrievable name data ↔
    ∃ i, cache.First name i ∧ (cache.keys i).data = data ∧ i < cache.writtenCount n := by
  have hcount := @reloaded_keyCount cache n (lt_of_le_max hc)
  have hle : (cache.reloaded n).keyCount ≤ cache.keyCount := hcount ▸ writtenCount_le
  have hk : ∀ i < (cache.reloaded n).keyCount, (cache.reloaded n).keys i = cache.keys i :=
    fun i hi => reloaded_keys_of_lt hc (hcount ▸ hi)
  rw [retrievable_iff (Nat.le_trans hle hc)]
  refine exists_congr fun i => ?_
  rw [first_iff_of_agree hle hk, hcount]
  constructor
  case mp  => exact fun ⟨⟨hf, hi⟩, hd⟩ => ⟨hf, reloaded_keys_of_lt hc hi ▸ hd, hi⟩
  case mpr => exact fun ⟨hf, hd, hi⟩ => ⟨⟨hf, hi⟩, (reloaded_keys_of_lt hc hi).symm ▸ hd⟩

theorem First.append (h : cache.First name i) {name' : KeyName} :
    (cache.append name' data).First name i := by
  obtain ⟨⟨hi, hn⟩, hf⟩ := h
  constructor
  case holds => exact ⟨Nat.lt_succ_of_lt hi, (append_keys_of_lt hi).symm ▸ hn⟩
  case first => exact fun j hj => (append_keys_of_lt (Nat.lt_trans hj hi)).symm ▸ hf j hj

-- All keys from before a store are found after a restart iff their indices are below the written count.
theorem reloaded_append_iff {name' : KeyName} (hc : cache.keyCount < maxCacheEntries) :
    (∀ name d, cache.Retrievable name d → ((cache.append name' data).reloaded n).Retrievable name d) ↔
    ∀ name i, cache.First name i → i < (cache.append name' data).writtenCount n := by
  have hca : (cache.append name' data).keyCount ≤ maxCacheEntries := hc
  simp only [retrievable_iff (Nat.le_of_lt hc), reloaded_retrievable_iff hca]
  constructor
  case mp =>
    intro h name i hf
    obtain ⟨k, hk, _, hlt⟩ := h name _ ⟨i, hf, rfl⟩
    exact hk.unique hf.append ▸ hlt
  case mpr =>
    rintro h name d ⟨i, hf, hd⟩
    exact ⟨i, hf.append, (append_keys_of_lt hf.holds.1).symm ▸ hd, h name i hf⟩

end KeyringCache

open KeyringCache

-- The state before a store, and how its I/O goes, are such that no key gets lost: there is room for the
-- new key, and
-- * the file is not opened, and holds the keys of the cache already, or
-- * so many bytes are written that what they have of the count is above the index of each key that can
--   be found, and of the new one in case that the store succeeds.
def FileOutcome.Keeps (keyringFileDataFileName : String) (outcome : FileOutcome)
    (cache : KeyringCache) (file : Option (List UInt8)) (name : KeyName) (data : KeyData) : Prop :=
  let held := ∀ n d, cache.Retrievable n d → (keyringInitCache file).Retrievable n d
  let counted (written : Nat) :=
    ∀ n i, cache.First n i → i < (cache.append name data).writtenCount written
  cache.keyCount < maxCacheEntries ∧
  if keyringFileDataFileName.length = 0 then
    held
  else
    match outcome with
    | .openFails      => held
    | .stops written  => counted written
    | .writes written => counted written ∧ ∃ i, (cache.append name data).First name i ∧
      ((cache.append name data).keys i).data = data ∧ i < (cache.append name data).writtenCount written

theorem survivesStore_of_room {keyringFileDataFileName : String} {outcome : FileOutcome}
    {cache : KeyringCache} {file : Option (List UInt8)} {name : KeyName} {data : KeyData}
    (hc : cache.keyCount < maxCacheEntries) :
    SurvivesStore keyringFileDataFileName outcome cache file name data ↔
    let (returned, file) :=
      keyringFileStoreKey keyringFileDataFileName outcome (cache.append name data) file
    (∀ n d, cache.Retrievable n d → (keyringInitCache file).Retrievable n d) ∧
    (returned = some (.ok true) → (keyringInitCache file).Retrievable name data) := by
  simp only [SurvivesStore, keyringCacheStoreKey_eq hc, Prod.mk.injEq, Except.ok.injEq]
  constructor
  case mp  => rintro ⟨_, _, ⟨rfl, rfl⟩, h⟩; exact h
  case mpr => exact fun h => ⟨_, _, ⟨rfl, rfl⟩, h⟩

theorem survivesStore_iff (keyringFileDataFileName : String) (outcome : FileOutcome)
    (cache : KeyringCache) (file : Option (List UInt8)) (name : KeyName) (data : KeyData) :
    SurvivesStore keyringFileDataFileName outcome cache file name data ↔
    outcome.Keeps keyringFileDataFileName cache file name data := by
  by_cases hc : cache.keyCount < maxCacheEntries
  case neg => simp [SurvivesStore, FileOutcome.Keeps, keyringCacheStoreKey, hc]
  case pos =>
    have hca : (cache.append name data).keyCount ≤ maxCacheEntries := hc
    rw [survivesStore_of_room hc]
    simp only [FileOutcome.Keeps, hc, true_and, keyringFileStoreKey]
    by_cases hf : keyringFileDataFileName.length = 0
    case pos => simp [hf]
    case neg =>
      simp only [hf, if_false]
      cases outcome
      case openFails      => simp
      case stops written  =>
        dsimp only
        rw [←reloaded_append_iff hc]
        simp [reloaded]
      case writes written =>
        dsimp only
        rw [←reloaded_append_iff hc, ←reloaded_retrievable_iff hca]
        simp [reloaded]

-- A keyring with one key.
def oneKeyCache : KeyringCache where
  keys _   := ⟨.ofStr (toStr "master-key-1"), ⟨fun _ => 1, 16⟩⟩
  keyCount := 1

-- The process stops after the file has been truncated.
theorem not_survivesStore_truncated :
    ¬SurvivesStore "keyring" (.stops 0) oneKeyCache (some (oneKeyCache.toMemory.read 0 keyringCacheMemorySize))
      (.ofStr (toStr "master-key-2")) ⟨fun _ => 2, 16⟩ := by
  have hc : oneKeyCache.keyCount < maxCacheEntries := by decide
  rw [survivesStore_of_room hc]
  rintro ⟨h, _⟩
  have hf : oneKeyCache.First (.ofStr (toStr "master-key-1")) 0 :=
    ⟨⟨by decide, rfl⟩, fun j hj => absurd hj (Nat.not_lt_zero j)⟩
  have hlt := (reloaded_append_iff hc).mp h _ 0 hf
  revert hlt
  decide
