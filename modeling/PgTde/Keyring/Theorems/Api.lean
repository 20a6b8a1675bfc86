import Mathlib.Data.List.TakeWhile
import PgTde.Keyring.Api

namespace KeyName

variable {n : KeyName}

theorem length_str_le : n.str.length ≤ 256 := by
  have h := (List.takeWhile_prefix (l := List.ofFn n.name) (· ≠ 0)).length_le
  rwa [List.length_ofFn] at h

theorem ofFn_padded {l : List UInt8} (hl : l.length ≤ 256) :
    List.ofFn (fun i : Fin 256 => l[i.val]?.getD 0) = l ++ List.replicate (256 - l.length) 0 := by
  apply List.ext_getElem
  · rw [List.length_ofFn, List.length_append, List.length_replicate]
    omega
  · intro i hi _
    rw [List.getElem_ofFn, List.getElem_append]
    by_cases hs : i < l.length
    case pos => simp [hs]
    case neg => simp [hs]

-- The string in an array that has been filled up with zeros.
theorem str_padded {l : List UInt8} (hl : l.length ≤ 256) (hn : ∀ x ∈ l, decide (x ≠ 0) = true) :
    str { name := fun i => l[i.val]?.getD 0 } = l := by
  rw [str, ofFn_padded hl, List.takeWhile_append_of_pos hn]
  cases 256 - l.length
  case zero => simp
  case succ => simp [List.replicate_succ]

theorem str_ofStr {l : List UInt8} (hl : l.length ≤ 255) (hn : ∀ x ∈ l, x ≠ 0) : (ofStr l).str = l := by
  have h := str_padded (Nat.le_succ_of_le hl) fun x hx => decide_eq_true (hn x hx)
  rwa [ofStr, List.take_of_length_le hl]

end KeyName

namespace KeyringCache

variable {cache cache' : KeyringCache} {name : KeyName} {data : KeyData} {i n : Nat}

-- Some entry has a name, or none does.
def Holds (cache : KeyringCache) (name : KeyName) (i : Nat) : Prop :=
  i < cache.keyCount ∧ (cache.keys i).name.str = name.str

-- A search finds the first entry of a name, if there is one.
structure First (cache : KeyringCache) (name : KeyName) (i : Nat) : Prop where
  holds : cache.Holds name i
  first : ∀ j < i, (cache.keys j).name.str ≠ name.str

theorem search_spec (h : i + n ≤ maxCacheEntries) : ∃ r, cache.search name i n = .ok r ∧
    (∀ k, r = some k → i ≤ k ∧ k < i + n ∧ (cache.keys k).name.str = name.str ∧
      ∀ j, i ≤ j → j < k → (cache.keys j).name.str ≠ name.str) ∧
    (r = none → ∀ j, i ≤ j → j < i + n → (cache.keys j).name.str ≠ name.str) := by
  induction n generalizing i
  case zero      => exact ⟨none, rfl, by simp, fun _ j hj hlt => by omega⟩
  case succ n hi =>
    rw [search, if_pos (by omega)]
    by_cases hn : (cache.keys i).name.str = name.str
    case pos =>
      refine ⟨some i, if_pos hn, ?_, by simp⟩
      rintro k ⟨⟩
      exact ⟨Nat.le_refl _, by omega, hn, fun j hj hlt => by omega⟩
    case neg =>
      obtain ⟨r, hr, hs, hnone⟩ := @hi (i + 1) (by omega)
      have hlow (j) (hj : i ≤ j) (hne : ¬i + 1 ≤ j) : (cache.keys j).name.str ≠ name.str := by
        rwa [show j = i by omega]
      refine ⟨r, by rw [if_neg hn, hr], fun k hk => ?_, fun hk j hj hlt => ?_⟩
      · obtain ⟨h₁, h₂, h₃, h₄⟩ := hs k hk
        refine ⟨by omega, by omega, h₃, fun j hj hlt => ?_⟩
        by_cases hj' : i + 1 ≤ j
        · exact h₄ j hj' hlt
        · exact hlow j hj hj'
      · by_cases hj' : i + 1 ≤ j
        · exact hnone hk j hj' (by omega)
        · exact hlow j hj hj'

theorem search_some (hc : cache.keyCount ≤ maxCacheEntries) :
    cache.search name 0 cache.keyCount = .ok (some i) ↔ cache.First name i := by
  obtain ⟨r, hr, hs, hn⟩ := @search_spec cache name 0 cache.keyCount (by omega)
  rw [hr, Except.ok.injEq]
  constructor
  case mp =>
    intro h
    obtain ⟨_, hlt, he, hf⟩ := hs i h
    exact ⟨⟨by omega, he⟩, fun j hj => hf j (Nat.zero_le _) hj⟩
  case mpr =>
    rintro ⟨⟨hlt, he⟩, hf⟩
    match r with
    | none   => exact absurd he <| hn rfl i (Nat.zero_le _) (by omega)
    | some k =>
      obtain ⟨_, _, hk, hf'⟩ := hs k rfl
      have h₁ : ¬k < i := fun hlt => hf k hlt hk
      have h₂ : ¬i < k := fun hlt => hf' i (Nat.zero_le _) hlt he
      rw [show k = i by omega]

theorem search_none (hc : cache.keyCount ≤ maxCacheEntries) :
    cache.search name 0 cache.keyCount = .ok none ↔ ∀ i, ¬cache.Holds name i := by
  obtain ⟨r, hr, hs, hn⟩ := @search_spec cache name 0 cache.keyCount (by omega)
  rw [hr, Except.ok.injEq]
  constructor
  case mp  => exact fun h i hi => hn h i (Nat.zero_le _) (by simpa using hi.1) hi.2
  case mpr =>
    intro h
    match r with
    | none   => rfl
    | some k =>
      obtain ⟨_, hlt, hk, _⟩ := hs k rfl
      exact absurd ⟨by omega, hk⟩ (h k)

theorem search_cases (name : KeyName) (hc : cache.keyCount ≤ maxCacheEntries) :
    (∃ i, cache.search name 0 cache.keyCount = .ok (some i) ∧ cache.First name i) ∨
    (cache.search name 0 cache.keyCount = .ok none ∧ ∀ i, ¬cache.Holds name i) := by
  obtain ⟨r, hr, _⟩ := @search_spec cache name 0 cache.keyCount (by omega)
  match r with
  | some i => exact .inl ⟨i, hr, (search_some hc).mp hr⟩
  | none   => exact .inr ⟨hr, (search_none hc).mp hr⟩

-- The cache with another entry at its end.
def append (cache : KeyringCache) (name : KeyName) (data : KeyData) : KeyringCache where
  keys i   := if i = cache.keyCount then { name, data } else cache.keys i
  keyCount := cache.keyCount + 1

theorem append_keys_of_lt (h : i < cache.keyCount) : (cache.append name data).keys i = cache.keys i := by
  simp [append, Nat.ne_of_lt h]

theorem append_keys_last : (cache.append name data).keys cache.keyCount = { name, data } := by
  simp [append]

theorem keyringCacheStoreKey_eq (h : cache.keyCount < maxCacheEntries) :
    keyringCacheStoreKey name data cache = (.ok cache.keyCount, cache.append name data) :=
  if_pos h

-- Entries of the same name have the same data.
def Unique (cache : KeyringCache) : Prop :=
  ∀ i < cache.keyCount, ∀ j < cache.keyCount,
    (cache.keys i).name.str = (cache.keys j).name.str → (cache.keys i).data = (cache.keys j).data

theorem Unique.append (h : cache.Unique) (hn : ∀ i, cache.Holds name i → (cache.keys i).data = data) :
    (cache.append name data).Unique := by
  have hnew {i} (hi : i < cache.keyCount) (he : (cache.keys i).name.str = name.str) := hn i ⟨hi, he⟩
  intro i hi j hj he
  simp only [KeyringCache.append] at hi hj he ⊢
  by_cases hi' : i = cache.keyCount <;> by_cases hj' : j = cache.keyCount <;>
    simp only [hi', hj', if_true, if_false] at he ⊢
  · exact (hnew (by omega) he.symm).symm
  · exact hnew (by omega) he
  · exact h i (by omega) j (by omega) he

-- All entries of a cache are kept, and their pointers stay valid.
structure Extends (cache cache' : KeyringCache) : Prop where
  le       : cache.keyCount ≤ cache'.keyCount
  count_le : cache'.keyCount ≤ maxCacheEntries
  keys     : ∀ i < cache.keyCount, cache'.keys i = cache.keys i
  unique   : cache'.Unique

theorem Unique.extends_self (h : cache.Unique) (hc : cache.keyCount ≤ maxCacheEntries) :
    cache.Extends cache :=
  ⟨Nat.le_refl _, hc, fun _ _ => rfl, h⟩

theorem Unique.extends_append (h : cache.Unique) (hc : cache.keyCount < maxCacheEntries)
    (hn : ∀ i, cache.Holds name i → (cache.keys i).data = data) :
    cache.Extends (cache.append name data) where
  le        := Nat.le_succ _
  count_le  := hc
  keys _ hi := append_keys_of_lt hi
  unique    := h.append hn

-- What a call does to the cache, and what it yields.
structure Call (cache : KeyringCache) (call : Outcome (Option Nat) × KeyringCache) : Prop
    extends cache.Extends call.2 where
  defined : call.1 ≠ .error .undefined
  pointer : ∀ ki, call.1 = .ok (some ki) → ki < call.2.keyCount

end KeyringCache

open KeyringCache

variable {config : KeyringConfig} {cache : KeyringCache} {name : KeyName} {data : KeyData} {i : Nat}
variable {reply : Except String KeyData} {stored : Except String Bool}

theorem keyringGetKey_of_first (hc : cache.keyCount ≤ maxCacheEntries) (h : cache.First name i) :
    keyringGetKey config reply name cache = (.ok (some i), cache) := by
  simp only [keyringGetKey, (search_some hc).mpr h]

theorem keyringGetKey_of_none (hc : cache.keyCount ≤ maxCacheEntries) (hn : ∀ i, ¬cache.Holds name i)
    (hp : config.keyringProvider ≠ .vaultV2) :
    keyringGetKey config reply name cache = (.ok none, cache) := by
  simp only [keyringGetKey, (search_none hc).mpr hn]
  cases h : config.keyringProvider
  case unknown => rfl
  case file    => rfl
  case vaultV2 => exact absurd h hp

-- What a lookup can do: a key of the vault is added to the cache, if it is not there yet.
inductive LookedUp (config : KeyringConfig) (reply : Except String KeyData) (name : KeyName)
    (cache : KeyringCache) : Outcome (Option Nat) × KeyringCache → Prop
  | found {i : Nat} : cache.First name i → LookedUp config reply name cache (.ok (some i), cache)
  | absent : (∀ i, ¬cache.Holds name i) → LookedUp config reply name cache (.ok none, cache)
  | failed (msg : String) : LookedUp config reply name cache (.error <| .error msg, cache)
  | fetched {data : KeyData} :
    (∀ i, ¬cache.Holds name i) → config.keyringProvider = .vaultV2 → reply = .ok data → data.len > 0 →
    LookedUp config reply name cache
      ((keyringCacheStoreKey name data cache).1.map some, (keyringCacheStoreKey name data cache).2)

theorem keyringGetKey_lookedUp (hc : cache.keyCount ≤ maxCacheEntries) :
    LookedUp config reply name cache (keyringGetKey config reply name cache) := by
  cases search_cases name hc
  case inl h =>
    obtain ⟨i, _, hf⟩ := h
    rw [keyringGetKey_of_first hc hf]
    exact .found hf
  case inr h =>
    obtain ⟨hs, hn⟩ := h
    simp only [keyringGetKey, hs]
    cases hp : config.keyringProvider
    case unknown => exact .absent hn
    case file    => exact .absent hn
    case vaultV2 =>
      cases hr : reply
      case error msg => exact .failed msg
      case ok data   =>
        by_cases hl : data.len > 0
        case neg => simpa only [hl, if_false] using .absent hn
        case pos => simpa only [hl, if_true] using .fetched hn hp rfl hl

theorem keyringGetKey_call (hc : cache.keyCount ≤ maxCacheEntries) (hu : cache.Unique)
    (hr : config.keyringProvider = .vaultV2 → (∀ i, ¬cache.Holds name i) →
      (∃ data, reply = .ok data ∧ data.len > 0) → cache.keyCount < maxCacheEntries) :
    cache.Call (keyringGetKey config reply name cache) := by
  have hself := hu.extends_self hc
  have hl := @keyringGetKey_lookedUp config cache name reply hc
  generalize keyringGetKey config reply name cache = call at hl ⊢
  cases hl
  case found hf   => exact ⟨hself, by simp, by rintro _ ⟨⟩; exact hf.holds.1⟩
  case absent     => exact ⟨hself, by simp, by simp⟩
  case failed     => exact ⟨hself, by simp, by simp⟩
  case fetched data hn hp hd hl =>
    have hlt := hr hp hn ⟨data, hd, hl⟩
    rw [keyringCacheStoreKey_eq hlt]
    refine ⟨hu.extends_append hlt fun i hi => absurd hi (hn i), by simp [Except.map], ?_⟩
    rintro _ ⟨⟩
    exact Nat.lt_succ_self _

-- A store leaves its entry in the cache unless the provider reports a failure.
def keyringKeeps (config : KeyringConfig) (stored : Except String Bool) : Prop :=
  config.keyringProvider ≠ .unknown ∧ stored ≠ .ok false

-- An entry that is added and removed again leaves no trace below `keyCount`.
theorem KeyringCache.Unique.extends_removed (h : cache.Unique) (hc : cache.keyCount ≤ maxCacheEntries) :
    cache.Extends { cache.append name data with keyCount := cache.keyCount } where
  le        := Nat.le_refl _
  count_le  := hc
  keys _ hi := append_keys_of_lt hi
  unique    := by
    intro i (hi : i < cache.keyCount) j (hj : j < cache.keyCount)
    simpa only [append_keys_of_lt hi, append_keys_of_lt hj] using h i hi j hj

theorem keyringStoreKey_call (hu : cache.Unique) (hc : cache.keyCount < maxCacheEntries)
    (hn : keyringKeeps config stored → ∀ i, cache.Holds name i → (cache.keys i).data = data) :
    cache.Call (keyringStoreKey config stored name data cache) := by
  have hfail : cache.Call
      (.ok none, { cache.append name data with keyCount := (cache.append name data).keyCount - 1 }) :=
    ⟨hu.extends_removed (Nat.le_of_lt hc), by simp, by simp⟩
  simp only [keyringStoreKey, keyringCacheStoreKey_eq hc]
  by_cases hp : config.keyringProvider = .unknown
  case pos => simpa only [hp] using hfail
  case neg =>
    have hkept (hs : stored ≠ .ok false) : cache.Extends (cache.append name data) :=
      hu.extends_append hc (hn ⟨hp, hs⟩)
    match hs : config.keyringProvider, stored with
    | .unknown, _                       => exact absurd hs hp
    | .file, .ok false                  => exact hfail
    | .vaultV2, .ok false               => exact hfail
    | .file, .error msg                 => exact ⟨hkept (by simp), by simp, by simp⟩
    | .vaultV2, .error msg              => exact ⟨hkept (by simp), by simp, by simp⟩
    | .file, .ok true | .vaultV2, .ok true =>
      refine ⟨hkept (by simp), by simp, ?_⟩
      rintro _ ⟨⟩
      exact Nat.lt_succ_self _
