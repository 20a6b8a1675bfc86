import PgTde.Keyring.Versions
import PgTde.Keyring.Theorems.Latest
import PgTde.Keyring.Theorems.File

variable {config : KeyringConfig} {a b : List UInt8} {v w : Nat}

theorem digit_of_mem_toDigits {c : Char} (h : c ∈ Nat.toDigits 10 v) : 48 ≤ c.toNat ∧ c.toNat ≤ 57 := by
  have hd := Nat.isDigit_of_mem_toDigits (by decide) (by decide) h
  simp only [Char.isDigit, Bool.and_eq_true, decide_eq_true_eq, UInt32.le_iff_toNat_le] at hd
  exact hd

theorem toStr_repr : toStr (Nat.repr v) = (Nat.toDigits 10 v).map fun c => .ofNat c.toNat := by
  rw [toStr, Nat.toList_repr]

theorem digit_of_mem_toStr_repr {c : UInt8} (h : c ∈ toStr (Nat.repr v)) : 48 ≤ c.toNat ∧ c.toNat ≤ 57 := by
  rw [toStr_repr, List.mem_map] at h
  obtain ⟨d, hd, rfl⟩ := h
  have hr := digit_of_mem_toDigits hd
  rw [UInt8.toNat_ofNat_of_lt' (Nat.lt_of_le_of_lt hr.2 (by decide))]
  exact hr

-- A version can be read back from its digits.
theorem toStr_repr_injective (h : toStr (Nat.repr v) = toStr (Nat.repr w)) : v = w := by
  have hback (n : Nat) : (toStr (Nat.repr n)).map (fun d => Char.ofNat d.toNat) = Nat.toDigits 10 n := by
    rw [toStr_repr, List.map_map]
    refine (List.map_congr_left fun c hc => ?_).trans (List.map_id _)
    have hr := digit_of_mem_toDigits hc
    simp only [Function.comp_apply, id]
    rw [UInt8.toNat_ofNat_of_lt' (Nat.lt_of_le_of_lt hr.2 (by decide)), Char.ofNat_toNat]
  have hd : Nat.toDigits 10 v = Nat.toDigits 10 w := by rw [←hback, ←hback, h]
  calc
    v = Nat.ofDigitChars 10 (Nat.toDigits 10 v) 0 := Nat.ofDigitChars_ten_toDigits.symm
    _ = Nat.ofDigitChars 10 (Nat.toDigits 10 w) 0 := by rw [hd]
    _ = w                                         := Nat.ofDigitChars_ten_toDigits

-- A separator that does not occur behind it splits a text in one way.
theorem append_separator_inj {α : Type} {xs xs' ys ys' : List α} {c : α} (hy : c ∉ ys) (hy' : c ∉ ys')
    (h : xs ++ c :: ys = xs' ++ c :: ys') : xs = xs' ∧ ys = ys' := by
  rw [List.append_eq_append_iff] at h
  cases h
  case inl h =>
    obtain ⟨zs, hx, hz⟩ := h
    cases zs
    case nil       => simp_all
    case cons z zs =>
      rw [List.cons_append, List.cons.injEq] at hz
      exact absurd (hz.2 ▸ by simp) hy
  case inr h =>
    obtain ⟨zs, hx, hz⟩ := h
    cases zs
    case nil       => simp_all
    case cons z zs =>
      rw [List.cons_append, List.cons.injEq] at hz
      exact absurd (hz.2 ▸ by simp) hy'

theorem keyringConstructKeyName_eq :
    keyringConstructKeyName config a v = .ofStr (keyNameText config a v) := by
  simp only [keyringConstructKeyName, keyNameText, keyNamePrefix]
  cases config.keyringKeyPrefix
  case none           => rfl
  case some keyPrefix =>
    simp only
    split
    · simp only [List.append_assoc]
    · rfl

theorem zero_notMem_keyNameText (hp : 0 ∉ keyNamePrefix config) (ha : 0 ∉ a) : 0 ∉ keyNameText config a v := by
  have hd : (0 : UInt8) ∉ toStr (Nat.repr v) := fun h => by
    have := digit_of_mem_toStr_repr h
    simp at this
  have : (0 : UInt8) ∉ toStr "-" := by decide
  simp only [keyNameText, List.mem_append, not_or]
  exact ⟨⟨⟨hp, ha⟩, this⟩, hd⟩

theorem keyringConstructKeyName_str (hp : 0 ∉ keyNamePrefix config) (ha : 0 ∉ a) (hf : NameFits config a v) :
    (keyringConstructKeyName config a v).str = keyNameText config a v := by
  rw [keyringConstructKeyName_eq]
  refine KeyName.str_ofStr (Nat.le_of_lt_succ hf) fun x hx he => ?_
  exact zero_notMem_keyNameText hp ha (he ▸ hx)

-- The version is what stands behind the last dash.
theorem keyNameText_injective (h : keyNameText config a v = keyNameText config b w) : a = b ∧ v = w := by
  have hd : toStr "-" = [45] := by decide
  have hn (n : Nat) : (45 : UInt8) ∉ toStr (Nat.repr n) := fun hm => by
    have := digit_of_mem_toStr_repr hm
    simp at this
  rw [keyNameText, keyNameText, hd, List.append_assoc, List.append_assoc _ [45]] at h
  obtain ⟨hx, hy⟩ := append_separator_inj (hn v) (hn w) h
  exact ⟨List.append_cancel_left hx, toStr_repr_injective hy⟩

open KeyringCache

variable {cache cache' : KeyringCache} {name other : KeyName} {data : KeyData} {i ki n fuel : Nat}
variable {prev : Option Nat} {vault : KeyName → Except String KeyData} {stored : Except String Bool}

-- A store that yields a pointer has added its entry.
theorem keyringStoreKey_some (h : keyringStoreKey config stored name data cache = (.ok (some ki), cache')) :
    cache.keyCount < maxCacheEntries ∧ ki = cache.keyCount ∧ cache' = cache.append name data := by
  by_cases hc : cache.keyCount < maxCacheEntries
  case neg =>
    simp only [keyringStoreKey, keyringCacheStoreKey, if_neg hc, Prod.mk.injEq, reduceCtorEq, false_and] at h
  case pos =>
    simp only [keyringStoreKey, keyringCacheStoreKey_eq hc] at h
    generalize config.keyringProvider = provider at h
    obtain _ | _ | _ := provider
    case unknown => cases h
    all_goals
      obtain _ | _ | _ := stored <;> cases h
      exact ⟨hc, rfl, rfl⟩

-- A lookup of a key that neither the cache nor the provider has.
theorem keyringGetKey_absent {reply : Except String KeyData} (hc : cache.keyCount ≤ maxCacheEntries)
    (hn : ∀ i, ¬cache.Holds name i) (hr : ∀ data, reply = .ok data → ¬data.len > 0) :
    (∃ msg, (config.keyringProvider = .vaultV2 ∧ reply = .error msg) ∧
      keyringGetKey config reply name cache = (.error (.error msg), cache)) ∨
    keyringGetKey config reply name cache = (.ok none, cache) := by
  simp only [keyringGetKey, (search_none hc).mpr hn]
  cases config.keyringProvider
  case unknown => exact .inr rfl
  case file    => exact .inr rfl
  case vaultV2 =>
    cases reply
    case error msg => exact .inl ⟨msg, ⟨rfl, rfl⟩, rfl⟩
    case ok data   => exact .inr (if_neg (hr data rfl))

-- The search passes all versions up to `n` that are in the cache.
theorem nextVersion_of_first (hc : cache.keyCount ≤ maxCacheEntries) (hi : i ≤ n + 1)
    (h : ∀ v, i ≤ v → v ≤ n → ∃ k, cache.First (keyringConstructKeyName config a v) k) :
    ∃ last, nextVersion config vault a (n + 1 - i + fuel) i prev cache =
        nextVersion config vault a fuel (n + 1) last cache ∧
      (i = n + 1 → last = prev) ∧
      (i ≤ n → ∃ k, last = some k ∧ cache.First (keyringConstructKeyName config a n) k) := by
  induction hd : n + 1 - i generalizing i prev
  case zero      =>
    obtain rfl : i = n + 1 := by omega
    exact ⟨prev, by rw [Nat.zero_add], fun _ => rfl, fun hn => by omega⟩
  case succ d hs =>
    obtain ⟨k, hk⟩ := h i (Nat.le_refl _) (by omega)
    obtain ⟨last, hl, hp, hf⟩ := @hs (i + 1) (some k) (by omega) (fun v hv => h v (by omega)) (by omega)
    refine ⟨last, ?_, fun _ => by omega, fun _ => ?_⟩
    · rw [Nat.add_right_comm, nextVersion]
      simp only [keyringGetKey_of_first hc hk, hl]
    · by_cases hn : i = n
      case pos => exact ⟨k, hp (by omega), hn ▸ hk⟩
      case neg => exact hf (by omega)

theorem append_search (hc : cache.keyCount < maxCacheEntries) (ho : other.str ≠ name.str) :
    (cache.append name data).search other 0 (cache.append name data).keyCount =
    cache.search other 0 cache.keyCount := by
  have hca : (cache.append name data).keyCount ≤ maxCacheEntries := hc
  cases search_cases other hc.le
  case inl h =>
    obtain ⟨i, hs, hf⟩ := h
    rw [hs, search_some hca]
    exact hf.append
  case inr h =>
    obtain ⟨hs, hn⟩ := h
    rw [hs, search_none hca]
    rintro i ⟨hi, he⟩
    by_cases hl : i = cache.keyCount
    case pos => exact ho (by rw [←he, hl, append_keys_last])
    case neg =>
      have hlt : i < cache.keyCount := Nat.lt_of_le_of_ne (Nat.le_of_lt_succ hi) hl
      exact hn i ⟨hlt, append_keys_of_lt hlt ▸ he⟩

theorem addsOnly_append {keyLen : Nat} (hc : cache.keyCount < maxCacheEntries) (hn : ∀ i, ¬cache.Holds name i)
    (hl : data.len = .ofNat keyLen) : cache.AddsOnly (cache.append name data) name keyLen cache.keyCount where
  keyCount         := rfl
  name             := by rw [append_keys_last]
  len              := by rw [append_keys_last, hl]
  entries i hi     := append_keys_of_lt hi
  lookups other ho := append_search hc ho
  found            := by
    have hca : (cache.append name data).keyCount ≤ maxCacheEntries := hc
    rw [search_some hca]
    refine ⟨⟨Nat.lt_succ_self _, by rw [append_keys_last]⟩, fun j hj he => ?_⟩
    rw [append_keys_of_lt hj] at he
    exact hn j ⟨hj, he⟩

namespace VersionedKeyring

variable {s s' : VersionedKeyring} {versions : List UInt8 → Nat} {internalName : InternalName config}

-- For each internal name, there are the versions up to some number, and no others.
structure Contiguous (config : KeyringConfig) (s : VersionedKeyring) (versions : List UInt8 → Nat) : Prop where
  count_le    : s.cache.keyCount ≤ maxCacheEntries
  versions_le : ∀ a, versions a ≤ s.cache.keyCount
  present     : ∀ a v, 0 ∉ a → NameFits config a v →
    (s.cache.Present config a v ↔ 1 ≤ v ∧ v ≤ versions a)
  stored      : ∀ n ∈ s.stored, ∃ i < s.cache.keyCount, (s.cache.keys i).name.str = n

namespace Contiguous

theorem fits (h : s.Contiguous config versions) (ha : v ≤ versions internalName.name + 1) :
    NameFits config internalName.name v := by
  have := h.versions_le internalName.name
  have := h.count_le
  exact internalName.fits v (by omega)

theorem exists_first (h : s.Contiguous config versions) (hv : 1 ≤ v) (hn : v ≤ versions internalName.name) :
    ∃ k, s.cache.First (keyringConstructKeyName config internalName.name v) k := by
  have hp := (h.present _ v internalName.string (h.fits (by omega))).mpr ⟨hv, hn⟩
  obtain ⟨i, hi, he⟩ := hp
  cases search_cases (keyringConstructKeyName config internalName.name v) h.count_le
  case inl hf =>
    obtain ⟨k, _, hf⟩ := hf
    exact ⟨k, hf⟩
  case inr hn => exact absurd ⟨hi, he⟩ (hn.2 i)

theorem not_holds_next (internalName : InternalName config) (h : s.Contiguous config versions) (i : Nat) :
    ¬s.cache.Holds (keyringConstructKeyName config internalName.name (versions internalName.name + 1)) i := by
  rintro ⟨hi, he⟩
  have := (h.present _ _ internalName.string (h.fits (Nat.le_refl _))).mp ⟨i, hi, he⟩
  omega

-- A search ends behind the last version.
theorem search (h : s.Contiguous config versions) (hv : s.Answers vault) :
    let n    := versions internalName.name
    let call := nextVersion config vault internalName.name versionFuel 1 none s.cache
    (∃ msg, LookupFails config vault internalName.name n msg ∧ call = (.error (.error msg), s.cache)) ∨
    ∃ prev, call = (.ok (prev, n + 1), s.cache) ∧ s.cache.Latest config internalName.name n prev := by
  intro n call
  have hle : n ≤ maxCacheEntries := (h.versions_le _).trans h.count_le
  obtain ⟨fuel, hfuel⟩ : ∃ fuel, versionFuel = n + 1 - 1 + (fuel + 1) := by
    refine ⟨versionFuel - 1 - n, ?_⟩
    simp only [versionFuel, maxCacheEntries] at *
    omega
  obtain ⟨last, hl, hz, hs⟩ := @nextVersion_of_first config internalName.name s.cache 1 n (fuel + 1) none vault
    h.count_le (by omega) fun v hv hn => h.exists_first hv hn
  have hreply (data : KeyData)
      (hd : vault (keyringConstructKeyName config internalName.name (n + 1)) = .ok data) : ¬data.len > 0 := by
    intro hlen
    obtain ⟨i, hi, he⟩ := h.stored _ (hv _ data hd hlen)
    exact h.not_holds_next internalName i ⟨hi, he⟩
  have hg := @keyringGetKey_absent config s.cache _ _ h.count_le (h.not_holds_next internalName) hreply
  simp only [call, hfuel, hl, nextVersion]
  cases hg
  case inl hg =>
    obtain ⟨msg, hf, hg⟩ := hg
    exact .inl ⟨msg, hf, by rw [hg]⟩
  case inr hg =>
    refine .inr ⟨last, by rw [hg], ?_⟩
    constructor
    case none => exact fun h0 => hz (by omega)
    case some =>
      intro h0
      obtain ⟨k, rfl, hk⟩ := hs (by omega)
      exact ⟨k, rfl, hk.holds.1, hk.holds.2⟩

-- A successful call adds the next version.
theorem generates (h : s.Contiguous config versions) {replies : KeyringReplies} {keyLen : Nat}
    (hg : s.Generates config replies internalName keyLen ki cache') :
    ∃ data, data.len = .ofNat keyLen ∧ s.cache.keyCount < maxCacheEntries ∧ ki = s.cache.keyCount ∧
      cache' = s.cache.append
        (keyringConstructKeyName config internalName.name (versions internalName.name + 1)) data := by
  have hc := hg.call
  rw [keyringGenerateKey] at hc
  obtain ⟨msg, -, hn⟩ | ⟨prev, hn, -⟩ := @search _ _ _ _ internalName h hg.answers
  case inl =>
    rw [hn] at hc
    cases hc
  case inr =>
    rw [hn] at hc
    cases hr : replies.random
    case none      => simp only [hr, Prod.mk.injEq, Except.ok.injEq, reduceCtorEq, false_and] at hc
    case some data =>
      simp only [hr] at hc
      obtain ⟨hlt, hk, hc⟩ := keyringStoreKey_some hc
      exact ⟨_, rfl, hlt, hk, hc⟩

-- The versions of the other names are as before.
theorem append (hp : 0 ∉ keyNamePrefix config) (h : s.Contiguous config versions)
    (hc : s.cache.keyCount < maxCacheEntries) :
    let name := keyringConstructKeyName config internalName.name (versions internalName.name + 1)
    Contiguous config { cache := s.cache.append name data, stored := name.str :: s.stored }
      (Function.update versions internalName.name (versions internalName.name + 1)) := by
  intro name
  constructor
  case count_le    => exact hc
  case versions_le =>
    intro a
    have := h.versions_le a
    have := h.versions_le internalName.name
    simp only [Function.update_apply, KeyringCache.append]
    split <;> omega
  case present     =>
    intro a v ha hf
    have hstr : name.str = keyNameText config internalName.name (versions internalName.name + 1) :=
      keyringConstructKeyName_str hp internalName.string (h.fits (Nat.le_refl _))
    have hnew : name.str = (keyringConstructKeyName config a v).str ↔
        a = internalName.name ∧ v = versions internalName.name + 1 := by
      rw [hstr, keyringConstructKeyName_str hp ha hf]
      constructor
      case mp  => exact fun he => keyNameText_injective he.symm
      case mpr => rintro ⟨rfl, rfl⟩; rfl
    have hold : (s.cache.append name data).Present config a v ↔
        s.cache.Present config a v ∨ name.str = (keyringConstructKeyName config a v).str := by
      constructor
      case mp =>
        rintro ⟨i, hi, he⟩
        by_cases hl : i = s.cache.keyCount
        case pos =>
          rw [hl, append_keys_last] at he
          exact .inr he
        case neg =>
          have hlt : i < s.cache.keyCount := Nat.lt_of_le_of_ne (Nat.le_of_lt_succ hi) hl
          rw [append_keys_of_lt hlt] at he
          exact .inl ⟨i, hlt, he⟩
      case mpr =>
        rintro (⟨i, hi, he⟩ | he)
        · exact ⟨i, Nat.lt_succ_of_lt hi, by rwa [append_keys_of_lt hi]⟩
        · exact ⟨_, Nat.lt_succ_self _, by rwa [append_keys_last]⟩
    rw [hold, hnew, h.present a v ha hf, Function.update_apply]
    split
    case isTrue he  =>
      simp only [he, true_and]
      omega
    case isFalse he => simp only [he, false_and, or_false]
  case stored      =>
    intro n hn
    cases hn
    case head   => exact ⟨s.cache.keyCount, Nat.lt_succ_self _, by rw [append_keys_last]⟩
    case tail hn =>
      obtain ⟨i, hi, he⟩ := h.stored n hn
      exact ⟨i, Nat.lt_succ_of_lt hi, by rwa [append_keys_of_lt hi]⟩

theorem toVersions (h : s.Contiguous config versions) :
    s.Versions config internalName (versions internalName.name) where
  present v hf := h.present _ v internalName.string hf
  search _ hv  := by
    obtain hs | ⟨prev, hs, -⟩ := @search _ _ _ _ internalName h hv
    · exact .inl hs
    · exact .inr ⟨prev, hs⟩
  latest _ hv  := by
    simp only [keyringGetLatestKey]
    obtain ⟨msg, hf, hs⟩ | ⟨prev, hs, hl⟩ := @search _ _ _ _ internalName h hv
    · exact .inl ⟨msg, hf, by rw [hs]⟩
    · exact .inr ⟨prev, by rw [hs], hl⟩
  generate _ _ _ _ hg := by
    obtain ⟨data, hl, hlt, rfl, rfl⟩ := h.generates hg
    exact addsOnly_append hlt (h.not_holds_next _) hl

end Contiguous

theorem contiguous_invariant (hp : 0 ∉ keyNamePrefix config) :
    (versionedSystem config).Invariant fun s => ∃ versions, s.Contiguous config versions := by
  constructor
  case initial =>
    rintro s ⟨hk, hs⟩
    refine ⟨fun _ => 0, by rw [hk]; exact Nat.zero_le _, by simp, fun a v _ _ => ?_, by simp [hs]⟩
    have hn : ¬s.cache.Present config a v := by
      rintro ⟨i, hi, -⟩
      omega
    exact iff_of_false hn (by omega)
  case step    =>
    rintro s a s' ⟨versions, h⟩ ⟨ki, hg, hs⟩
    obtain ⟨data, -, hlt, rfl, hc⟩ := h.generates hg
    obtain ⟨cache, stored⟩ := s'
    dsimp only at hc hs
    subst hc
    rw [append_keys_last] at hs
    subst hs
    exact ⟨_, h.append hp hlt⟩

-- A prefix and names that contain dashes and digits.
def prefixedConfig : KeyringConfig where
  keyringProvider  := .vaultV2
  keyringKeyPrefix := some (toStr "tde-1")

end VersionedKeyring
