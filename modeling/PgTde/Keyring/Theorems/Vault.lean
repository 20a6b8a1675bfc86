import PgTde.Keyring.Theorems.Api
import PgTde.Keyring.Vault

open KeyringCache

-- What becomes of a key that is valid, and of one that is not.
section

variable {base64 : List UInt8 → Option (List UInt8)} {data : Fin 32 → UInt8} {key bytes : List UInt8}

theorem decodeKey_of_valid (h : base64 key = some bytes) (hl : bytes.length ≤ 32) :
    (decodeKey base64 data key).len.toNat = bytes.length ∧
    ∀ t : Fin 32, t.val < bytes.length → bytes[t.val]? = some ((decodeKey base64 data key).data t) := by
  simp only [decodeKey, h, hl, if_true]
  constructor
  case left  => simp only [UInt32.toNat_ofNat']; omega
  case right =>
    intro t ht
    rw [List.getElem?_eq_getElem ht, Option.getD_some]

theorem decodeKey_of_invalid (h : ¬∃ bytes, base64 key = some bytes ∧ bytes.length ≤ 32) :
    (decodeKey base64 data key).len = -1 := by
  rw [decodeKey]
  cases hb : base64 key
  case none       => rfl
  case some bytes =>
    have hl : ¬bytes.length ≤ 32 := fun hl => h ⟨bytes, hb, hl⟩
    simp only [if_neg hl]

end

namespace VaultLookup

variable {lookup : VaultLookup}

-- The answer decodes, and there is room for the key.
def AnswerFits (lookup : VaultLookup) (key : List UInt8) : Prop :=
  ∃ bytes, lookup.base64 key = some bytes ∧ bytes.length ≤ 32 ∧
    (bytes ≠ [] → lookup.cache.keyCount < maxCacheEntries)

-- The URL of the key fits into its buffer.
def UrlFits (lookup : VaultLookup) : Prop :=
  lookup.vault.keyringVaultUrl.length + lookup.vault.keyringVaultMountPath.length + lookup.name.str.length + 10 < 512

theorem keyringVaultKeyUrl_ok (h : lookup.UrlFits) : ∃ url, keyringVaultKeyUrl lookup.vault lookup.name = .ok url := by
  refine ⟨_, if_pos ?_⟩
  rw [UrlFits] at h
  simp [toStr]
  omega

theorem keyringVaultKeyUrl_undefined (h : ¬lookup.UrlFits) :
    keyringVaultKeyUrl lookup.vault lookup.name = .error .undefined := by
  refine if_neg ?_
  rw [UrlFits] at h
  simp [toStr]
  omega

theorem answers_unique {key key' : List UInt8} (h : lookup.Answers key) (h' : lookup.Answers key') : key' = key := by
  obtain ⟨url, reply, hu, hr, -, hk⟩ := h
  obtain ⟨url', reply', hu', hr', -, hk'⟩ := h'
  cases hu.symm.trans hu'
  cases hr.symm.trans hr'
  exact Except.ok.inj (hk'.symm.trans hk)

-- The function raises an error, finds no key, or decodes the one that the vault answers with.
theorem fetched_cases (h : lookup.UrlFits) :
    (∃ key, lookup.Answers key ∧ lookup.fetched = .ok (decodeKey lookup.base64 lookup.data key)) ∨
    ((∀ key, ¬lookup.Answers key) ∧
      ((∃ msg, lookup.fetched = .error (.error msg)) ∨ ∃ data, lookup.fetched = .ok data ∧ data.len = 0)) := by
  obtain ⟨url, hu⟩ := keyringVaultKeyUrl_ok h
  simp only [Answers, fetched, keyringVaultGetKey, hu, Outcome.ok_bind, Outcome.pure_eq, Except.ok.injEq,
    exists_and_left, exists_eq_left']
  cases hr : lookup.perform url
  case none       => exact .inr ⟨by simp, .inl ⟨_, rfl⟩⟩
  case some reply =>
    by_cases hs : httpSuccess reply.httpCode = true
    case neg =>
      refine .inr ⟨by simp [hs], ?_⟩
      simp only [hs]
      by_cases h404 : reply.httpCode ≠ 404
      case pos => exact .inl ⟨_, if_pos h404⟩
      case neg => exact .inr ⟨_, if_neg h404, rfl⟩
    case pos =>
      simp only [hs, not_true_eq_false, if_false, Option.some.injEq, exists_eq_left']
      cases hk : keyringVaultKey lookup.json reply.body
      case error msg => exact .inr ⟨by simp, .inl ⟨_, rfl⟩⟩
      case ok key    => exact .inl ⟨key, by simp, rfl⟩

theorem fetched_undefined (h : ¬lookup.UrlFits) : lookup.fetched = .error .undefined := by
  rw [fetched, keyringVaultGetKey, keyringVaultKeyUrl_undefined h]
  rfl

-- The call, for each way in which the provider's function ends.
theorem run_of_error {msg : String} (h : lookup.fetched = .error (.error msg)) :
    lookup.run = (.error (.error msg), lookup.cache) := by
  have hn : ∀ i, ¬lookup.cache.Holds lookup.name i := fun i hi => lookup.absent i hi.left hi.right
  simp only [run, callProvider, h, keyringGetKey, (search_none lookup.count_le).mpr hn, lookup.isVault]

theorem run_of_ok {data : KeyData} (h : lookup.fetched = .ok data) :
    lookup.run =
      if data.len > 0 then
        let (i, cache) := keyringCacheStoreKey lookup.name data lookup.cache
        (i.map some, cache)
      else
        (.ok none, lookup.cache) := by
  have hn : ∀ i, ¬lookup.cache.Holds lookup.name i := fun i hi => lookup.absent i hi.left hi.right
  simp only [run, callProvider, h, keyringGetKey, (search_none lookup.count_le).mpr hn, lookup.isVault]

theorem run_of_empty {data : KeyData} (h : lookup.fetched = .ok data) (hl : data.len = 0) :
    lookup.run = (.ok none, lookup.cache) := by
  rw [run_of_ok h, hl]
  rfl

theorem run_of_key {data : KeyData} (h : lookup.fetched = .ok data) (hl : data.len > 0)
    (hc : lookup.cache.keyCount < maxCacheEntries) :
    lookup.run = (.ok (some lookup.cache.keyCount), lookup.cache.append lookup.name data) := by
  rw [run_of_ok h, if_pos hl, keyringCacheStoreKey_eq hc]
  rfl

theorem run_of_full {data : KeyData} (h : lookup.fetched = .ok data) (hl : data.len > 0)
    (hc : ¬lookup.cache.keyCount < maxCacheEntries) : lookup.run.1 = .error .undefined := by
  rw [run_of_ok h, if_pos hl]
  simp only [keyringCacheStoreKey, if_neg hc]
  rfl

-- Nothing is promised where the behavior is undefined.
theorem not_yieldsDecoded_of_undefined (h : lookup.run.1 = .error .undefined) : ¬lookup.YieldsDecoded := by
  rintro (⟨i, key, bytes, hr, -⟩ | ⟨hr | ⟨msg, hr⟩, -⟩)
  · cases h.symm.trans hr
  · cases h.symm.trans hr
  · cases h.symm.trans hr

theorem yieldsDecoded_of_fits {key : List UInt8} (ha : lookup.Answers key) (hf : lookup.AnswerFits key)
    (hd : lookup.fetched = .ok (decodeKey lookup.base64 lookup.data key)) : lookup.YieldsDecoded := by
  obtain ⟨bytes, hb, hl, hc⟩ := hf
  obtain ⟨hn, hk⟩ := @decodeKey_of_valid _ lookup.data _ _ hb hl
  by_cases he : bytes = []
  case pos =>
    rw [he, List.length_nil] at hn
    rw [YieldsDecoded, run_of_empty hd (UInt32.toNat_inj.mp hn)]
    exact .inr ⟨.inl rfl, rfl⟩
  case neg =>
    have hp : 0 < bytes.length := List.length_pos_iff.mpr he
    rw [YieldsDecoded, run_of_key hd (UInt32.lt_iff_toNat_lt.mpr (by rwa [hn])) (hc he)]
    refine .inl ⟨_, key, bytes, rfl, ha, hb, ?_⟩
    simp only [append_keys_last, hn]
    exact ⟨hp, hl, trivial, hk⟩

-- A length of -1 is more than any key has.
theorem not_yieldsDecoded_of_invalid {data : KeyData} (hd : lookup.fetched = .ok data) (hl : data.len = -1)
    (hc : lookup.cache.keyCount < maxCacheEntries) : ¬lookup.YieldsDecoded := by
  have hp : data.len > 0 := by rw [hl]; decide
  rw [YieldsDecoded, run_of_key hd hp hc]
  rintro (⟨i, key, bytes, hr, -, -, he⟩ | ⟨hr | ⟨msg, hr⟩, -⟩)
  · cases hr
    simp only [append_keys_last, hl] at he
    exact absurd he.right.left (by decide)
  · cases hr
  · cases hr

theorem not_yieldsDecoded_of_not_fits {key : List UInt8} (hf : ¬lookup.AnswerFits key)
    (hd : lookup.fetched = .ok (decodeKey lookup.base64 lookup.data key)) : ¬lookup.YieldsDecoded := by
  by_cases hv : ∃ bytes, lookup.base64 key = some bytes ∧ bytes.length ≤ 32
  case neg =>
    have hl := @decodeKey_of_invalid _ lookup.data _ hv
    by_cases hc : lookup.cache.keyCount < maxCacheEntries
    case pos => exact not_yieldsDecoded_of_invalid hd hl hc
    case neg => exact not_yieldsDecoded_of_undefined <| run_of_full hd (by rw [hl]; decide) hc
  case pos =>
    obtain ⟨bytes, hb, hl⟩ := hv
    obtain ⟨hn, -⟩ := @decodeKey_of_valid _ lookup.data _ _ hb hl
    have hc : bytes ≠ [] ∧ ¬lookup.cache.keyCount < maxCacheEntries := by
      by_contra hc
      exact hf ⟨bytes, hb, hl, fun he => not_not.mp fun hk => hc ⟨he, hk⟩⟩
    have hp : 0 < bytes.length := List.length_pos_iff.mpr hc.left
    exact not_yieldsDecoded_of_undefined <|
      run_of_full hd (UInt32.lt_iff_toNat_lt.mpr (by rwa [hn])) hc.right

-- What a lookup leaves in the cache is the decoded key, provided that the vault's answer can be decoded.
theorem yieldsDecoded_iff (lookup : VaultLookup) :
    lookup.YieldsDecoded ↔ lookup.UrlFits ∧ ∀ key, lookup.Answers key → lookup.AnswerFits key := by
  by_cases hu : lookup.UrlFits
  case neg =>
    have hn : ¬lookup.YieldsDecoded := by
      apply not_yieldsDecoded_of_undefined
      rw [run, fetched_undefined hu]
      rfl
    simp only [hn, hu, false_and]
  case pos =>
    simp only [hu, true_and]
    obtain ⟨key, ha, hd⟩ | ⟨ha, hd⟩ := fetched_cases hu
    case inl =>
      have hk : (∀ key, lookup.Answers key → lookup.AnswerFits key) ↔ lookup.AnswerFits key := by
        constructor
        case mp  => exact fun h => h key ha
        case mpr => intro hf key' ha'; rwa [answers_unique ha ha']
      rw [hk]
      by_cases hf : lookup.AnswerFits key
      case pos => exact iff_of_true (yieldsDecoded_of_fits ha hf hd) hf
      case neg => exact iff_of_false (not_yieldsDecoded_of_not_fits hf hd) hf
    case inr =>
      refine iff_of_true (.inr ?_) fun key hk => absurd hk (ha key)
      obtain ⟨msg, hd⟩ | ⟨data, hd, hl⟩ := hd
      · rw [run_of_error hd]
        exact ⟨.inr ⟨msg, rfl⟩, rfl⟩
      · rw [run_of_empty hd hl]
        exact ⟨.inl rfl, rfl⟩

end VaultLookup

-- Objects with one attribute inside of another, and a string inside of them all.
def nestedJson (text : List UInt8) (path : List (List UInt8)) (string : List UInt8) : JsonLibrary where
  Object                  := List (List UInt8)
  parse body              := if body = text then some path else none
  objectGet path name     :=
    match path with
    | []           => none
    | step :: path => if step = name then some path else none
  getString path          := if path = [] then some string else none

-- The vault answers with a key that is not in base64.
def malformedLookup : VaultLookup where
  json                        :=
    nestedJson (toStr "\x7b\"data\":\x7b\"data\":\x7b\"key\":\"?\"\x7d\x7d\x7d")
      [toStr "data", toStr "data", toStr "key"] (toStr "?")
  base64 key                  := if key = [] then some [] else none
  data _                      := 0
  vault.keyringVaultUrl       := toStr "https://vault"
  vault.keyringVaultMountPath := toStr "secret"
  vault.url_lt                := by decide
  vault.mountPath_lt          := by decide
  perform _                   :=
    some { httpCode := 200, body := toStr "\x7b\"data\":\x7b\"data\":\x7b\"key\":\"?\"\x7d\x7d\x7d" }
  config.keyringProvider      := .vaultV2
  config.keyringKeyPrefix     := none
  isVault                     := rfl
  cache.keys _                := { name := .ofStr [], data := { data := fun _ => 0, len := 0 } }
  cache.keyCount              := 0
  count_le                    := by decide
  name                        := .ofStr (toStr "master-key-1")
  absent                      := by simp

theorem malformedLookup_urlFits : malformedLookup.UrlFits := by
  have hl : malformedLookup.name.str.length ≤ 256 := by
    refine Nat.le_trans (List.takeWhile_sublist _).length_le ?_
    rw [List.length_ofFn]
  rw [VaultLookup.UrlFits]
  simp only [malformedLookup, toStr, List.length_map, String.length_toList] at hl ⊢
  have : "https://vault".length = 13 := rfl
  have : "secret".length = 6 := rfl
  omega

-- The cache gets a key of zeros with a length of -1.
theorem not_yieldsDecoded_malformedLookup : ¬malformedLookup.YieldsDecoded := by
  have hd : malformedLookup.fetched = .ok { data := fun _ => 0, len := -1 } := by
    obtain ⟨url, hu⟩ := VaultLookup.keyringVaultKeyUrl_ok malformedLookup_urlFits
    rw [VaultLookup.fetched, keyringVaultGetKey, hu]
    simp [malformedLookup, nestedJson, keyringVaultKey, keyringVaultKeyObject, cString, toStr, httpSuccess, decodeKey]
  exact VaultLookup.not_yieldsDecoded_of_invalid hd rfl (by decide)
