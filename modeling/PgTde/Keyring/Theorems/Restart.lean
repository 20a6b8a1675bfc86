import PgTde.Keyring.Restart
import PgTde.Keyring.Theorems.Vault

theorem KeyData.length_bytes {data : KeyData} (h : data.len.toNat ≤ 32) :
    data.bytes.length = data.len.toNat := by
  rw [bytes, List.length_take, List.length_ofFn]
  omega

theorem KeyData.getElem?_bytes {data : KeyData} {t : Fin 32} (h : t.val < data.len.toNat) :
    data.bytes[t.val]? = some (data.data t) := by
  rw [bytes, List.getElem?_take_of_lt h, List.getElem?_ofFn, dif_pos t.isLt]

theorem cString_of_string {l : List UInt8} (h : 0 ∉ l) : cString l = l := by
  refine List.takeWhile_eq_self_iff.mpr fun x hx => ?_
  simpa using fun he : x = 0 => h (he ▸ hx)

namespace VaultRestart

variable {r : VaultRestart} {ki : Nat}

theorem encodedKey_ok (hl : r.data.len.toNat ≤ 32) (hb : r.base64.Inverts r.data.bytes) :
    encodedKey r.base64 r.data = .ok (r.base64.encode r.data.bytes) := by
  have hn := hb.length
  rw [KeyData.length_bytes hl] at hn
  rw [encodedKey, cString_of_string hb.string]
  exact if_pos ⟨hl, by omega⟩

-- A store that returns a key has been confirmed by the vault.
theorem exists_reply (hl : r.data.len.toNat ≤ 32) (hb : r.base64.Inverts r.data.bytes)
    (hs : r.store.1 = .ok (some ki)) : ∃ url reply, keyringVaultKeyUrl r.vault r.name = .ok url ∧
      (r.server.post r.state url (r.body (r.base64.encode r.data.bytes))).1 = some reply ∧
      httpSuccess reply.httpCode := by
  have hk : r.storeKey = .ok true := by
    have hp := r.isVault
    simp only [store, callProvider, keyringStoreKey, hp] at hs
    cases hk : r.storeKey
    case ok stored =>
      simp only [hk] at hs
      cases stored
      case true  => rfl
      case false =>
        generalize keyringCacheStoreKey _ _ _ = call at hs
        obtain ⟨_ | _, _⟩ := call <;> cases hs
    case error e   =>
      simp only [hk] at hs
      cases e
      case error msg =>
        dsimp only at hs
        generalize keyringCacheStoreKey _ _ _ = call at hs
        obtain ⟨_ | _, _⟩ := call <;> cases hs
      all_goals cases hs
  have h32 : ¬32 < r.data.len.toNat := by omega
  simp only [storeKey, encodedKey_ok hl hb, Outcome.ok_bind, keyringVaultStoreKey, h32, if_false] at hk
  cases hu : keyringVaultKeyUrl r.vault r.name
  case error e => simp only [hu] at hk; cases hk
  case ok url  =>
    cases hr : (r.server.post r.state url (r.body (r.base64.encode r.data.bytes))).1
    case none       => simp only [hu, Outcome.pure_eq, Outcome.ok_bind, hr] at hk; cases hk
    case some reply =>
      simp only [hu, Outcome.pure_eq, Outcome.ok_bind, hr] at hk
      exact ⟨url, reply, rfl, hr, Except.ok.inj hk⟩

-- What the vault answers with after a restart is the key as it has been encoded.
theorem answers (hj : r.json.ReadsBack (r.base64.encode r.data.bytes))
    (hv : r.server.Returns r.json.toJsonLibrary) (hb : r.base64.Inverts r.data.bytes)
    (hl : 1 ≤ r.data.len.toNat) (hm : r.data.len.toNat ≤ 32) (hs : r.store.1 = .ok (some ki)) :
    ∃ state, r.stored = .ok state ∧
      (r.lookup state).Answers (r.base64.encode r.data.bytes) := by
  obtain ⟨url, reply, hu, hr, hc⟩ := exists_reply hm hb hs
  refine ⟨_, by rw [stored, encodedKey_ok hm hb, Outcome.ok_bind, hu]; rfl, ?_⟩
  obtain ⟨answer, response, outer, hg, ha, hp, hd, hd'⟩ :=
    hv _ _ _ reply _ (Prod.ext hr rfl) hc _ _ hj.parse hj.data
  have hne : (r.base64.encode r.data.bytes).length ≠ 0 := by
    rw [hb.length, KeyData.length_bytes hm]
    omega
  have hk : keyringVaultKey r.json.toJsonLibrary answer.body = .ok (r.base64.encode r.data.bytes) := by
    simp only [keyringVaultKey, keyringVaultKeyObject, hp, hd, hd', hj.key, hj.string, Option.map_some,
      cString_of_string hb.string, hne, if_false]
  exact ⟨url, answer, hu, hg, ha, hk⟩

end VaultRestart

-- A key of at most 32 bytes that has been stored in the vault is found after a restart.
theorem VaultRestart.survives (r : VaultRestart) (hl : 1 ≤ r.data.len.toNat) (hm : r.data.len.toNat ≤ 32)
    (hb : r.base64.Inverts r.data.bytes) (hj : r.json.ReadsBack (r.base64.encode r.data.bytes))
    (hv : r.server.Returns r.json.toJsonLibrary) (hs : ∃ ki, r.store.1 = .ok (some ki)) : r.Survives := by
  obtain ⟨ki, hs⟩ := hs
  obtain ⟨state, hst, ha⟩ := answers hj hv hb hl hm hs
  have hu : (r.lookup state).UrlFits := by
    by_contra hn
    obtain ⟨url, _, hu, _⟩ := exists_reply hm hb hs
    cases hu.symm.trans (VaultLookup.keyringVaultKeyUrl_undefined hn)
  obtain ⟨key, ha', hd⟩ | ⟨hn, -⟩ := VaultLookup.fetched_cases hu
  case inr => exact absurd ha (hn _)
  case inl =>
    rw [VaultLookup.answers_unique ha ha'] at hd
    have hbytes : r.data.bytes.length ≤ 32 := KeyData.length_bytes hm ▸ hm
    obtain ⟨hn, hk⟩ := @decodeKey_of_valid r.base64.decode r.outData _ _ hb.decode hbytes
    rw [KeyData.length_bytes hm] at hn hk
    have hp : (decodeKey r.base64.decode r.outData (r.base64.encode r.data.bytes)).len > 0 := by
      rw [gt_iff_lt, UInt32.lt_iff_toNat_lt, hn]
      exact hl
    have hr := VaultLookup.run_of_key hd hp (Nat.zero_lt_succ 1023)
    refine ⟨state, _, hst, by rw [hr], ?_⟩
    simp only [hr, KeyringCache.append_keys_last]
    refine ⟨rfl, UInt32.toNat_inj.mp hn, fun t ht => ?_⟩
    have he := hk t ht
    rw [KeyData.getElem?_bytes ht] at he
    exact (Option.some.inj he).symm

-- Sixteen zeros in base64.
def zerosText : List UInt8 :=
  toStr "AAAAAAAAAAAAAAAAAAAAAA=="

def zerosBase64 : Base64 where
  encode bytes := if bytes = List.replicate 16 0 then zerosText else []
  decode key   := if key = zerosText then some (List.replicate 16 0) else none

-- Objects with one attribute inside of another, and a string inside of them all.
def nestedText : List (List UInt8) → List UInt8 → List UInt8
  | [], string           => toStr "\"" ++ string ++ toStr "\""
  | step :: path, string => toStr "\x7b\"" ++ step ++ toStr "\":" ++ nestedText path string ++ toStr "\x7d"

def requestText : List UInt8 :=
  nestedText [toStr "data", toStr "key"] zerosText

def answerText : List UInt8 :=
  nestedText [toStr "data", toStr "data", toStr "key"] zerosText

def nestedBuilder : JsonBuilder where
  Object               := List (List UInt8) × List UInt8
  parse body           :=
    if body = requestText then some ([toStr "data", toStr "key"], zerosText)
    else if body = answerText then some ([toStr "data", toStr "data", toStr "key"], zerosText)
    else none
  objectGet o name     :=
    match o.1 with
    | []           => none
    | step :: path => if step = name then some (path, o.2) else none
  getString o          := if o.1 = [] then some o.2 else none
  newObject            := ([], [])
  newString s          := ([], s)
  objectAdd _ name v   := (name :: v.1, v.2)
  toJsonString o       := nestedText o.1 o.2

instance : DecidableEq nestedBuilder.Object :=
  inferInstanceAs (DecidableEq (List (List UInt8) × List UInt8))

-- A vault that keeps what is posted last, if it is the request above.
def zerosServer : VaultServer where
  State           := Option (List UInt8)
  post s _ body   :=
    if body = requestText
    then (some { httpCode := 200, body := [] }, some body)
    else (some { httpCode := 400, body := [] }, s)
  get s _         :=
    match s with
    | some _ => some { httpCode := 200, body := answerText }
    | none   => some { httpCode := 404, body := [] }

-- A master key of sixteen zeros, in the vault of the lookup above.
def zerosRestart : VaultRestart where
  json      := nestedBuilder
  base64    := zerosBase64
  vault     := malformedLookup.vault
  server    := zerosServer
  state     := (none : Option (List UInt8))
  config    := malformedLookup.config
  isVault   := malformedLookup.isVault
  cache     := malformedLookup.cache
  name      := malformedLookup.name
  data      := { data := fun _ => 0, len := 16 }
  outData _ := 0

theorem zerosBase64_inverts : zerosBase64.Inverts zerosRestart.data.bytes where
  decode := by decide
  length := by decide
  string := by decide

theorem nestedBuilder_readsBack : nestedBuilder.ReadsBack (zerosBase64.encode zerosRestart.data.bytes) where
  parse  := by decide
  data   := by decide
  key    := by decide
  string := by decide

theorem zerosServer_returns : zerosServer.Returns nestedBuilder.toJsonLibrary := by
  intro s url body reply s' hp hc request data hr hd
  by_cases hb : body = requestText
  case neg =>
    simp only [zerosServer, if_neg hb] at hp
    cases hp
    exact absurd hc (by decide)
  case pos =>
    simp only [zerosServer, if_pos hb] at hp
    cases hp
    simp only [nestedBuilder, hb, if_true] at hr
    cases hr
    have ha : nestedBuilder.parse (cString answerText) =
        some ([toStr "data", toStr "data", toStr "key"], zerosText) := by rfl
    exact ⟨_, _, _, rfl, by decide, ha, rfl, hd⟩

theorem zerosRestart_store : ∃ ki, zerosRestart.store.1 = .ok (some ki) := by
  have hf : (zerosRestart.lookup none).UrlFits := malformedLookup_urlFits
  obtain ⟨url, hu⟩ := VaultLookup.keyringVaultKeyUrl_ok hf
  have hb : zerosRestart.body (zerosBase64.encode zerosRestart.data.bytes) = requestText := by decide
  have hk : zerosRestart.storeKey = .ok true := by
    have he : encodedKey zerosRestart.base64 zerosRestart.data =
        .ok (zerosBase64.encode zerosRestart.data.bytes) :=
      VaultRestart.encodedKey_ok (by decide) zerosBase64_inverts
    have hu' : keyringVaultKeyUrl zerosRestart.vault zerosRestart.name = .ok url := hu
    rw [VaultRestart.storeKey, he, Outcome.ok_bind, hb, keyringVaultStoreKey, if_neg (by decide), hu']
    rfl
  refine ⟨0, ?_⟩
  simp only [VaultRestart.store, callProvider, hk]
  rfl

theorem zerosRestart_survives : zerosRestart.Survives :=
  VaultRestart.survives zerosRestart (by decide) (by decide) zerosBase64_inverts nestedBuilder_readsBack
    zerosServer_returns zerosRestart_store
