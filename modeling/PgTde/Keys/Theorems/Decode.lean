import PgTde.Keys.Theorems.Fork

open KeyringCache

namespace KeyName

variable {n : KeyName}

@[simp]
theorem str_strncpy : (strncpy n).str = n.str := by
  refine str_padded length_str_le fun x hx => ?_
  rw [str] at hx
  exact List.mem_takeWhile_imp (p := fun x => decide (x ≠ 0)) hx

@[simp]
theorem strncpy_strncpy : strncpy (strncpy n) = strncpy n := by
  rw [strncpy, str_strncpy, strncpy]

end KeyName

variable {server : KeyServer} {rlocator : RelFileLocator} {key : InternalKey} {s s' : KeySession}
variable {replies : KeyringReplies} {nestLevel : Nat}

namespace KeyServer

-- The file of a key under a master key.
def fork (server : KeyServer) (info : KeyInfo) (key : InternalKey) : List UInt8 :=
  server.encryptedFork info.data
    { masterKeyName := strncpy info.name, internalKeysLen := 1, internalKey := [key] }

variable {info : KeyInfo} {data : RelKeysData} {masterKey : KeyData}

theorem encryptedFork_eq (h : data.internalKey = [key]) : ∃ r,
    server.encryptedFork masterKey data = [] ++ (List.ofFn data.masterKeyName.name ++ r) := by
  rw [encryptedFork, overwrite, RelKeysData.bytes_eq h, List.take_left' RelKeysData.length_header,
    List.append_assoc, List.append_assoc]
  exact ⟨_, rfl⟩

theorem length_encryptedFork (h : data.internalKey = [key]) :
    (server.encryptedFork masterKey data).length = sizeOfRelKeysData 1 := by
  rw [encryptedFork, length_overwrite, RelKeysData.length_bytes h]
  rw [RelKeysData.length_bytes h, List.length_ofFn]
  decide

theorem masterKeyName_encryptedFork (h : data.internalKey = [key]) :
    (RelKeysData.ofBytes (server.encryptedFork masterKey data)).masterKeyName =
      data.masterKeyName := by
  obtain ⟨r, hr⟩ := @encryptedFork_eq server key data masterKey h
  exact congrArg KeyName.mk (byteArray_of_append hr rfl)

-- The decryption of the encrypted key restores the data.
theorem decryptedFork_eq (h : data.internalKey = [key]) :
    overwrite (server.encryptedFork masterKey data) sizeOfRelKeysDataHeader (List.ofFn <|
      server.cbc.decrypt masterKey.aesKey zeroIv <|
        byteArray 16 (server.encryptedFork masterKey data) sizeOfRelKeysDataHeader) =
      data.bytes := by
  have hl : sizeOfRelKeysDataHeader + 16 ≤ data.bytes.length := by
    rw [RelKeysData.length_bytes h]
    decide
  have ha : sizeOfRelKeysDataHeader ≤ data.bytes.length := by omega
  rw [encryptedFork, byteArray_overwrite ha, server.cbc.decrypt_encrypt,
    overwrite_overwrite ha (by simp only [List.length_ofFn]), overwrite_byteArray hl]

variable {vault : KeyName → Except String KeyData} {content : List UInt8} {keyring : KeyringCache}

-- The keys in a file, as long as the keyring has the master key that is named in it.
structure Decodes (server : KeyServer) (keyring : KeyringCache) (content : List UInt8)
    (keys : RelKeysData) : Prop where
  length : content.length = sizeOfRelKeysData 1
  keys   : ∃ i, keyring.First (strncpy (RelKeysData.ofBytes content).masterKeyName) i ∧
    keys = .ofBytes (overwrite content sizeOfRelKeysDataHeader (List.ofFn <|
      server.cbc.decrypt (keyring.keys i).data.aesKey zeroIv <|
        byteArray 16 content sizeOfRelKeysDataHeader))

theorem Decodes.extends {keyring' : KeyringCache} (h : server.Decodes keyring content data)
    (he : keyring.Extends keyring') : server.Decodes keyring' content data := by
  obtain ⟨i, hi, hd⟩ := h.keys
  have hk (j) (hj : j ≤ i) := he.keys j (Nat.lt_of_le_of_lt hj hi.holds.1)
  refine ⟨h.length, i, ⟨⟨Nat.lt_of_lt_of_le hi.holds.1 he.le, ?_⟩, fun j hj => ?_⟩, ?_⟩
  · rw [hk i (Nat.le_refl _), hi.holds.2]
  · rw [hk j (Nat.le_of_lt hj)]
    exact hi.first j hj
  · rw [hk i (Nat.le_refl _), hd]

theorem decodes_fork {ki : Nat} (hc : keyring.keyCount ≤ maxCacheEntries) (hu : keyring.Unique)
    (hk : ki < keyring.keyCount) : server.Decodes keyring (server.fork (keyring.keys ki) key)
      { masterKeyName := strncpy (keyring.keys ki).name, internalKeysLen := 1, internalKey := [key] } := by
  refine ⟨length_encryptedFork rfl, ?_⟩
  rw [fork, masterKeyName_encryptedFork rfl, KeyName.strncpy_strncpy]
  obtain ⟨i, -, hi⟩ | ⟨-, hn⟩ := search_cases (strncpy (keyring.keys ki).name) hc
  · have hd := hu i hi.holds.1 ki hk (by rw [hi.holds.2, KeyName.str_strncpy])
    refine ⟨i, hi, ?_⟩
    rw [hd, decryptedFork_eq rfl, RelKeysData.ofBytes_bytes rfl]
  · exact absurd ⟨hk, by rw [KeyName.str_strncpy]⟩ (hn ki)

theorem not_corrupted (h : content.length = sizeOfRelKeysData 1) :
    ¬(content.length < sizeOfRelKeysData 1 ∨
      (content.length - sizeOfRelKeysDataHeader) % sizeofInternalKey ≠ 0) := by
  rw [h]
  decide

theorem Decodes.read (hf : s.files (server.pgTdeGetKeyFilePath rlocator) = some content)
    (hc : s.keyring.keyCount ≤ maxCacheEntries) (h : server.Decodes s.keyring content data) :
    server.pgTdeGetKeysFromFork vault rlocator s = (.ok data, s) := by
  obtain ⟨i, hi, hd⟩ := h.keys
  have hlt : i < maxCacheEntries := Nat.lt_of_lt_of_le hi.holds.1 hc
  simp only [pgTdeGetKeysFromFork, hf, if_neg (not_corrupted h.length), keyringGetKey_of_first hc hi,
    if_pos hlt, ←hd]

end KeyServer

-- What holds for a session whenever the key file of `rlocator` may be written or read.
structure KeySession.Sound (server : KeyServer) (rlocator : RelFileLocator) (s : KeySession) : Prop where
  count_le : s.keyring.keyCount ≤ maxCacheEntries
  unique   : s.keyring.Unique
  fork     : ∀ content, s.files (server.pgTdeGetKeyFilePath rlocator) = some content →
    content.length = sizeOfRelKeysData 1

namespace KeySession

theorem Sound.extends {keyring : KeyringCache} (h : s.Sound server rlocator)
    (he : s.keyring.Extends keyring) : Sound server rlocator { s with keyring } :=
  ⟨he.count_le, he.unique, h.fork⟩

-- What writing a key file does to a session, and what it yields.
structure Written (server : KeyServer) (rlocator : RelFileLocator) (key : InternalKey) (s : KeySession)
    (call : Outcome (Option Nat) × KeyringCache) (r : Outcome Unit × KeySession) : Prop where
  sound   : r.2.Sound server rlocator
  defined : r.1 ≠ .error .undefined
  keyring : r.2.keyring = call.2
  isOk    : ∀ ki, call.1 = .ok (some ki) → r.1 = .ok ()
  ok      : r.1 = .ok () → ∃ ki, call.1 = .ok (some ki) ∧ ki < call.2.keyCount ∧
    r.2.files (server.pgTdeGetKeyFilePath rlocator) = some (server.fork (call.2.keys ki) key) ∧
    r.2.tdeRelKeysMap = [⟨rlocator.relNumber, strncpy (call.2.keys ki).name, 1, [key]⟩]
  error   : r.1 ≠ .ok () → r.2.tdeRelKeysMap = s.tdeRelKeysMap
  other   : ∀ path ≠ server.pgTdeGetKeyFilePath rlocator, r.2.files path = s.files path

theorem Sound.writeKeyFork (h : s.Sound server rlocator)
    (hf : MasterKeyFits server.config replies masterKeyName s.keyring) :
    Written server rlocator key s (keyringMasterKey server.config replies masterKeyName s.keyring)
      (server.pgTdeWriteKeyFork replies nestLevel rlocator key s) := by
  have hc := keyringMasterKey_call h.count_le h.unique hf
  have hs := h.extends hc.toExtends
  simp only [KeyServer.pgTdeWriteKeyFork]
  generalize keyringMasterKey server.config replies masterKeyName s.keyring = call at hc hs
  obtain ⟨r, keyring⟩ := call
  cases r
  case error e =>
    have hd := hc.defined
    exact ⟨hs, fun he => hd (by cases he; rfl), rfl, nofun, nofun, fun _ => rfl, fun _ _ => rfl⟩
  case ok ki   =>
    cases ki
    case none    => exact ⟨hs, nofun, rfl, nofun, nofun, fun _ => rfl, fun _ _ => rfl⟩
    case some ki =>
      have hlt := hc.pointer ki rfl
      have hold (old : List UInt8) (hl : old.length ≤ sizeOfRelKeysData 1) :
          server.fork (keyring.keys ki) key ++ old.drop (server.fork (keyring.keys ki) key).length =
          server.fork (keyring.keys ki) key := by
        rw [List.drop_of_length_le, List.append_nil]
        rwa [KeyServer.fork, KeyServer.length_encryptedFork rfl]
      have hget : ((s.files (server.pgTdeGetKeyFilePath rlocator)).getD []).length ≤
          sizeOfRelKeysData 1 := by
        cases hp : s.files (server.pgTdeGetKeyFilePath rlocator)
        case none         => exact Nat.zero_le _
        case some content => exact (h.fork content hp).le
      dsimp only
      rw [if_pos (Nat.lt_of_lt_of_le hlt hc.count_le)]
      refine ⟨⟨hc.count_le, hc.unique, ?_⟩, nofun, rfl, fun _ _ => rfl,
        fun _ => ⟨ki, rfl, hlt, ?_, rfl⟩, fun he => absurd rfl he, fun path hne => ?_⟩
      · intro content hp
        simp only [putKeysIntoMap, Function.update_self, Option.some.injEq] at hp
        exact hp ▸ (congrArg List.length (hold _ hget)).trans (KeyServer.length_encryptedFork rfl)
      · simp only [putKeysIntoMap, Function.update_self, Option.some.injEq]
        exact hold _ hget
      · simp only [putKeysIntoMap, Function.update_of_ne hne]

theorem writeKeyFork_undefined (hc : s.keyring.keyCount ≤ maxCacheEntries) (hu : s.keyring.Unique)
    (hf : ¬MasterKeyFits server.config replies masterKeyName s.keyring) :
    (server.pgTdeWriteKeyFork replies nestLevel rlocator key s).1 = .error .undefined := by
  have he := keyringMasterKey_undefined hc hu hf
  simp only [KeyServer.pgTdeWriteKeyFork]
  generalize keyringMasterKey server.config replies masterKeyName s.keyring = call at he
  obtain ⟨r, keyring⟩ := call
  cases he
  rfl

end KeySession

-- A server with a keyring file.
def xorCbc : AesCbc where
  encrypt key iv block         := fun t => block t ^^^ iv t ^^^ key t
  decrypt key iv block         := fun t => block t ^^^ key t ^^^ iv t
  decrypt_encrypt key iv block := by
    funext t
    simp [UInt8.xor_assoc]

def fileServer : KeyServer where
  config      := { keyringProvider := .file, keyringKeyPrefix := none }
  cbc         := xorCbc
  relpathperm := fun rlocator =>
    if rlocator.spcOid = 1663
    then s!"base/{rlocator.dbOid}/{rlocator.relNumber}"
    else s!"pg_tblspc/{rlocator.spcOid}/PG_16_202307071/{rlocator.dbOid}/{rlocator.relNumber}"

-- All calls succeed.
def fileReplies : KeyringReplies where
  vault  := fun _ => .error "not called"
  random := some fun _ => 2
  stored := .ok true
