import PgTde.Keys.RoundTrip
import PgTde.Keys.Theorems.Decode

open KeyringCache

variable {server : KeyServer} {rlocator : RelFileLocator} {key : InternalKey} {s : KeySession}

namespace ForkWrite

variable {w : ForkWrite key}

-- All callers write the same key.
theorem perform_eq : ∃ wal, w.perform server rlocator s =
    server.pgTdeWriteKeyFork w.replies w.nestLevel rlocator key { s with wal } := by
  obtain ⟨writer, replies, nestLevel⟩ := w
  cases writer
  case createKeyFork relname random hk => exact ⟨_, by subst hk; rfl⟩
  case xlogCreateFork more             =>
    have hl : ¬(rlocator.bytes ++ (key.bytes ++ more)).length <
        sizeofInternalKey + sizeofRelFileLocator := by
      rw [List.length_append, List.length_append, RelFileLocator.length_bytes,
        InternalKey.length_bytes]
      omega
    have hk : InternalKey.ofBytes (rlocator.bytes ++ (key.bytes ++ more)) sizeofRelFileLocator = key :=
      InternalKey.ofBytes_bytes rfl RelFileLocator.length_bytes
    refine ⟨s.wal, ?_⟩
    simp only [perform, KeyServer.pgTdeXlogCreateFork, if_neg hl, RelFileLocator.ofBytes_bytes, hk]

theorem written (h : s.Sound server rlocator)
    (hf : MasterKeyFits server.config w.replies masterKeyName s.keyring) :
    KeySession.Written server rlocator key s
      (keyringMasterKey server.config w.replies masterKeyName s.keyring)
      (w.perform server rlocator s) := by
  obtain ⟨wal, he⟩ := @perform_eq server rlocator key s w
  have hw := @KeySession.Sound.writeKeyFork server rlocator key { s with wal } w.replies w.nestLevel
    ⟨h.count_le, h.unique, h.fork⟩ hf
  rw [he]
  exact ⟨hw.sound, hw.defined, hw.keyring, hw.isOk, hw.ok, hw.error, hw.other⟩

theorem perform_undefined (h : s.Sound server rlocator)
    (hf : ¬MasterKeyFits server.config w.replies masterKeyName s.keyring) :
    (w.perform server rlocator s).1 = .error .undefined := by
  obtain ⟨wal, he⟩ := @perform_eq server rlocator key s w
  rw [he]
  exact KeySession.writeKeyFork_undefined (s := { s with wal }) h.count_le h.unique hf

end ForkWrite

theorem KeySession.after_of_defined {α : Type} {call : Outcome α × KeySession}
    (h : call.1 ≠ .error .undefined) : after call = .ok call.2 := by
  obtain ⟨r, s⟩ := call
  cases r
  case ok      => rfl
  case error e =>
    cases e
    case undefined => exact absurd rfl h
    all_goals rfl

theorem KeySession.after_of_undefined {α : Type} {call : Outcome α × KeySession}
    (h : call.1 = .error .undefined) : after call = .error .undefined := by
  obtain ⟨r, s⟩ := call
  cases h
  rfl

-- All of the calls that generate a key find room.
def GeneratesFit (config : KeyringConfig) : List KeyringReplies → KeyringCache → Prop
  | [], _                   => True
  | replies :: rest, cache =>
    GenerateFits config replies masterKeyName cache ∧
    GeneratesFit config rest (keyringGenerateKey config replies masterKeyName internalKeyLen cache).2

namespace ForkRun

variable {run : ForkRun key}

-- No call into the keyring adds an entry to a full cache, and all of their loops come to an end.
def WritesFit (config : KeyringConfig) (last : ForkWrite key) (generates : List KeyringReplies) :
    List (ForkWrite key) → KeyringCache → Prop
  | [], cache        =>
    MasterKeyFits config last.replies masterKeyName cache ∧
    ∀ ki cache', keyringMasterKey config last.replies masterKeyName cache = (.ok (some ki), cache') →
      GeneratesFit config generates cache'
  | w :: rest, cache =>
    MasterKeyFits config w.replies masterKeyName cache ∧
    WritesFit config last generates rest (keyringMasterKey config w.replies masterKeyName cache).2

def Fits (config : KeyringConfig) (run : ForkRun key) (cache : KeyringCache) : Prop :=
  WritesFit config run.last run.generates run.before cache

theorem performGenerates_cases {generates : List KeyringReplies}
    (hc : s.keyring.keyCount ≤ maxCacheEntries) (hu : s.keyring.Unique) :
    (GeneratesFit server.config generates s.keyring ∧ ∃ keyring,
      performGenerates server generates s = .ok { s with keyring } ∧ s.keyring.Extends keyring) ∨
    (¬GeneratesFit server.config generates s.keyring ∧
      performGenerates server generates s = .error .undefined) := by
  induction generates generalizing s
  case nil                  => exact .inl ⟨trivial, s.keyring, rfl, hu.extends_self hc⟩
  case cons replies rest hi =>
    rw [performGenerates, List.foldlM_cons]
    by_cases hf : GenerateFits server.config replies masterKeyName s.keyring
    case neg =>
      have he := @keyringGenerateKey_undefined _ _ _ _ internalKeyLen hc hu hf
      refine .inr ⟨fun h => hf h.1, ?_⟩
      rw [KeySession.after_of_undefined he, Outcome.error_bind]
    case pos =>
      have hcall := @keyringGenerateKey_call _ _ _ _ internalKeyLen hc hu hf
      have hd : (server.generateMasterKey s replies).1 ≠ .error .undefined := hcall.defined
      rw [KeySession.after_of_defined hd, Outcome.ok_bind]
      simp only [GeneratesFit, hf, true_and]
      have hi := @hi { s with keyring := (keyringGenerateKey server.config replies masterKeyName
        internalKeyLen s.keyring).2 } hcall.count_le hcall.unique
      obtain ⟨hg, keyring, hp, hx⟩ | h := hi
      · exact .inl ⟨hg, keyring, hp, hcall.toExtends.trans hx⟩
      · exact .inr h

variable {last : ForkWrite key} {generates : List KeyringReplies} {w : ForkWrite key}
variable {rest : List (ForkWrite key)}

-- The file is read back after the last write, no matter which keys are generated later.
theorem reads_of_written {s₁ s₂ s₃ : KeySession}
    (hw : KeySession.Written server rlocator key s₁
      (keyringMasterKey server.config last.replies masterKeyName s₁.keyring)
      (last.perform server rlocator s₁))
    (hl : last.perform server rlocator s₁ = (.ok (), s₂))
    (hx : s₂.keyring.Extends s₃.keyring) (hf : s₃.files = s₂.files) :
    ∃ masterKeyInfo,
      (keyringMasterKey server.config last.replies masterKeyName s₁.keyring).1 =
        .ok (some masterKeyInfo) ∧
      ∀ vault, ∃ keys s₄, server.pgTdeGetKeysFromFork vault rlocator s₃ = (.ok keys, s₄) ∧
        keys.masterKeyName.str = (s₂.keyring.keys masterKeyInfo).name.str ∧
        keys.internalKeysLen = 1 ∧ keys.internalKey = [key] := by
  have hu := (hl ▸ hw.sound).unique
  have hk := hl ▸ hw.keyring
  obtain ⟨ki, hm, hlt, hfile, -⟩ := hw.ok (hl ▸ rfl)
  rw [hl] at hfile
  rw [←hk] at hlt hfile
  refine ⟨ki, hm, fun vault => ?_⟩
  have hd := @KeyServer.decodes_fork server key s₂.keyring ki (hx.le.trans hx.count_le) hu hlt
  have hr := @KeyServer.Decodes.read server rlocator s₃ _ vault _ (hf ▸ hfile) hx.count_le (hd.extends hx)
  exact ⟨_, _, hr, KeyName.str_strncpy, rfl, rfl⟩

theorem roundTrips_nil_iff (h : s.Sound server rlocator) :
    RoundTrips server rlocator { before := [], last, generates } s ↔
    WritesFit server.config last generates [] s.keyring := by
  by_cases hf : MasterKeyFits server.config last.replies masterKeyName s.keyring
  case neg =>
    have hu := last.perform_undefined h hf
    have hp : perform server rlocator { before := [], last, generates } s = .error .undefined := by
      generalize hr : last.perform server rlocator s = r at hu
      obtain ⟨r, s'⟩ := r
      cases hu
      simp only [perform, performBefore, List.foldlM_nil, Outcome.pure_eq, Outcome.ok_bind, hr]
    exact iff_of_false (fun ht => ht.defined hp) (fun hw => hf hw.1)
  case pos =>
    have hw := last.written h hf
    simp only [WritesFit, hf, true_and]
    have hb : performBefore server rlocator ([] : List (ForkWrite key)) s = .ok s := rfl
    generalize hr : last.perform server rlocator s = r
    obtain ⟨r, s₂⟩ := r
    cases r
    case error e =>
      have hp : perform server rlocator { before := [], last, generates } s = .error e := by
        simp only [perform, hb, Outcome.ok_bind, hr]
      rw [hr] at hw
      refine iff_of_true ⟨fun he => ?_, ?_⟩ ?_
      · exact hw.defined (congrArg _ (Except.error.inj (hp.symm.trans he)))
      · intro s₁ _ _ h₁ h₂
        rw [hb, Except.ok.injEq] at h₁
        subst h₁
        rw [hr] at h₂
        cases h₂
      · intro ki cache' hk
        cases hw.isOk ki (congrArg Prod.fst hk)
    case ok _ =>
      have hp : perform server rlocator { before := [], last, generates } s =
          performGenerates server generates s₂ := by
        simp only [perform, hb, Outcome.ok_bind, hr]
      have hs := hr ▸ hw
      obtain ⟨ki, hki, -⟩ := hs.ok rfl
      have hk : keyringMasterKey server.config last.replies masterKeyName s.keyring =
          (.ok (some ki), s₂.keyring) := Prod.ext hki hs.keyring.symm
      have hg := @performGenerates_cases server s₂ generates hs.sound.count_le hs.sound.unique
      rw [hk]
      constructor
      case mp =>
        rintro ⟨hd, -⟩ _ _ ⟨⟩
        rw [hp] at hd
        exact (hg.resolve_right fun h => hd h.2).1
      case mpr =>
        intro hgf
        obtain ⟨-, keyring, hpg, hx⟩ := hg.resolve_right fun h => h.1 (hgf ki _ rfl)
        refine ⟨by rw [hp, hpg]; nofun, ?_⟩
        intro s₁ s₂' s₃ h₁ h₂ h₃
        rw [hb, Except.ok.injEq] at h₁
        subst h₁
        rw [hr, Prod.mk.injEq] at h₂
        obtain ⟨-, rfl⟩ := h₂
        rw [hpg, Except.ok.injEq] at h₃
        subst h₃
        exact reads_of_written hw hr hx rfl

theorem performBefore_cons_of_defined (hd : (w.perform server rlocator s).1 ≠ .error .undefined) :
    performBefore server rlocator (w :: rest) s =
    performBefore server rlocator rest (w.perform server rlocator s).2 := by
  rw [performBefore, List.foldlM_cons, KeySession.after_of_defined hd, Outcome.ok_bind, performBefore]

theorem roundTrips_cons_iff (hd : (w.perform server rlocator s).1 ≠ .error .undefined) :
    RoundTrips server rlocator { before := w :: rest, last, generates } s ↔
    RoundTrips server rlocator { before := rest, last, generates } (w.perform server rlocator s).2 := by
  have hb := @performBefore_cons_of_defined server rlocator key s w rest hd
  have hp : perform server rlocator { before := w :: rest, last, generates } s =
      perform server rlocator { before := rest, last, generates } (w.perform server rlocator s).2 := by
    simp only [perform, hb]
  constructor
  case mp =>
    rintro ⟨hd, hr⟩
    exact ⟨hp ▸ hd, fun s₁ s₂ s₃ h₁ => hr s₁ s₂ s₃ (hb.trans h₁)⟩
  case mpr =>
    rintro ⟨hd, hr⟩
    exact ⟨hp ▸ hd, fun s₁ s₂ s₃ h₁ => hr s₁ s₂ s₃ (hb.symm.trans h₁)⟩

theorem roundTrips_iff_writesFit {before : List (ForkWrite key)} (h : s.Sound server rlocator) :
    RoundTrips server rlocator { before, last, generates } s ↔
    WritesFit server.config last generates before s.keyring := by
  induction before generalizing s
  case nil            => exact roundTrips_nil_iff h
  case cons w rest hi =>
    simp only [WritesFit]
    by_cases hf : MasterKeyFits server.config w.replies masterKeyName s.keyring
    case neg =>
      have hp : perform server rlocator { before := w :: rest, last, generates } s =
          .error .undefined := by
        rw [perform, performBefore, List.foldlM_cons,
          KeySession.after_of_undefined (w.perform_undefined h hf)]
        rfl
      exact iff_of_false (fun ht => ht.defined hp) (fun hw => hf hw.1)
    case pos =>
      have hw := w.written h hf
      rw [roundTrips_cons_iff hw.defined, hi hw.sound, hw.keyring]
      simp only [hf, true_and]

-- A key file is read back as it has been written, whoever writes it and however often, and however many
-- master keys are generated later, iff no call overflows the keyring.
theorem roundTrips_iff (run : ForkRun key) (s : UniqueSession server rlocator) :
    run.RoundTrips server rlocator s.toKeySession ↔ run.Fits server.config s.keyring := by
  refine roundTrips_iff_writesFit ⟨s.count_le, ?_, s.fork⟩
  intro i hi j hj he
  rw [s.unique i hi j hj he]

end ForkRun

-- A keyring that is full of other keys.
def fullKeyring : KeyringCache where
  keys i   := { name := .ofStr [.ofNat (i / 32 + 1), .ofNat (i % 32 + 1)], data := ⟨fun _ => 0, 16⟩ }
  keyCount := maxCacheEntries

theorem fullKeyring_str {i : Nat} (hi : i < maxCacheEntries) :
    (fullKeyring.keys i).name.str = [.ofNat (i / 32 + 1), .ofNat (i % 32 + 1)] := by
  refine KeyName.str_ofStr (by simp) fun x hx => ?_
  simp only [maxCacheEntries] at hi
  simp only [List.mem_cons, List.not_mem_nil, or_false] at hx
  have hne {n : Nat} (h : n + 1 < 256) : UInt8.ofNat (n + 1) ≠ 0 := by
    intro he
    have he := congrArg UInt8.toNat he
    simp only [UInt8.toNat_ofNat', UInt8.toNat_zero] at he
    omega
  obtain rfl | rfl := hx
  · exact hne (by omega)
  · exact hne (by omega)

def fullSession : UniqueSession fileServer ⟨1663, 5, 16384⟩ where
  keyring       := fullKeyring
  files         := fun _ => none
  wal           := []
  deletes       := { pendingDeletes := [], unlinked := [] }
  tdeRelKeysMap := []
  count_le      := Nat.le_refl _
  unique        := by
    intro i hi j hj he
    rw [fullKeyring_str hi, fullKeyring_str hj, List.cons.injEq, List.cons.injEq] at he
    have h₁ := congrArg UInt8.toNat he.1
    have h₂ := congrArg UInt8.toNat he.2.1
    simp only [UInt8.toNat_ofNat', fullKeyring, maxCacheEntries] at h₁ h₂ hi hj
    omega
  fork          := nofun

-- A key file is created for a new relation.
def firstKeyRun : ForkRun { key := fun _ => 1, startLoc := 0, endLoc := 0, ctx := 0 } where
  before    := []
  last      :=
    { writer    := .createKeyFork "t" (fun _ => 1) rfl
      replies   := fileReplies
      nestLevel := 1 }
  generates := []

theorem masterKeyFits_fullKeyring :
    ¬MasterKeyFits fileServer.config firstKeyRun.last.replies masterKeyName fullKeyring := by
  have hn : ∀ i, ¬fullKeyring.Holds (keyringConstructKeyName fileServer.config masterKeyName 1) i := by
    rintro i ⟨hi, he⟩
    rw [fullKeyring_str hi, show keyringConstructKeyName fileServer.config masterKeyName 1 =
      .ofStr (toStr "master-key-1") from rfl, KeyName.str_ofStr (by simp [toStr]) (by simp [toStr])] at he
    have hl : 2 = (toStr "master-key-1").length := congrArg List.length he
    exact absurd hl (by decide)
  exact not_masterKeyFits_of_full rfl hn (by decide) rfl

-- The generated key does not fit into the keyring.
theorem not_roundTrips_fullKeyring :
    ¬firstKeyRun.RoundTrips fileServer ⟨1663, 5, 16384⟩ fullSession.toKeySession := by
  have hs : fullSession.toKeySession.Sound fileServer ⟨1663, 5, 16384⟩ := by
    refine ⟨fullSession.count_le, ?_, fullSession.fork⟩
    intro i hi j hj he
    rw [fullSession.unique i hi j hj he]
  intro h
  exact masterKeyFits_fullKeyring ((ForkRun.roundTrips_iff_writesFit hs).mp h).1
