import PgTde.Keys.Cache
import PgTde.Keys.Theorems.Decode

open KeyringCache

variable {server : KeyServer} {rel rlocator : RelFileLocator} {s : KeySession} {nestLevel : Nat}
variable {vault : KeyName → Except String KeyData} {keys : RelKeysData} {content : List UInt8}
variable {replies : KeyringReplies} {random : Option Block} {relname : String}

namespace KeySession

-- What a session shares with others, in good order.
structure Shared (keyring : KeyringCache) (files : String → Option (List UInt8)) : Prop where
  count_le : keyring.keyCount ≤ maxCacheEntries
  unique   : keyring.Unique
  forks    : ∀ path content, files path = some content → content.length = sizeOfRelKeysData 1

-- If the key file of a relation is read, then the lookup of its master key finds room for a key.
def ReadFits (server : KeyServer) (vault : KeyName → Except String KeyData) (rel : RelFileLocator)
    (s : KeySession) : Prop :=
  ∀ content, s.files (server.pgTdeGetKeyFilePath rel) = some content →
    let name := strncpy (RelKeysData.ofBytes content).masterKeyName
    LookupFits server.config (vault name) name s.keyring

-- What reading a key file does to a session, and what it yields.
structure Read (server : KeyServer) (rel : RelFileLocator) (s : KeySession)
    (r : Outcome RelKeysData × KeySession) : Prop where
  keyring : s.keyring.Extends r.2.keyring
  session : r.2 = { s with keyring := r.2.keyring }
  defined : r.1 ≠ .error .undefined
  decodes : ∀ keys, r.1 = .ok keys → ∃ content,
    s.files (server.pgTdeGetKeyFilePath rel) = some content ∧ server.Decodes r.2.keyring content keys

theorem Shared.read (h : Shared s.keyring s.files) (hf : s.ReadFits server vault rel) :
    s.Read server rel (server.pgTdeGetKeysFromFork vault rel s) := by
  have hself := h.unique.extends_self h.count_le
  simp only [KeyServer.pgTdeGetKeysFromFork]
  cases hp : s.files (server.pgTdeGetKeyFilePath rel)
  case none         => exact ⟨hself, rfl, by simp, by simp⟩
  case some content =>
    have hl := h.forks _ content hp
    have hcall := keyringGetKey_call h.count_le h.unique (hf content hp)
    simp only [if_neg (KeyServer.not_corrupted hl)]
    generalize hk : keyringGetKey server.config _ _ s.keyring = call at hcall
    obtain ⟨r, keyring⟩ := call
    cases r
    case error e => exact ⟨hcall.toExtends, rfl, fun he => hcall.defined (by cases he; rfl), by simp⟩
    case ok ki   =>
      cases ki
      case none    => exact ⟨hcall.toExtends, rfl, by simp [KeyServer.noMasterKey], by simp⟩
      case some ki =>
        have hlt := Nat.lt_of_lt_of_le (hcall.pointer ki rfl) hcall.count_le
        dsimp only
        rw [if_pos hlt]
        refine ⟨hcall.toExtends, rfl, by simp, ?_⟩
        rintro _ ⟨⟩
        exact ⟨content, hp, hl, ki, keyringGetKey_some h.count_le hk, rfl⟩

end KeySession

-- The entry of a backend's keys cache holds what the file that it goes back to decodes to.
def KeyBackend.Traced (server : KeyServer) (keyring : KeyringCache) (backend : KeyBackend) : Prop :=
  backend.tdeRelKeysMap = [] ∨ ∃ entry path content, backend.tdeRelKeysMap = [entry] ∧
    backend.origin = some (path, content) ∧ server.Decodes keyring content entry.keys

theorem KeyBackend.Traced.extends {backend : KeyBackend} {keyring keyring' : KeyringCache}
    (h : backend.Traced server keyring) (he : keyring.Extends keyring') :
    backend.Traced server keyring' := by
  obtain h | ⟨entry, path, content, hm, ho, hd⟩ := h
  · exact .inl h
  · exact .inr ⟨entry, path, content, hm, ho, hd.extends he⟩

namespace KeyCluster

variable {ι : Type} [DecidableEq ι] {c c' : KeyCluster ι} {b : ι} {a : KeyAction}

-- The entry that would be used for `rel` goes back to the key file of `rel`, whose content is still the
-- same.
def Fresh (server : KeyServer) (c : KeyCluster ι) (b : ι) (rel : RelFileLocator) : Prop :=
  ∀ entry ∈ (c.backends b).tdeRelKeysMap, entry.relId = rel.relNumber →
    ∃ content, c.files (server.pgTdeGetKeyFilePath rel) = some content ∧
      (c.backends b).origin = some (server.pgTdeGetKeyFilePath rel, content)

-- A backend asks for the keys of a relation only while its cache is fresh, and no call into the keyring
-- adds an entry to a full cache.
def Careful (server : KeyServer) (c : KeyCluster ι) (b : ι) : KeyAction → Prop
  | .createKeyFork replies _ _ _ => MasterKeyFits server.config replies masterKeyName c.keyring
  | .getRelationKeys vault rel   => c.Fresh server b rel ∧ (c.session b).ReadFits server vault rel
  | _                            => True

-- The invariant.
structure Consistent (server : KeyServer) (c : KeyCluster ι) : Prop where
  shared   : KeySession.Shared c.keyring c.files
  traced   : ∀ b, (c.backends b).Traced server c.keyring
  faithful : c.Faithful

theorem originOf_eq {session : KeySession}
    (h : session.files (server.pgTdeGetKeyFilePath rel) = some content) :
    originOf server session rel = some (server.pgTdeGetKeyFilePath rel, content) := by
  rw [originOf, h, Option.map_some]

theorem Consistent.resume {session : KeySession} {origin : Option (String × List UInt8)}
    (h : c.Consistent server) (hs : KeySession.Shared session.keyring session.files)
    (he : c.keyring.Extends session.keyring)
    (ht : KeyBackend.Traced server session.keyring
      { deletes := session.deletes, tdeRelKeysMap := session.tdeRelKeysMap, origin }) :
    (c.resume b session origin).Consistent server where
  shared   := hs
  traced   := by
    intro b'
    by_cases hb : b' = b
    case pos =>
      subst hb
      simpa only [KeyCluster.resume, Function.update_self] using ht
    case neg =>
      simpa only [KeyCluster.resume, Function.update_of_ne hb] using (h.traced b').extends he
  faithful := h.faithful

theorem Consistent.createKeyFork (h : c.Consistent server)
    (hf : MasterKeyFits server.config replies masterKeyName c.keyring)
    (hs : (c.createKeyFork server b nestLevel replies random rlocator relname).Yields c') :
    c'.Consistent server := by
  have ht := h.traced b
  simp only [KeyCluster.createKeyFork, KeyServer.pgTdeCreateKeyFork] at hs
  cases random
  case none =>
    simp only [Outcome.yields_ok] at hs
    subst hs
    exact h.resume h.shared (h.shared.unique.extends_self h.shared.count_le) ht
  case some key =>
    have hsound : (c.session b).Sound server rlocator :=
      ⟨h.shared.count_le, h.shared.unique, h.shared.forks _⟩
    have hw := @KeySession.Sound.writeKeyFork server rlocator
      { key, startLoc := 0, endLoc := 0, ctx := 0 }
      { c.session b with wal := c.wal ++ [rlocator.bytes ++
        InternalKey.bytes { key, startLoc := 0, endLoc := 0, ctx := 0 }] } replies nestLevel
      ⟨hsound.count_le, hsound.unique, hsound.fork⟩ hf
    have hc := keyringMasterKey_call h.shared.count_le h.shared.unique hf
    simp only [session] at hs hw
    generalize server.pgTdeWriteKeyFork replies nestLevel rlocator _ _ = call at hs hw
    obtain ⟨r, session⟩ := call
    have he : c.keyring.Extends session.keyring := hw.keyring ▸ hc.toExtends
    have hshared : KeySession.Shared session.keyring session.files := by
      refine ⟨hw.sound.count_le, hw.sound.unique, fun path content hp => ?_⟩
      by_cases hne : path = server.pgTdeGetKeyFilePath rlocator
      case pos => exact hw.sound.fork content (hne ▸ hp)
      case neg => exact h.shared.forks path content ((hw.other path hne).symm.trans hp)
    cases r
    case error e =>
      have hd : e ≠ .undefined := fun he => hw.defined (congrArg Except.error he)
      have hm : session.tdeRelKeysMap = (c.backends b).tdeRelKeysMap := hw.error (by simp)
      have hs : c' = c.resume b session (c.backends b).origin := by
        cases e <;> simp_all
      subst hs
      refine h.resume hshared he ?_
      simpa only [KeyBackend.Traced, hm] using ht.extends he
    case ok =>
      simp only [Outcome.yields_ok] at hs
      subst hs
      obtain ⟨ki, -, hlt, hfile, hm⟩ := hw.ok rfl
      rw [←hw.keyring] at hlt hfile hm
      exact h.resume hshared he (.inr ⟨_, _, _, hm, originOf_eq hfile,
        KeyServer.decodes_fork hshared.count_le hshared.unique hlt⟩)

theorem Consistent.getRelationKeys (h : c.Consistent server) (hfr : c.Fresh server b rel)
    (hf : (c.session b).ReadFits server vault rel)
    (hs : (c.getRelationKeys server b vault rel).Yields c') : c'.Consistent server := by
  have hr := KeySession.Shared.read (s := c.session b) h.shared hf
  have ht := h.traced b
  simp only [KeyCluster.getRelationKeys, KeyServer.getRelationKeys, session] at hs hr
  cases hfind : (c.backends b).tdeRelKeysMap.find? (·.relId = rel.relNumber)
  case some entry =>
    -- The entry is the one that the file decodes to.
    have hmem := List.mem_of_find?_eq_some hfind
    have hid : entry.relId = rel.relNumber := by simpa using List.find?_some hfind
    obtain ⟨content, hp, ho⟩ := hfr entry hmem hid
    obtain hm | ⟨entry', path, content', hm, ho', hd⟩ := ht
    · rw [hm] at hmem
      cases hmem
    · rw [ho, Option.some.injEq, Prod.mk.injEq] at ho'
      obtain ⟨rfl, rfl⟩ := ho'
      rw [hm, List.mem_singleton] at hmem
      subst hmem
      have hread := @KeyServer.Decodes.read server rel (c.session b) _ vault _ hp h.shared.count_le hd
      simp only [session] at hread
      simp only [hfind, hread, Option.isSome_some, if_true, Outcome.yields_ok] at hs
      subst hs
      have hres : (c.resume b (c.session b) (c.backends b).origin).Consistent server :=
        h.resume h.shared (h.shared.unique.extends_self h.shared.count_le) (h.traced b)
      exact ⟨hres.shared, hres.traced, List.forall_mem_cons.mpr ⟨rfl, h.faithful⟩⟩
  case none =>
    simp only [hfind, Option.isSome_none, Bool.false_eq_true, if_false] at hs
    generalize server.pgTdeGetKeysFromFork vault rel _ = call at hs hr
    obtain ⟨r, session⟩ := call
    have he : c.keyring.Extends session.keyring := hr.keyring
    have hfiles : session.files = c.files := congrArg KeySession.files hr.session
    have hmap : session.tdeRelKeysMap = (c.backends b).tdeRelKeysMap :=
      congrArg KeySession.tdeRelKeysMap hr.session
    have hshared : KeySession.Shared session.keyring session.files :=
      ⟨he.count_le, he.unique, hfiles ▸ h.shared.forks⟩
    cases r
    case error e =>
      have hd : e ≠ .undefined := fun he => hr.defined (congrArg Except.error he)
      have hs : c' = { c.resume b session (c.backends b).origin with
          answers := (.error e, .error e) :: c.answers } := by
        cases e <;> simp_all
      subst hs
      have hres : (c.resume b session (c.backends b).origin).Consistent server :=
        h.resume hshared he (by simpa only [KeyBackend.Traced, hmap] using ht.extends he)
      exact ⟨hres.shared, hres.traced, List.forall_mem_cons.mpr ⟨rfl, h.faithful⟩⟩
    case ok keys =>
      simp only [Outcome.yields_ok] at hs
      subst hs
      obtain ⟨content, hp, hd⟩ := hr.decodes keys rfl
      have hp' := hfiles ▸ hp
      have hres : (c.resume b (putKeysIntoMap rel.relNumber keys session)
          (originOf server (putKeysIntoMap rel.relNumber keys session) rel)).Consistent server :=
        h.resume hshared he (.inr ⟨⟨rel.relNumber, keys⟩, _, _, rfl, originOf_eq hp', hd⟩)
      exact ⟨hres.shared, hres.traced, List.forall_mem_cons.mpr ⟨rfl, h.faithful⟩⟩

theorem Consistent.unlink {deletes : Deletes String} (h : c.Consistent server) :
    (c.resume b ((c.session b).unlink deletes) (c.backends b).origin).Consistent server := by
  refine h.resume ⟨h.shared.count_le, h.shared.unique, fun path content hp => ?_⟩
    (h.shared.unique.extends_self h.shared.count_le) (h.traced b)
  exact h.shared.forks path content (Option.ite_none_left_eq_some.mp hp).2

theorem Consistent.step (h : c.Consistent server) (hc : c.Careful server b a)
    (hs : (c.step server b nestLevel a).Yields c') : c'.Consistent server := by
  have hself := h.shared.unique.extends_self h.shared.count_le
  cases a
  case createKeyFork replies random newrlocator relname => exact h.createKeyFork hc hs
  case getRelationKeys vault rel                        => exact h.getRelationKeys hc.1 hc.2 hs
  all_goals
    simp only [KeyCluster.step, Outcome.yields_ok] at hs
    subst hs
  case deleteKeyFork rlocator => exact h.resume h.shared hself (h.traced b)
  case xactCallback event     => exact h.unlink
  case subxactCallback event  => exact h.unlink
  case exit                   => exact h.resume h.shared hself (.inl rfl)

theorem consistent_invariant (server : KeyServer) (ι : Type) [DecidableEq ι] :
    ((keySystem server ι).restrict fun c a => c.Careful server a.1 a.2.2).Invariant
      (Consistent server) where
  initial := by
    rintro c ⟨hc, hu, hf, hb, ha⟩
    refine ⟨⟨hc, fun i hi j hj he => by rw [hu i hi j hj he], hf⟩, fun b => .inl (hb b).1, ?_⟩
    intro answer hm
    rw [ha] at hm
    cases hm
  step    := by
    rintro c a c' h ⟨hc, hs⟩
    exact h.step hc hs

-- In every run in which the backends only ask for keys while their caches are fresh, the keys cache is
-- faithful to the key files.
theorem faithful_of_careful (server : KeyServer) (ι : Type) [DecidableEq ι] (c : KeyCluster ι)
    (h : ((keySystem server ι).restrict fun c a => c.Careful server a.1 a.2.2).Reachable c) :
    c.Faithful :=
  ((consistent_invariant server ι).reachable h).faithful

end KeyCluster

-- A server without keys.
def newCluster : KeyCluster Unit where
  keyring  := { keys := fun _ => ⟨⟨fun _ => 0⟩, ⟨fun _ => 0, 0⟩⟩, keyCount := 0 }
  files    := fun _ => none
  wal      := []
  backends := fun _ => ⟨{ pendingDeletes := [], unlinked := [] }, [], none⟩
  answers  := []

theorem newCluster_initial : (keySystem fileServer Unit).Initial newCluster := by
  refine ⟨by decide, ?_, nofun, fun _ => ⟨rfl, rfl⟩, rfl⟩
  intro i hi
  exact absurd hi (Nat.not_lt_zero i)

-- Two relations of a database may have the same number in different tablespaces.
def defaultRel : RelFileLocator := ⟨1663, 5, 16384⟩
def otherRel : RelFileLocator := ⟨16500, 5, 16384⟩

def createRel (rlocator : RelFileLocator) (x : UInt8) : Unit × Nat × KeyAction :=
  ((), 1, .createKeyFork fileReplies (some fun _ => x) rlocator "t")

def getRel (rlocator : RelFileLocator) : Unit × Nat × KeyAction :=
  ((), 1, .getRelationKeys fileReplies.vault rlocator)

def firstKeyByte : Outcome RelKeysData → Option UInt8
  | .ok keys => keys.internalKey.head?.map (·.key 0)
  | .error _ => none

-- A backend creates a relation and asks for its keys.
theorem faithful_createdRel : ∃ c,
    [createRel defaultRel 1, getRel defaultRel].foldlM
      (fun c a => c.step fileServer a.1 a.2.1 a.2.2) newCluster = .ok c ∧
    c.answers.length = 1 ∧ c.Faithful := by
  refine ⟨_, rfl, rfl, KeyCluster.faithful_of_careful fileServer Unit _ ?_⟩
  refine .step (a := getRel defaultRel) (.step (a := createRel defaultRel 1)
    (.initial newCluster_initial) ⟨?_, .inl rfl⟩) ⟨⟨?_, ?_⟩, .inl rfl⟩
  · exact masterKeyFits_of_room (by decide) (fun i hi => absurd hi.1 (Nat.not_lt_zero i)) (by decide)
  · intro _ _ _
    exact ⟨_, rfl, rfl⟩
  · intro _ _ _ hp
    exact absurd hp (by decide)

theorem not_faithful_sameNumber :
    ¬∀ c, (keySystem fileServer Unit).Reachable c → c.Faithful := by
  intro h
  obtain ⟨c, hr, ha⟩ : ∃ c : KeyCluster Unit,
      [createRel defaultRel 1, createRel otherRel 2, getRel defaultRel].foldlM
        (fun c a => c.step fileServer a.1 a.2.1 a.2.2) newCluster = .ok c ∧
      c.answers.map (fun a => (firstKeyByte a.1, firstKeyByte a.2)) = [(some 2, some 1)] := by
    refine ⟨_, rfl, ?_⟩
    decide +kernel
  have hc := (System.Reachable.initial newCluster_initial).foldlM (fun _ _ _ h => Or.inl h) hr
  have hf := h c hc
  obtain ⟨a, ha, he⟩ := List.map_eq_singleton_iff.mp ha
  have he := hf a (ha ▸ List.mem_singleton_self a) ▸ he
  rw [Prod.mk.injEq] at he
  exact absurd (he.1.symm.trans he.2) (by decide)
