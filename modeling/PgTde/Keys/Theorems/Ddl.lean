import PgTde.Keys.Ddl
import PgTde.Keys.Theorems.Decode
import PgTde.Transaction.Theorems.Run

open KeyringCache

section

variable {server : KeyServer} {s s' : KeySession} {replies : KeyringReplies} {random : Option Block}
variable {nestLevel : Nat} {rlocator : RelFileLocator} {relname : String}

-- What it takes and does to create a key file.
structure KeySession.Forked (server : KeyServer) (nestLevel : Nat) (rlocator : RelFileLocator)
    (s s' : KeySession) : Prop where
  count_le : s'.keyring.keyCount ≤ maxCacheEntries
  unique   : s'.keyring.Unique
  files    : ∃ content, s'.files =
    Function.update s.files (server.pgTdeGetKeyFilePath rlocator) (some content)
  deletes  : s'.deletes =
    s.deletes.registerFileForDeletion (server.pgTdeGetKeyFilePath rlocator) false nestLevel

theorem KeyServer.createKeyFork_forked (hc : s.keyring.keyCount ≤ maxCacheEntries)
    (hu : s.keyring.Unique) (hf : MasterKeyFits server.config replies masterKeyName s.keyring) :
    (server.pgTdeCreateKeyFork replies random nestLevel rlocator relname s).1 ≠ .error .undefined ∧
    ((server.pgTdeCreateKeyFork replies random nestLevel rlocator relname s).1 = .ok () →
      s.Forked server nestLevel rlocator
        (server.pgTdeCreateKeyFork replies random nestLevel rlocator relname s).2) := by
  have hcall := keyringMasterKey_call hc hu hf
  cases random
  case none     => simp [pgTdeCreateKeyFork]
  case some key =>
    simp only [pgTdeCreateKeyFork, pgTdeWriteKeyFork]
    generalize keyringMasterKey server.config replies masterKeyName s.keyring = call at hcall
    obtain ⟨r, keyring⟩ := call
    cases r
    case error e => exact ⟨fun he => hcall.defined (by cases he; rfl), by simp⟩
    case ok ki   =>
      cases ki
      case none    => simp [noMasterKey]
      case some ki =>
        dsimp only
        rw [if_pos (Nat.lt_of_lt_of_le (hcall.pointer ki rfl) hcall.count_le)]
        exact ⟨by simp, fun _ => ⟨hcall.count_le, hcall.unique, ⟨_, rfl⟩, rfl⟩⟩

theorem KeyServer.keyFilePath_eq_iff {rlocator rlocator' : RelFileLocator} :
    server.pgTdeGetKeyFilePath rlocator = server.pgTdeGetKeyFilePath rlocator' ↔
    server.relpathperm rlocator = server.relpathperm rlocator' := by
  rw [pgTdeGetKeyFilePath, pgTdeGetKeyFilePath, String.append_left_inj]

end

namespace PgClass

-- The relation has a key file at the path.
def HasKeyFile (server : KeyServer) (rel : PgClass) (path : String) : Prop :=
  rel.isPgTdeRel ∧ rel.relkind.hasKeyFork ∧ server.pgTdeGetKeyFilePath rel.rdLocator = path

end PgClass

theorem ClassKind.hasStorage_of_hasKeyFork {relkind : ClassKind} (h : relkind.hasKeyFork) :
    relkind.hasStorage := by
  cases relkind <;> revert h <;> decide

namespace Database

variable {ι : Type} {server : KeyServer} {s s' : Database ι} {b : ι} {a : DdlAction}
variable {path : String} {replies : KeyringReplies} {random : Option Block} {relname : String}
variable {relid r1 r2 : UInt32} {rel rel1 rel2 : PgClass} {rlocator : RelFileLocator}

-- Key files belong to relations of the catalog, or to the backends that are about to delete them.
def Holds (server : KeyServer) (s : Database ι) : UInt32 ⊕ ι → String → Prop
  | .inl relid, path => ∃ rel, s.pgClass relid = some rel ∧ rel.HasKeyFile server path
  | .inr b, path     => ∃ rel ∈ s.dropped b, rel.HasKeyFile server path

-- The backend is about to delete the key file.
def Awaits (s : Database ι) (b : ι) (path : String) : Prop :=
  ∃ e ∈ (s.backends b).deletes.pendingDeletes, e.atCommit ∧ e.path = path

-- The key files that exist are those that belong to something, and to one thing only. The pending deletes
-- of a backend are the key files that belong to it.
structure Consistent (server : KeyServer) (s : Database ι) : Prop where
  count_le : s.keyring.keyCount ≤ maxCacheEntries
  unique   : s.keyring.Unique
  files    : ∀ path, (s.files path).isSome ↔ ∃ h, s.Holds server h path
  apart    : ∀ h h' path, s.Holds server h path → s.Holds server h' path → h = h'
  pending  : ∀ b path, s.Awaits b path ↔ s.Holds server (.inr b) path
  level    : ∀ b, ∀ e ∈ (s.backends b).deletes.pendingDeletes, 1 ≤ e.nestLevel

theorem live_iff_holds : (∃ rel, s.Live rel ∧ rel.HasKeyFile server path) ↔
    ∃ h, s.Holds server h path := by
  constructor
  case mp =>
    rintro ⟨rel, ⟨relid, hr⟩ | ⟨b, hr⟩, hk⟩
    · exact ⟨.inl relid, rel, hr, hk⟩
    · exact ⟨.inr b, rel, hr, hk⟩
  case mpr =>
    rintro ⟨relid | b, rel, hr, hk⟩
    · exact ⟨rel, .inl ⟨relid, hr⟩, hk⟩
    · exact ⟨rel, .inr ⟨b, hr⟩, hk⟩

theorem Consistent.aligned (h : s.Consistent server) : s.Aligned server := by
  intro rlocator
  rw [h.files, ←live_iff_holds]
  simp only [PgClass.HasKeyFile, KeyServer.keyFilePath_eq_iff]

theorem Unused.not_holds (h : s.Unused server rlocator) (o : UInt32 ⊕ ι) :
    ¬s.Holds server o (server.pgTdeGetKeyFilePath rlocator) := by
  intro ho
  obtain ⟨rel, hl, -, hk, hp⟩ := live_iff_holds.mpr ⟨o, ho⟩
  exact h rel hl (ClassKind.hasStorage_of_hasKeyFork hk) (KeyServer.keyFilePath_eq_iff.mp hp)

-- A step that hands key files over keeps them as they are.
theorem Consistent.handOver (h : s.Consistent server) (hk : s'.keyring = s.keyring)
    (hf : s'.files = s.files) (heir : UInt32 ⊕ ι → UInt32 ⊕ ι)
    (hh : ∀ o path, s'.Holds server o path ↔ ∃ o', heir o' = o ∧ s.Holds server o' path)
    (hp : ∀ b path, s'.Awaits b path ↔ s'.Holds server (.inr b) path)
    (hl : ∀ b, ∀ e ∈ (s'.backends b).deletes.pendingDeletes, 1 ≤ e.nestLevel) :
    s'.Consistent server where
  count_le := hk ▸ h.count_le
  unique   := hk ▸ h.unique
  files    := by
    intro path
    rw [hf, h.files]
    constructor
    case mp  =>
      rintro ⟨o, ho⟩
      exact ⟨heir o, (hh _ path).mpr ⟨o, rfl, ho⟩⟩
    case mpr =>
      rintro ⟨o, ho⟩
      obtain ⟨o', -, ho⟩ := (hh o path).mp ho
      exact ⟨o', ho⟩
  apart    := by
    intro o₁ o₂ path h₁ h₂
    obtain ⟨_, rfl, ho₁⟩ := (hh o₁ path).mp h₁
    obtain ⟨_, rfl, ho₂⟩ := (hh o₂ path).mp h₂
    rw [h.apart _ _ path ho₁ ho₂]
  pending  := hp
  level    := hl

section

variable [DecidableEq ι]

-- The state after a call that registers a pending delete.
def registered (s : Database ι) (b : ι) (session : KeySession) (origin : Option (String × List UInt8)) :
    Database ι :=
  { s with toKeyCluster := s.resume b session origin }

theorem awaits_registered {session : KeySession} {origin : Option (String × List UInt8)} {atCommit : Bool}
    {keyFilePath : String} {b' : ι}
    (hd : session.deletes = (s.backends b).deletes.registerFileForDeletion keyFilePath atCommit 1) :
    (s.registered b session origin).Awaits b' path ↔
    b' = b ∧ atCommit ∧ keyFilePath = path ∨ s.Awaits b' path := by
  by_cases hb : b' = b
  case pos => simp [Awaits, registered, KeyCluster.resume, hb, hd, Deletes.registerFileForDeletion]
  case neg => simp [Awaits, registered, KeyCluster.resume, hb]

theorem level_registered {session : KeySession} {origin : Option (String × List UInt8)} {atCommit : Bool}
    {keyFilePath : String}
    (hd : session.deletes = (s.backends b).deletes.registerFileForDeletion keyFilePath atCommit 1)
    (hl : ∀ b, ∀ e ∈ (s.backends b).deletes.pendingDeletes, 1 ≤ e.nestLevel) :
    ∀ b', ∀ e ∈ ((s.registered b session origin).backends b').deletes.pendingDeletes, 1 ≤ e.nestLevel := by
  intro b' e he
  by_cases hb : b' = b
  case pos =>
    simp only [registered, KeyCluster.resume, hb, Function.update_self, hd,
      Deletes.registerFileForDeletion, List.mem_cons] at he
    cases he
    case inl he => rw [he]
    case inr he => exact hl b e he
  case neg =>
    simp only [registered, KeyCluster.resume, Function.update_of_ne hb] at he
    exact hl b' e he

theorem holds_swap (h1 : s.pgClass r1 = some rel1) (h2 : s.pgClass r2 = some rel2) (hne : r1 ≠ r2)
    (hk : rel1.relkind.hasKeyFork = rel2.relkind.hasKeyFork) (o : UInt32 ⊕ ι) :
    ((s.updateClass r1 (some { rel2 with relkind := rel1.relkind })).updateClass r2
      (some { rel1 with relkind := rel2.relkind })).Holds server o path ↔
    ∃ o', Equiv.swap (.inl r1) (.inl r2) o' = o ∧ s.Holds server o' path := by
  have hs : (∃ o', Equiv.swap (.inl r1) (.inl r2) o' = o ∧ s.Holds server o' path) ↔
      s.Holds server (Equiv.swap (.inl r1) (.inl r2) o) path := by
    constructor
    case mp  =>
      rintro ⟨o', rfl, ho⟩
      rwa [Equiv.swap_apply_self]
    case mpr => exact fun ho => ⟨_, Equiv.swap_apply_self .., ho⟩
  rw [hs]
  cases o
  case inr b     => rw [Equiv.swap_apply_of_ne_of_ne (by simp) (by simp)]; rfl
  case inl relid =>
    by_cases he1 : relid = r1
    case pos =>
      subst he1
      simp [Holds, updateClass, Function.update_of_ne hne, h2, PgClass.HasKeyFile, hk]
    case neg =>
      by_cases he2 : relid = r2
      case pos =>
        subst he2
        simp [Holds, updateClass, h1, PgClass.HasKeyFile, hk]
      case neg =>
        rw [Equiv.swap_apply_of_ne_of_ne (by simpa using he1) (by simpa using he2)]
        simp [Holds, updateClass, Function.update_of_ne he1, Function.update_of_ne he2]

theorem Consistent.swap (h : s.Consistent server) (ha : s.Allows server (.swapRelationFiles r1 r2))
    (hs : (s.step server b (.swapRelationFiles r1 r2)).Yields s') : s'.Consistent server := by
  obtain ⟨hne, hk⟩ := ha
  simp only [step] at hs
  cases h1 : s.pgClass r1
  case none => simp [h1, Outcome.Yields, couldNotOpenRelation] at hs
  case some rel1 =>
    cases h2 : s.pgClass r2
    case none => simp [h1, h2, Outcome.Yields, couldNotOpenRelation] at hs
    case some rel2 =>
      simp only [h1, h2, Outcome.yields_ok] at hs
      subst hs
      exact h.handOver rfl rfl _ (fun o path => holds_swap h1 h2 hne (hk _ _ h1 h2) o) h.pending h.level

-- The storage of a relation is dropped along with the relation.
theorem holds_drop (hr : s.pgClass relid = some rel) (o : UInt32 ⊕ ι) :
    ((s.relationDropStorage b rel).updateClass relid none).Holds server o path ↔
    ∃ o', Function.update id (.inl relid) (.inr b) o' = o ∧ s.Holds server o' path := by
  constructor
  case mp =>
    rintro ho
    cases o
    case inl relid' =>
      obtain ⟨rel', hr', hk⟩ := ho
      have hne : relid' ≠ relid := by
        rintro rfl
        simp [updateClass] at hr'
      simp only [updateClass, Function.update_of_ne hne] at hr'
      exact ⟨.inl relid', Function.update_of_ne (by simpa using hne) .., rel', hr', hk⟩
    case inr b' =>
      obtain ⟨rel', hr', hk⟩ := ho
      by_cases hb : b' = b
      case pos =>
        subst hb
        simp only [updateClass, relationDropStorage, Function.update_self, List.mem_cons] at hr'
        cases hr'
        case inl he => exact ⟨.inl relid, Function.update_self .., rel, hr, he ▸ hk⟩
        case inr he => exact ⟨.inr b', Function.update_of_ne (by simp) .., rel', he, hk⟩
      case neg =>
        simp only [updateClass, relationDropStorage, Function.update_of_ne hb] at hr'
        exact ⟨.inr b', Function.update_of_ne (by simp) .., rel', hr', hk⟩
  case mpr =>
    rintro ⟨o', rfl, ho⟩
    cases o'
    case inl relid' =>
      obtain ⟨rel', hr', hk⟩ := ho
      by_cases hne : relid' = relid
      case pos =>
        subst hne
        rw [Function.update_self]
        rw [hr, Option.some.injEq] at hr'
        exact ⟨rel', by simp [updateClass, relationDropStorage, hr'], hk⟩
      case neg =>
        rw [Function.update_of_ne (by simpa using hne)]
        exact ⟨rel', by simpa [updateClass, relationDropStorage, Function.update_of_ne hne] using hr', hk⟩
    case inr b' =>
      obtain ⟨rel', hr', hk⟩ := ho
      rw [Function.update_of_ne (by simp)]
      refine ⟨rel', ?_, hk⟩
      by_cases hb : b' = b
      case pos => simp [updateClass, relationDropStorage, hb, hb ▸ hr']
      case neg => simpa [updateClass, relationDropStorage, hb] using hr'

theorem holds_drop_backend (relid : UInt32) :
    ((s.relationDropStorage b rel).updateClass relid none).Holds server (.inr b) path ↔
    rel.HasKeyFile server path ∨ s.Holds server (.inr b) path := by
  simp [Holds, updateClass, relationDropStorage]

theorem holds_drop_other {b' : ι} (relid : UInt32) (hb : b' ≠ b) :
    ((s.relationDropStorage b rel).updateClass relid none).Holds server (.inr b') path ↔
    s.Holds server (.inr b') path := by
  simp [Holds, updateClass, relationDropStorage, hb]

-- The hook registers the key file of a relation that is dropped.
theorem Consistent.drop (h : s.Consistent server) (hr : s.pgClass relid = some rel)
    (hs : s.pgTdeObjectAccessHook server b .drop relationRelationId relid 0 = .ok s') :
    ((s'.relationDropStorage b rel).updateClass relid none).Consistent server := by
  simp only [pgTdeObjectAccessHook, and_self, if_true, hr, true_and] at hs
  split at hs <;> cases hs
  case isTrue hk  =>
    refine h.handOver rfl rfl _ (fun o path => holds_drop hr o) (fun b' path => ?_)
      (level_registered rfl h.level)
    apply Iff.trans (awaits_registered rfl)
    rw [h.pending]
    by_cases hb : b' = b
    case pos =>
      subst hb
      apply Iff.trans ?_ (holds_drop_backend relid).symm
      simp [PgClass.HasKeyFile, hk, Holds]
    case neg =>
      apply Iff.trans ?_ (holds_drop_other relid hb).symm
      simp [hb, Holds]
  case isFalse hk =>
    have hn (path) : ¬rel.HasKeyFile server path := fun hp => hk ⟨hp.2.1, hp.1⟩
    refine h.handOver rfl rfl _ (fun o path => holds_drop hr o) (fun b' path => ?_) h.level
    by_cases hb : b' = b
    case pos =>
      subst hb
      rw [holds_drop_backend, ←h.pending]
      simp only [hn, false_or]
      rfl
    case neg =>
      rw [holds_drop_other relid hb, ←h.pending]
      rfl

-- A relation without a key file may get new storage.
theorem Consistent.setNewRelfilenumber (h : s.Consistent server) (hr : s.pgClass relid = some rel)
    (hk : ¬(rel.isPgTdeRel ∧ rel.relkind.hasKeyFork))
    (hs : (s.step server b (.setNewRelfilenumber relid rlocator replies random relname)).Yields s') :
    s'.Consistent server := by
  have hn (rlocator path) : ¬{ rel with rdLocator := rlocator }.HasKeyFile server path := fun hp => hk ⟨hp.1, hp.2.1⟩
  have ht : tableRelationSetNewFilelocator server (s.relationDropStorage b rel) b rel rlocator replies random relname =
      .ok (s.relationDropStorage b rel) := by
    simp only [tableRelationSetNewFilelocator, pgTdeamRelationSetNewFilelocator]
    split
    · rw [if_neg fun he => hk ⟨‹_›, he⟩]
    · rfl
  simp only [step, hr, ht, Outcome.ok_bind, Outcome.pure_eq, Outcome.yields_ok] at hs
  subst hs
  have hh (o path) : ((s.relationDropStorage b rel).updateClass relid
      (some { rel with rdLocator := rlocator })).Holds server o path ↔ s.Holds server o path := by
    cases o
    case inl relid' =>
      by_cases hne : relid' = relid
      case pos => simp [Holds, updateClass, hne, hr, hn rlocator, hn rel.rdLocator]
      case neg => simp [Holds, updateClass, relationDropStorage, hne]
    case inr b' =>
      by_cases hb : b' = b
      case pos => simp [Holds, updateClass, relationDropStorage, hb, hn rel.rdLocator]
      case neg => simp [Holds, updateClass, relationDropStorage, hb]
  exact h.handOver rfl rfl id (by simp [hh]) (fun b' path => by rw [hh, ←h.pending]; rfl) h.level

omit [DecidableEq ι] in
theorem holds_create (hnone : s.pgClass relid = none) (hk : rel.isPgTdeRel ∧ rel.relkind.hasKeyFork)
    (o : UInt32 ⊕ ι) : (s.updateClass relid (some rel)).Holds server o path ↔
    o = .inl relid ∧ server.pgTdeGetKeyFilePath rel.rdLocator = path ∨ s.Holds server o path := by
  cases o
  case inr b'     => simp [Holds, updateClass]
  case inl relid' =>
    by_cases hne : relid' = relid
    case pos => simp [Holds, updateClass, hne, hnone, PgClass.HasKeyFile, hk]
    case neg => simp [Holds, updateClass, hne]

theorem Consistent.created {session : KeySession} {origin : Option (String × List UInt8)}
    (h : s.Consistent server) (hk : rel.isPgTdeRel ∧ rel.relkind.hasKeyFork)
    (hnone : s.pgClass relid = none) (hu : s.Unused server rel.rdLocator)
    (hs : (s.session b).Forked server 1 rel.rdLocator session) :
    ((s.registered b session origin).updateClass relid (some rel)).Consistent server := by
  obtain ⟨hc, hun, ⟨content, hfiles⟩, hdel⟩ := hs
  have hh (o path) : ((s.registered b session origin).updateClass relid (some rel)).Holds server o path ↔
      o = .inl relid ∧ server.pgTdeGetKeyFilePath rel.rdLocator = path ∨ s.Holds server o path :=
    holds_create hnone hk o
  have hfree := hu.not_holds
  constructor
  case count_le => exact hc
  case unique   => exact hun
  case files    =>
    intro path
    have hf : (session.files path).isSome ↔
        server.pgTdeGetKeyFilePath rel.rdLocator = path ∨ (s.files path).isSome := by
      rw [hfiles]
      by_cases hp : path = server.pgTdeGetKeyFilePath rel.rdLocator
      case pos => simp [hp]
      case neg => simp [hp, Ne.symm hp, KeyCluster.session]
    simp only [hh, exists_or, exists_and_right, exists_eq, true_and, ←h.files]
    exact hf
  case apart    =>
    intro o₁ o₂ path h₁ h₂
    rw [hh] at h₁ h₂
    obtain ⟨rfl, rfl⟩ | h₁ := h₁
    · exact (h₂.resolve_right (hfree o₂)).1.symm
    · obtain ⟨rfl, rfl⟩ | h₂ := h₂
      · exact absurd h₁ (hfree o₁)
      · exact h.apart o₁ o₂ path h₁ h₂
  case pending  =>
    intro b' path
    rw [hh]
    apply Iff.trans (awaits_registered hdel)
    simp [h.pending]
  case level    => exact level_registered hdel h.level

-- A key file is created for a new relation whose storage has not been in use.
theorem Consistent.createRelation (h : s.Consistent server)
    (ha : s.Allows server (.createRelation relid rel replies random relname))
    (hf : rel.isPgTdeRel → rel.relkind.hasKeyFork →
      MasterKeyFits server.config replies masterKeyName s.keyring)
    (hs : (s.step server b (.createRelation relid rel replies random relname)).Yields s') :
    s'.Consistent server := by
  obtain ⟨hnone, hu⟩ := ha
  by_cases hk : rel.isPgTdeRel ∧ rel.relkind.hasKeyFork
  case neg =>
    have ht : s.tableRelationSetNewFilelocator server b rel rel.rdLocator replies random relname = .ok s := by
      simp only [tableRelationSetNewFilelocator, pgTdeamRelationSetNewFilelocator]
      split
      · rw [if_neg fun he => hk ⟨‹_›, he⟩]
      · rfl
    simp only [step, ht, Outcome.ok_bind, Outcome.pure_eq, Outcome.yields_ok] at hs
    subst hs
    have hn (path) : ¬rel.HasKeyFile server path := fun hp => hk ⟨hp.1, hp.2.1⟩
    have hh (o path) : (s.updateClass relid (some rel)).Holds server o path ↔ s.Holds server o path := by
      cases o
      case inr b'     => rfl
      case inl relid' =>
        by_cases hne : relid' = relid
        case pos => simp [Holds, updateClass, hne, hnone, hn]
        case neg => simp [Holds, updateClass, hne]
    exact h.handOver rfl rfl id (by simp [hh]) (fun b' path => by rw [hh, ←h.pending]; rfl) h.level
  case pos =>
    obtain ⟨hd, hok⟩ := @KeyServer.createKeyFork_forked server (s.session b) replies random 1 rel.rdLocator
      relname h.count_le h.unique (hf hk.1 hk.2)
    simp only [step, tableRelationSetNewFilelocator, pgTdeamRelationSetNewFilelocator, hk, if_true,
      createKeyFork] at hs
    generalize server.pgTdeCreateKeyFork replies random 1 rel.rdLocator relname (s.session b) = call at hd hok hs
    obtain ⟨r, session⟩ := call
    cases r
    case error e =>
      have hd : e ≠ .undefined := fun he => hd (congrArg Except.error he)
      simp [Outcome.Yields, hd] at hs
    case ok =>
      simp only [Outcome.ok_bind, Outcome.pure_eq, Outcome.yields_ok] at hs
      subst hs
      exact h.created hk hnone (hu (ClassKind.hasStorage_of_hasKeyFork hk.2)) (hok rfl)

omit [DecidableEq ι] in
-- The commit of a transaction unlinks the key files that belong to its backend.
theorem commit_files (hl : ∀ e ∈ (s.backends b).deletes.pendingDeletes, 1 ≤ e.nestLevel) :
    (((s.session b).xactCallback .commit 1).files path).isSome ↔
    ¬s.Awaits b path ∧ (s.files path).isSome := by
  have hu : path ∈ ((((s.session b).deletes.pgTdeXactCallback .commit 1).unlinked.drop
      (s.session b).deletes.unlinked.length).map (·.path)) ↔ s.Awaits b path := by
    simp only [Deletes.pgTdeXactCallback, Deletes.pendingDeleteCleanup, Deletes.doPendingDeletes_eq,
      KeyCluster.session, reduceCtorEq, or_self, if_false, if_true, List.drop_left, List.mem_map,
      List.mem_filter, Awaits]
    constructor
    case mp  =>
      rintro ⟨e, ⟨he, hc⟩, hp⟩
      exact ⟨e, he, (of_decide_eq_true hc).2, hp⟩
    case mpr =>
      rintro ⟨e, he, hc, hp⟩
      exact ⟨e, ⟨he, decide_eq_true ⟨Nat.not_lt.mpr (hl e he), hc⟩⟩, hp⟩
  simp only [KeySession.xactCallback, KeySession.unlink]
  by_cases ha : s.Awaits b path
  case pos => simp only [if_pos (hu.mpr ha), ha, not_true, false_and, Option.isSome_none, Bool.false_eq_true]
  case neg =>
    simp only [if_neg (hu.not.mpr ha), ha, not_false_eq_true, true_and]
    rfl

theorem holds_commit {session : KeySession} {origin : Option (String × List UInt8)} (o : UInt32 ⊕ ι) :
    Holds server
      { s with toKeyCluster := s.resume b session origin, dropped := Function.update s.dropped b [] } o path ↔
    o ≠ .inr b ∧ s.Holds server o path := by
  cases o
  case inl relid => simp [Holds]
  case inr b'    =>
    by_cases hb : b' = b
    case pos => simp [Holds, hb]
    case neg => simp [Holds, hb]

theorem Consistent.commit (h : s.Consistent server) (hs : (s.step server b .commit).Yields s') :
    s'.Consistent server := by
  simp only [Database.step, Outcome.yields_ok] at hs
  subst hs
  have hnone : ((s.session b).xactCallback .commit 1).deletes.pendingDeletes = [] := rfl
  constructor
  case count_le => exact h.count_le
  case unique   => exact h.unique
  case files    =>
    intro path
    simp only [holds_commit]
    apply Iff.trans (commit_files (h.level b))
    rw [h.pending, h.files]
    constructor
    case mp  =>
      rintro ⟨hn, o, ho⟩
      refine ⟨o, ?_, ho⟩
      rintro rfl
      exact hn ho
    case mpr =>
      rintro ⟨o, hne, ho⟩
      exact ⟨fun hb => hne (h.apart _ _ path ho hb), o, ho⟩
  case apart    =>
    intro o₁ o₂ path h₁ h₂
    exact h.apart o₁ o₂ path (holds_commit o₁ |>.mp h₁).2 (holds_commit o₂ |>.mp h₂).2
  case pending  =>
    intro b' path
    rw [holds_commit]
    by_cases hb : b' = b
    case pos => simp [Awaits, KeyCluster.resume, hb, hnone]
    case neg => simpa [Awaits, KeyCluster.resume, hb] using h.pending b' path
  case level    =>
    intro b' e he
    by_cases hb : b' = b
    case pos => simp [KeyCluster.resume, hb, hnone] at he
    case neg => exact h.level b' e (by simpa [KeyCluster.resume, hb] using he)

theorem Consistent.objectAccess {access : ObjectAccessType} {classId objectId : UInt32} {subId : Int}
    (h : s.Consistent server)
    (hs : (s.step server b (.objectAccess access classId objectId subId)).Yields s') :
    s'.Consistent server := by
  by_cases hd : access = .drop ∧ classId = relationRelationId
  case neg =>
    have hn : ¬(access = .drop ∧ classId = relationRelationId ∧ subId = 0) := fun hn => hd ⟨hn.1, hn.2.1⟩
    simp only [Database.step, pgTdeObjectAccessHook, if_neg hd, Outcome.ok_bind, if_neg hn] at hs
    cases hr : s.pgClass objectId <;>
      simp only [hr, Outcome.pure_eq, Outcome.yields_ok] at hs <;> exact hs ▸ h
  case pos =>
    obtain ⟨rfl, rfl⟩ := hd
    cases hr : s.pgClass objectId
    case none     =>
      simp [Database.step, pgTdeObjectAccessHook, hr, Outcome.Yields, couldNotOpenRelation] at hs
    case some rel =>
      by_cases hsub : subId = 0
      case pos =>
        subst hsub
        cases ho : s.pgTdeObjectAccessHook server b .drop relationRelationId objectId 0
        case error e =>
          simp only [pgTdeObjectAccessHook, and_self, if_true, hr] at ho
          split at ho <;> cases ho
        case ok s₁   =>
          simp only [Database.step, ho, hr, Outcome.ok_bind, and_self, if_true, Outcome.pure_eq,
            Outcome.yields_ok] at hs
          exact hs ▸ h.drop hr ho
      case neg =>
        simp [Database.step, pgTdeObjectAccessHook, hr, hsub] at hs
        exact hs ▸ h

-- No relation with a key file gets new storage, and the keyring has room for generated keys.
def Careful (server : KeyServer) (s : Database ι) : DdlAction → Prop
  | .createRelation _ rel replies _ _      =>
    rel.isPgTdeRel → rel.relkind.hasKeyFork → MasterKeyFits server.config replies masterKeyName s.keyring
  | .setNewRelfilenumber relid _ _ _ _ => ∀ rel, s.pgClass relid = some rel →
    ¬(rel.isPgTdeRel ∧ rel.relkind.hasKeyFork)
  | _                                  => True

theorem Consistent.step (h : s.Consistent server) (hc : s.Careful server a)
    (ha : s.Allows server a) (hs : (s.step server b a).Yields s') : s'.Consistent server := by
  cases a
  case createRelation relid rel replies random relname => exact h.createRelation ha hc hs
  case setNewRelfilenumber relid newrlocator replies random relname =>
    cases hr : s.pgClass relid
    case none     => simp [Database.step, hr, Outcome.Yields, couldNotOpenRelation] at hs
    case some rel => exact h.setNewRelfilenumber hr (hc rel hr) hs
  case swapRelationFiles r1 r2 => exact h.swap ha hs
  case objectAccess access classId objectId subId => exact h.objectAccess hs
  case commit => exact h.commit hs

theorem consistent_invariant (server : KeyServer) (ι : Type) [DecidableEq ι] :
    ((ddlSystem server ι).restrict fun s a => s.Careful server a.2).Invariant (Consistent server) where
  initial := by
    rintro s ⟨hc, hu, hf, hr, hb⟩
    have hn (o path) : ¬s.Holds server o path := by
      cases o
      case inl relid => rintro ⟨rel, hrel, hk, -⟩; simp [hr relid rel hrel] at hk
      case inr b     => rintro ⟨rel, hrel, -⟩; simp [(hb b).2] at hrel
    refine ⟨hc, fun i hi j hj he => by rw [hu i hi j hj he], fun path => ?_, fun o _ path ho => ?_,
      fun b path => ?_, fun b e he => ?_⟩
    · simp [hf, hn]
    · exact absurd ho (hn o path)
    · simp [Awaits, (hb b).1, hn]
    · simp [(hb b).1] at he
  step    := by
    rintro s a s' h ⟨hc, ha, hs⟩
    exact h.step hc ha hs

-- In every run in which only relations without key files get new storage, there are key files for exactly
-- the locators of live relations.
theorem aligned_of_careful (server : KeyServer) (ι : Type) [DecidableEq ι] (s : Database ι)
    (h : ((ddlSystem server ι).restrict fun s a => s.Careful server a.2).Reachable s) :
    s.Aligned server :=
  ((consistent_invariant server ι).reachable h).aligned

end

end Database

-- A server without relations.
def newDatabase : Database Unit where
  keyring  := { keys := fun _ => ⟨⟨fun _ => 0⟩, ⟨fun _ => 0, 0⟩⟩, keyCount := 0 }
  files    := fun _ => none
  wal      := []
  backends := fun _ => ⟨{ pendingDeletes := [], unlinked := [] }, [], none⟩
  answers  := []
  pgClass  := fun _ => none
  dropped  := fun _ => []

theorem newDatabase_initial : (ddlSystem fileServer Unit).Initial newDatabase := by
  refine ⟨by decide, fun i hi => absurd hi (Nat.not_lt_zero i), fun _ => rfl, ?_, fun _ => ⟨rfl, rfl⟩⟩
  rintro relid rel ⟨⟩

def firstClass : PgClass where
  rdLocator  := ⟨1663, 5, 16384⟩
  relkind    := .relation
  isPgTdeRel := true

def createFirst : DdlAction :=
  .createRelation 16384 firstClass fileReplies (some fun _ => 1) "t"

def truncateFirst : DdlAction :=
  .setNewRelfilenumber 16384 ⟨1663, 5, 16385⟩ fileReplies (some fun _ => 2) "t"

theorem createFirst_allowed : newDatabase.Allows fileServer createFirst :=
  ⟨rfl, fun _ rel hl => by simp [Database.Live, newDatabase] at hl⟩

-- A table is created and dropped.
theorem aligned_droppedTable : ∃ s,
    [createFirst, .commit, .objectAccess .drop relationRelationId 16384 0, .commit].foldlM
      (fun s a => s.step fileServer () a) newDatabase = .ok s ∧ s.Aligned fileServer := by
  refine ⟨_, rfl, Database.aligned_of_careful fileServer Unit _ ?_⟩
  refine .step (a := ((), .commit)) (.step (a := ((), .objectAccess .drop relationRelationId 16384 0))
    (.step (a := ((), .commit)) (.step (a := ((), createFirst)) (.initial newDatabase_initial)
    ⟨fun _ _ => ?_, createFirst_allowed, .inl rfl⟩) ⟨trivial, trivial, .inl rfl⟩)
    ⟨trivial, trivial, .inl rfl⟩) ⟨trivial, trivial, .inl rfl⟩
  exact masterKeyFits_of_room (by decide) (fun i hi => absurd hi.1 (Nat.not_lt_zero i)) (by decide)

-- A table is created and truncated, in two transactions. Its first key file is left behind.
theorem not_aligned_truncatedTable :
    ¬∀ s, (ddlSystem fileServer Unit).Reachable s → (∀ b, s.dropped b = []) → s.Aligned fileServer := by
  intro h
  obtain ⟨s, hs, hc, hd, hf⟩ : ∃ s, (ddlSystem fileServer Unit).Reachable s ∧
      s.pgClass = Function.update (Function.update (fun _ => none) 16384 (some firstClass)) 16384
        (some { firstClass with rdLocator := ⟨1663, 5, 16385⟩ }) ∧
      s.dropped = Function.update (Function.update (fun _ => []) () [firstClass]) () [] ∧
      (s.files (fileServer.pgTdeGetKeyFilePath firstClass.rdLocator)).isSome := by
    refine ⟨_, .step (a := ((), .commit)) (.step (a := ((), truncateFirst)) (.step (a := ((), .commit))
      (.step (a := ((), createFirst)) (.initial newDatabase_initial) ⟨createFirst_allowed, .inl rfl⟩)
      ⟨trivial, .inl rfl⟩) ⟨?_, .inl rfl⟩) ⟨trivial, .inl rfl⟩, rfl, rfl, rfl⟩
    rintro rel (⟨relid, hr⟩ | ⟨b, hr⟩) -
    · have hr := (Option.ite_none_right_eq_some (p := relid = 16384)).mp
        ((Function.update_apply (fun _ => none) 16384 (some firstClass) relid).symm.trans hr)
      cases hr.2
      decide
    · cases hr
  obtain ⟨rel, hl, -, -, hp⟩ := (h s hs (fun b => by simp [hd]) firstClass.rdLocator).mp hf
  simp only [Database.Live, hc, hd, Function.update_idem] at hl
  obtain ⟨relid, hr⟩ | ⟨b, hr⟩ := hl
  · have hr := (Option.ite_none_right_eq_some (p := relid = 16384)).mp
      ((Function.update_apply (fun _ => none) 16384 _ relid).symm.trans hr)
    cases hr.2
    revert hp
    decide
  · simp at hr
