import PgTde.Encryption.Theorems.Tuple
import PgTde.Keys.CopyData
import PgTde.Keys.Theorems.Decode

variable {server : KeyServer} {vault : KeyName → Except String KeyData} {key : InternalKey}
variable {P : Platform} {s : KeySession} {rel : RelFileLocator}

namespace KeyServer

-- The key of a relation is in the keys cache, or it is in the relation's key file and its master key is in
-- the keyring.
inductive KeyFor (server : KeyServer) (vault : KeyName → Except String KeyData) (s : KeySession)
    (rel : RelFileLocator) (key : InternalKey) : Prop
  | cached {entry : RelKeys} (found : s.tdeRelKeysMap.find? (·.relId = rel.relNumber) = some entry)
    (head : entry.keys.internalKey.head? = some key)
  | stored {content : List UInt8} {i : Nat} {keyring : KeyringCache}
    (absent : s.tdeRelKeysMap.find? (·.relId = rel.relNumber) = none)
    (file : s.files (server.pgTdeGetKeyFilePath rel) = some content)
    (size : ¬(content.length < sizeOfRelKeysData 1 ∨
      (content.length - sizeOfRelKeysDataHeader) % sizeofInternalKey ≠ 0))
    (found : keyringGetKey server.config (vault (strncpy (RelKeysData.ofBytes content).masterKeyName))
      (strncpy (RelKeysData.ofBytes content).masterKeyName) s.keyring = (.ok (some i), keyring))
    (valid : i < maxCacheEntries)
    (head : (RelKeysData.ofBytes <| overwrite content sizeOfRelKeysDataHeader <| List.ofFn <|
      server.cbc.decrypt (keyring.keys i).data.aesKey zeroIv <|
        byteArray 16 content sizeOfRelKeysDataHeader).internalKey.head? = some key)

theorem keyFor_iff : server.KeyFor vault s rel key ↔
    ∃ keys s', server.getRelationKeys vault rel s = (.ok keys, s') ∧
      keys.internalKey.head? = some key := by
  simp only [getRelationKeys]
  cases hm : s.tdeRelKeysMap.find? (·.relId = rel.relNumber)
  case some entry =>
    constructor
    case mp =>
      rintro (⟨hf, hh⟩ | ⟨ha⟩)
      · rw [hm, Option.some.injEq] at hf
        subst hf
        exact ⟨_, _, rfl, hh⟩
      · rw [hm] at ha
        cases ha
    case mpr =>
      rintro ⟨_, _, ⟨⟩, hh⟩
      exact .cached hm hh
  case none =>
    constructor
    case mp =>
      rintro (⟨hf, hh⟩ | ⟨-, hf, hs, hk, hv, hh⟩)
      · rw [hm] at hf
        cases hf
      · simp only [pgTdeGetKeysFromFork, hf, if_neg hs, hk, if_pos hv]
        exact ⟨_, _, rfl, hh⟩
    case mpr =>
      rintro ⟨keys, s', hr, hh⟩
      simp only [pgTdeGetKeysFromFork] at hr
      cases hf : s.files (server.pgTdeGetKeyFilePath rel)
      case none         => rw [hf] at hr; cases hr
      case some content =>
        simp only [hf] at hr
        by_cases hs : content.length < sizeOfRelKeysData 1 ∨
          (content.length - sizeOfRelKeysDataHeader) % sizeofInternalKey ≠ 0
        case pos => rw [if_pos hs] at hr; cases hr
        case neg =>
          rw [if_neg hs] at hr
          generalize hk : keyringGetKey server.config _ _ s.keyring = call at hr
          obtain ⟨r, keyring⟩ := call
          cases r
          case error   => cases hr
          case ok info =>
            cases info
            case none   => cases hr
            case some i =>
              by_cases hv : i < maxCacheEntries
              case neg => simp only [if_neg hv] at hr; cases hr
              case pos =>
                simp only [if_pos hv] at hr
                cases hr
                exact .stored hm hf hs hk hv hh

end KeyServer

namespace Tablespaces

variable {t : Tablespaces} {src dst newrlocator : RelFileLocator} {forkNum : ForkNumber}

-- What copying some forks does.
structure Copied (t : Tablespaces) (src dst : RelFileLocator) (forkNums : List ForkNumber)
    (s : Tablespaces) : Prop where
  session : s.session = t.session
  drops   : s.drops = t.drops
  source  : s.forks src = t.forks src
  target  : ∀ f, s.forks dst f =
    if f ∈ forkNums ∧ (t.forks src f).isSome then t.forks src f else t.forks dst f

theorem relationCopyStorage_copied (hne : src ≠ dst) :
    t.Copied src dst [forkNum] (t.relationCopyStorage src dst forkNum) := by
  rw [relationCopyStorage]
  cases hf : t.forks src forkNum
  case none       => exact ⟨rfl, rfl, rfl, fun f => by by_cases h : f = forkNum <;> simp [h, hf]⟩
  case some pages =>
    refine ⟨rfl, rfl, Function.update_of_ne hne _ _, fun f => ?_⟩
    by_cases h : f = forkNum
    case pos => simp [h, hf]
    case neg => simp [h]

theorem Copied.trans {s₁ s₂ : Tablespaces} {f : ForkNumber} {fs : List ForkNumber}
    (h₁ : t.Copied src dst [f] s₁) (h₂ : s₁.Copied src dst fs s₂) : t.Copied src dst (f :: fs) s₂ where
  session  := h₂.session.trans h₁.session
  drops    := h₂.drops.trans h₁.drops
  source   := h₂.source.trans h₁.source
  target g := by
    rw [h₂.target, h₁.source, h₁.target]
    cases hs : t.forks src g <;> by_cases hg : g = f <;> simp [hg]

theorem copyForks_copied (hne : src ≠ dst) (forkNums : List ForkNumber) :
    t.Copied src dst forkNums (forkNums.foldl (·.relationCopyStorage src dst ·) t) := by
  induction forkNums generalizing t
  case nil          => exact ⟨rfl, rfl, rfl, fun f => by simp⟩
  case cons f fs hi => exact (relationCopyStorage_copied hne).trans hi

theorem copyData_eq {pages : List Page} (hm : t.forks rel .main = some pages)
    (hn : t.forks newrlocator .main = none) : ∃ s,
      t.pgTdeamRelationCopyData rel newrlocator = .ok s ∧ s.session = t.session ∧
      s.forks newrlocator .main = some pages ∧ s.drops = rel :: t.drops := by
  have hne : rel ≠ newrlocator := by
    rintro rfl
    rw [hm] at hn
    cases hn
  simp only [pgTdeamRelationCopyData, relationCreateStorage, hn, Option.isSome_none,
    Bool.false_eq_true, if_false, Outcome.ok_bind, Outcome.pure_eq]
  refine ⟨_, rfl, ?_⟩
  generalize ht : { t with forks := Function.update t.forks newrlocator _ } = t'
  have hc := @copyForks_copied t' rel newrlocator hne [.main, .fsm, .visibilitymap, .init]
  have hsrc : t'.forks rel .main = some pages := by
    rw [←ht]
    exact (congrFun (Function.update_of_ne hne _ _) _).trans hm
  refine ⟨?_, ?_, ?_⟩
  · exact hc.session.trans (ht ▸ rfl)
  · refine (hc.target .main).trans ?_
    simp [hsrc]
  · exact congrArg _ (hc.drops.trans (ht ▸ rfl))

end Tablespaces

namespace TableMove

variable {m : TableMove server vault}

-- What is left of an old key file or in the cache is all that there is of a key for the new locator.
theorem staysReadable_iff_keyFor : m.StaysReadable P ↔
    ∃ key, server.KeyFor vault (m.before.session.xactCallback .commit 1) m.newrlocator key ∧
      m.SameData P key := by
  obtain ⟨s, hs, hsession, hforks, hdrops⟩ := Tablespaces.copyData_eq m.main m.unused
  have hne : m.rel ≠ m.newrlocator := by
    intro he
    have hm := m.main
    rw [he, m.unused] at hm
    cases hm
  have hmain : s.commit.forks m.newrlocator .main = some (m.pages.map (·.toPage)) := by
    have hnot : m.newrlocator ∉ s.drops := by
      simpa [hdrops, hne.symm] using m.notDropped
    simp only [Tablespaces.commit, if_neg hnot, hforks]
  have hcommit : s.commit.session = m.before.session.xactCallback .commit 1 := by
    rw [Tablespaces.commit, hsession]
  simp only [StaysReadable, hs, Except.ok.injEq, exists_eq_left', hmain, true_and, KeyServer.keyFor_iff,
    hcommit]
  constructor
  case mp  => exact fun ⟨keys, key, session, hr, hh, hd⟩ => ⟨key, ⟨keys, session, hr, hh⟩, hd⟩
  case mpr => exact fun ⟨key, ⟨keys, session, hr, hh⟩, hd⟩ => ⟨keys, key, session, hr, hh, hd⟩

-- The keystreams of the two keys agree on the data of every tuple.
def SameKeystream (P : Platform) (m : TableMove server vault) (key : InternalKey) : Prop :=
  ∀ (bn : Nat) (page : HeapPage), m.pages[bn]? = some page → ∀ lp ∈ page.linp, lp.hasStorage →
    ∀ i < lp.lpLen - tHoff page.mem lp.lpOff,
      P.keystream key.key (offsetInFile bn lp.lpOff + i) =
      P.keystream m.key.key (offsetInFile bn lp.lpOff + i)

theorem sameData_iff : m.SameData P key ↔ m.SameKeystream P key := by
  refine forall₂_congr fun bn page => forall_congr' fun hp => forall₂_congr fun lp hl =>
    forall_congr' fun hs => ?_
  have ht := page.tuples lp hl hs
  have hle := ht.le_special
  have hsp := page.special_le
  rw [Platform.pgTdeCryptTuple_eq (by omega) (by omega) ht.hoff_le,
    Platform.pgTdeCryptTuple_eq (by omega) (by omega) ht.hoff_le, Except.ok.injEq,
    Keystream.xor_eq_iff, Memory.length_read]

-- A moved relation stays readable iff a key for its new locator is left from something else, and its
-- keystream happens to agree with that of the old key.
theorem staysReadable_iff (m : TableMove server vault) : m.StaysReadable P ↔
    ∃ key, server.KeyFor vault (m.before.session.xactCallback .commit 1) m.newrlocator key ∧
      m.SameKeystream P key := by
  simp only [staysReadable_iff_keyFor, sameData_iff]

end TableMove

def oneTuplePage : HeapPage where
  pdUpper         := 8152
  pdSpecial       := 8192
  pdHasFreeLines  := false
  linp            := [⟨8152, .normal, 40⟩]
  mem a           := if a = 8152 + 22 then 24 else 0
  lower_le        := by decide
  upper_le        := by decide
  special_le      := emptySpecial_le
  special_aligned := emptySpecial_aligned
  tuples          := by
    simp only [List.forall_mem_cons, List.not_mem_nil, false_imp_iff, implies_true, and_true]
    exact fun _ => by constructor <;> decide
  disjoint        := List.pairwise_singleton _ _

-- The session of a backend that has created a relation.
def createdSession : KeySession :=
  (fileServer.pgTdeCreateKeyFork fileReplies (some fun _ => 1) 1 ⟨1663, 5, 16384⟩ "t"
    { keyring       := { keys := fun _ => ⟨⟨fun _ => 0⟩, ⟨fun _ => 0, 0⟩⟩, keyCount := 0 }
      files         := fun _ => none
      wal           := []
      deletes       := { pendingDeletes := [], unlinked := [] }
      tdeRelKeysMap := [] }).2

def oneTupleMove : TableMove fileServer fileReplies.vault where
  before      :=
    { session := createdSession
      forks   := fun rlocator forkNum =>
        if rlocator = ⟨1663, 5, 16384⟩ ∧ forkNum = .main then some [oneTuplePage.toPage] else none
      drops   := [] }
  rel         := ⟨1663, 5, 16384⟩
  newrlocator := ⟨16500, 5, 16385⟩
  pages       := [oneTuplePage]
  key         := { key := fun _ => 1, startLoc := 0, endLoc := 0, ctx := 0 }
  main        := rfl
  keys        := ⟨_, _, rfl, rfl⟩
  unused      := rfl
  notDropped  := List.not_mem_nil

-- There is no key for the new locator.
theorem not_staysReadable_oneTupleMove : ¬oneTupleMove.StaysReadable (.x86 []) := by
  rw [TableMove.staysReadable_iff_keyFor]
  rintro ⟨key, ⟨hf, -⟩ | ⟨-, hf⟩, -⟩
  · have hn : (oneTupleMove.before.session.xactCallback .commit 1).tdeRelKeysMap.find?
        (·.relId = oneTupleMove.newrlocator.relNumber) = none := rfl
    cases hn.symm.trans hf
  · have hn : (oneTupleMove.before.session.xactCallback .commit 1).files
        (fileServer.pgTdeGetKeyFilePath oneTupleMove.newrlocator) = none := by
      exact Option.isNone_iff_eq_none.mp (by decide +kernel)
    cases hn.symm.trans hf
