import PgTde.Keyring.Backends
import PgTde.Keyring.Theorems.Api

open KeyringCache

namespace WriteKeyFork

-- The pointers into the cache that a backend holds are valid.
def Valid (cache : KeyringCache) : WriteKeyFork → Prop
  | getLatestKey _ (some ki) | encrypt ki => ki < cache.keyCount
  | _                                     => True

theorem Valid.extends {cache cache' : KeyringCache} {pc : WriteKeyFork} (h : pc.Valid cache)
    (he : cache.Extends cache') : pc.Valid cache' := by
  match pc with
  | getLatestKey _ (some ki) | encrypt ki                            => exact Nat.lt_of_lt_of_le h he.le
  | start | getLatestKey _ none | generateKey _ | storeKey _ _       => trivial

end WriteKeyFork

namespace KeyringUse

variable {ι : Type} {config : KeyringConfig} {s s' : KeyringUse ι} {b : ι}
variable {input : KeyringInput} {pc : WriteKeyFork} {cache : KeyringCache}

-- A step does not race with another backend if it is
-- * a store, and there is room for an entry, and an entry of the same name that is there already has the
--   same data, unless the provider reports a failure,
-- * a lookup, and there is room for an entry, in case that a key from the vault is to be added,
-- * of any other kind.
def Unraced (config : KeyringConfig) (s : KeyringUse ι) (b : ι) (input : KeyringInput) : Prop :=
  let name := keyringConstructKeyName config masterKeyName
  match s.pc b with
  | .storeKey i kd => s.cache.keyCount < maxCacheEntries ∧
    (keyringKeeps config input.stored → ∀ j, s.cache.Holds (name i) j → (s.cache.keys j).data = kd)
  | .getLatestKey i _ | .generateKey i =>
    config.keyringProvider = .vaultV2 → (∀ j, ¬s.cache.Holds (name i) j) →
    (∃ data, input.reply = .ok data ∧ data.len > 0) → s.cache.keyCount < maxCacheEntries
  | _ => True

-- The invariant.
structure Consistent (s : KeyringUse ι) : Prop where
  count_le : s.cache.keyCount ≤ maxCacheEntries
  unique   : s.cache.Unique
  valid    : ∀ b, (s.pc b).Valid s.cache
  given    : ∀ info ∈ s.given, ∃ i, s.cache.Holds info.name i ∧ (s.cache.keys i).data = info.data

theorem Consistent.extends (h : s.Consistent) (he : s.cache.Extends cache) :
    KeyringUse.Consistent { s with cache } where
  count_le := he.count_le
  unique   := he.unique
  valid b  := (h.valid b).extends he
  given    := by
    intro info hi
    obtain ⟨i, ⟨hl, hn⟩, hd⟩ := h.given info hi
    have hk := he.keys i hl
    exact ⟨i, ⟨Nat.lt_of_lt_of_le hl he.le, hk ▸ hn⟩, hk ▸ hd⟩

-- A backend reads the entry that it has a pointer to.
theorem Consistent.give {ki : Nat} (h : s.Consistent) (hk : ki < s.cache.keyCount) :
    KeyringUse.Consistent { s with given := s.cache.keys ki :: s.given } where
  count_le := h.count_le
  unique   := h.unique
  valid    := h.valid
  given    := by
    refine List.forall_mem_cons.mpr ⟨?_, h.given⟩
    exact ⟨ki, ⟨hk, rfl⟩, rfl⟩

theorem Consistent.oneKeyPerName (h : s.Consistent) : s.OneKeyPerName config where
  unique := h.unique
  given  := by
    intro info hi reply
    obtain ⟨i, hh, hd⟩ := h.given info hi
    cases search_cases info.name h.count_le
    case inr hs => exact absurd hh (hs.2 i)
    case inl hs =>
      obtain ⟨j, _, hf⟩ := hs
      refine ⟨j, keyringGetKey_of_first h.count_le hf, ?_⟩
      rw [h.unique j hf.holds.1 i hh.1 (hf.holds.2.trans hh.2.symm), hd]

variable [DecidableEq ι]

theorem Consistent.goto (h : s.Consistent) (hv : pc.Valid s.cache) : (s.goto b pc).Consistent where
  count_le := h.count_le
  unique   := h.unique
  valid b' := by
    by_cases hb : b' = b
    case pos => subst hb; simpa [KeyringUse.goto] using hv
    case neg => simpa [KeyringUse.goto, hb] using h.valid b'
  given    := h.given

theorem Consistent.resume {call : Outcome (Option Nat) × KeyringCache}
    {next : Option Nat → WriteKeyFork} (h : s.Consistent) (hc : s.cache.Call call)
    (hn : ∀ ki, (∀ k, ki = some k → k < call.2.keyCount) → (next ki).Valid call.2)
    (hs : (s.resume b call next).Yields s') : s'.Consistent := by
  have he := h.extends hc.toExtends
  match call, hc with
  | (.ok ki, cache), hc   =>
    rw [KeyringUse.resume, Outcome.yields_ok] at hs
    exact hs ▸ he.goto (hn ki fun k hk => hc.pointer k (hk ▸ rfl))
  | (.error e, cache), hc =>
    have hd : e ≠ .undefined := fun h => hc.defined (h ▸ rfl)
    rw [KeyringUse.resume, if_neg hd, Outcome.yields_ok] at hs
    exact hs ▸ he.goto trivial

theorem Consistent.step (h : s.Consistent) (hu : s.Unraced config b input)
    (hs : (s.step config b input).Yields s') : s'.Consistent := by
  have hv := h.valid b
  simp only [Unraced] at hu
  simp only [KeyringUse.step] at hs
  cases hp : s.pc b
  case start =>
    simp only [hp, Outcome.yields_ok] at hs
    exact hs ▸ h.goto trivial
  case getLatestKey i prev =>
    simp only [hp] at hu hs hv
    have hc := keyringGetKey_call h.count_le h.unique hu
    refine h.resume hc (fun ki hk => ?_) hs
    cases ki
    case some ki => exact hk ki rfl
    case none =>
      cases prev
      case some prev => exact Nat.lt_of_lt_of_le hv hc.le
      case none      => trivial
  case generateKey i =>
    simp only [hp] at hu hs
    refine h.resume (keyringGetKey_call h.count_le h.unique hu) (fun ki hk => ?_) hs
    cases ki
    case some => trivial
    case none => cases input.random <;> trivial
  case storeKey i kd =>
    simp only [hp] at hu hs
    refine h.resume (keyringStoreKey_call h.unique hu.1 hu.2) (fun ki hk => ?_) hs
    cases ki
    case some ki => exact hk ki rfl
    case none    => trivial
  case encrypt ki =>
    simp only [hp] at hs hv
    have hlt : ki < maxCacheEntries := Nat.lt_of_lt_of_le hv h.count_le
    rw [if_pos hlt, Outcome.yields_ok] at hs
    exact hs ▸ (h.give hv).goto trivial

theorem consistent_invariant (config : KeyringConfig) (ι : Type) [DecidableEq ι] :
    ((keyringSystem config ι).restrict fun s a => s.Unraced config a.1 a.2).Invariant Consistent where
  initial := by
    rintro s ⟨hc, hg, hp, hu⟩
    refine ⟨hc, fun i hi j hj he => hu i hi j hj he ▸ rfl, fun b => ?_, by simp [hg]⟩
    rw [hp b]
    trivial
  step    := by
    rintro s a s' h ⟨hu, hs⟩
    exact h.step hu hs

-- In every run whose stores do not race with each other, there is one key per name.
theorem oneKeyPerName_of_unraced (config : KeyringConfig) (ι : Type) [DecidableEq ι]
    (s : KeyringUse ι)
    (h : ((keyringSystem config ι).restrict fun s a => s.Unraced config a.1 a.2).Reachable s) :
    s.OneKeyPerName config :=
  Consistent.oneKeyPerName <| (consistent_invariant config ι).reachable h

end KeyringUse

-- An empty keyring in a file, which several backends use.
def freshKeyring : KeyringUse Bool where
  cache := { keys := fun _ => ⟨⟨fun _ => 0⟩, ⟨fun _ => 0, 0⟩⟩, keyCount := 0 }
  pc _  := .start
  given := []

def fileConfig : KeyringConfig where
  keyringProvider  := .file
  keyringKeyPrefix := none

-- All calls succeed, and all random bytes are `x`.
def inputOf (x : UInt8) : KeyringInput where
  reply  := .error "not called"
  random := some fun _ => x
  stored := .ok true

theorem freshKeyring_initial : (keyringSystem fileConfig Bool).Initial freshKeyring := by
  refine ⟨Nat.zero_le _, rfl, fun _ => rfl, ?_⟩
  intro i hi
  exact absurd hi (Nat.not_lt_zero i)

-- One backend makes the first key, and uses it.
theorem oneKeyPerName_firstKey : ∃ s,
    (List.replicate 5 (false, inputOf 1)).foldlM (fun s a => s.step fileConfig a.1 a.2) freshKeyring =
      .ok s ∧ s.given.length = 1 ∧ s.OneKeyPerName fileConfig := by
  refine ⟨_, rfl, rfl, KeyringUse.oneKeyPerName_of_unraced fileConfig Bool _ ?_⟩
  have hf : fileConfig.keyringProvider ≠ .vaultV2 := by decide
  refine .step (a := (false, inputOf 1)) (.step (a := (false, inputOf 1)) (.step (a := (false, inputOf 1))
    (.step (a := (false, inputOf 1)) (.step (a := (false, inputOf 1)) (.initial freshKeyring_initial)
      ⟨trivial, .inl rfl⟩) ⟨fun h => absurd h hf, .inl rfl⟩) ⟨fun h => absurd h hf, .inl rfl⟩)
    ⟨?_, .inl rfl⟩) ⟨trivial, .inl rfl⟩
  exact ⟨by decide, fun _ j hj => absurd hj.1 (Nat.not_lt_zero j)⟩

-- Both backends find no key, so that each of them makes one.
def twoFirstKeys : List (Bool × KeyringInput) :=
  [(false, inputOf 1), (true, inputOf 2), (false, inputOf 1), (true, inputOf 2),
    (false, inputOf 1), (true, inputOf 2), (false, inputOf 1), (true, inputOf 2)]

theorem not_oneKeyPerName_twoFirstKeys :
    ¬∀ s, (keyringSystem fileConfig Bool).Reachable s → s.OneKeyPerName fileConfig := by
  intro h
  obtain ⟨s, hr, hn⟩ : ∃ s,
      twoFirstKeys.foldlM (fun s a => s.step fileConfig a.1 a.2) freshKeyring = .ok s ∧
      s.cache.keyCount = 2 ∧ (s.cache.keys 0).name.str = (s.cache.keys 1).name.str ∧
      (s.cache.keys 0).data.data 0 ≠ (s.cache.keys 1).data.data 0 := by
    refine ⟨_, rfl, ?_, ?_, ?_⟩
    all_goals decide +kernel
  have hs := (System.Reachable.initial freshKeyring_initial).foldlM (fun _ _ _ h => Or.inl h) hr
  have hu := (h s hs).unique 0 (by omega) 1 (by omega) hn.2.1
  exact hn.2.2 (hu ▸ rfl)
