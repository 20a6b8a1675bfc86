import PgTde.Visibility.Agreement
import PgTde.Visibility.Theorems.Update
import PgTde.Visibility.Theorems.Vacuum

section Unhinted

variable {tup : List UInt8} {f : UInt16}

theorem tInfomask_unhinted (h : 20 ≤ tup.length) : tInfomask (unhinted tup) = tInfomask tup &&& ~~~hintsOf tup := by
  have hl : (tup.take 20).length = 20 := by
    rw [List.length_take]
    omega
  rw [tInfomask, unhinted, List.append_assoc, unsignedAt_of_append rfl hl (UInt16.toNat_lt _), UInt16.ofNat_toNat]

theorem length_unhinted (h : 22 ≤ tup.length) : (unhinted tup).length = tup.length := by
  simp only [unhinted, List.length_append, List.length_take, length_toLittleEndian, List.length_drop]
  omega

-- The hints are stored in the tuple without them.
theorem storeHints_unhinted (h : 22 ≤ tup.length) :
    storeHints (tInfomask tup &&& hintsOf tup) (unhinted tup) = tup := by
  have hl : (tup.take 20).length = 20 := by
    rw [List.length_take]
    omega
  have ht : (unhinted tup).take 20 = tup.take 20 := by
    rw [unhinted, List.append_assoc, List.take_left' hl]
  have hd : (unhinted tup).drop 22 = tup.drop 22 :=
    List.drop_left' (by rw [List.length_append, hl, length_toLittleEndian])
  have hm : tInfomask tup &&& ~~~hintsOf tup ||| tInfomask tup &&& hintsOf tup = tInfomask tup := by
    rw [UInt16.and_comm, UInt16.and_comm _ (hintsOf tup), ←UInt16.or_and_distrib_right, UInt16.not_or_self,
      UInt16.neg_one_and]
  have hz := storeHints_zero h
  rw [storeHints, UInt16.or_zero] at hz
  rw [storeHints, ht, hd, tInfomask_unhinted (by omega), hm, hz]

theorem heapTupleHas_unhinted (h : 20 ≤ tup.length) (hf : ~~~hintsOf tup &&& f = f) :
    heapTupleHas f (unhinted tup) = heapTupleHas f tup := by
  rw [heapTupleHas, heapTupleHas, tInfomask_unhinted h, UInt16.keep_and hf]

theorem heapTupleHas_unhinted_hint (h : 20 ≤ tup.length) (hf : ~~~hintsOf tup &&& f = 0) :
    heapTupleHas f (unhinted tup) = false := by
  rw [heapTupleHas_eq_false, tInfomask_unhinted h, UInt16.and_assoc, hf, UInt16.and_zero]

theorem hintsOf_cases (P : UInt16 → Prop) (h₁ : P (heapXmaxCommitted ||| heapXmaxInvalid)) (h₂ : P heapHints) :
    P (hintsOf tup) := by
  rw [hintsOf]
  split
  · exact h₁
  · exact h₂

theorem heapTupleHeaderXminFrozen_unhinted (h : 20 ≤ tup.length) :
    heapTupleHeaderXminFrozen (unhinted tup) = heapTupleHeaderXminFrozen tup := by
  by_cases hf : heapTupleHeaderXminFrozen tup
  case pos =>
    have hh : hintsOf tup = heapXmaxCommitted ||| heapXmaxInvalid := if_pos hf
    rw [heapTupleHeaderXminFrozen_eq, heapTupleHeaderXminFrozen_eq,
      heapTupleHas_unhinted h (by rw [hh]; decide), heapTupleHas_unhinted h (by rw [hh]; decide)]
  case neg =>
    have hh : hintsOf tup = heapHints := if_neg hf
    rw [Bool.not_eq_true] at hf
    rw [hf, heapTupleHeaderXminFrozen_eq, heapTupleHas_unhinted_hint h (by rw [hh]; decide), Bool.false_and]

end Unhinted

namespace XactStatus

variable {x x' : XactStatus} {tup tup' : List UInt8} {removable : Nat → Bool}

theorem hinted_unhinted (h : x.Truthful tup) : x.Hinted (unhinted tup) tup where
  truthful := h
  stored   := by
    refine ⟨tInfomask tup &&& hintsOf tup, ?_, (storeHints_unhinted (by have := h.length_ge; omega)).symm⟩
    rw [UInt16.and_assoc]
    exact hintsOf_cases (fun m => tInfomask tup &&& (m &&& ~~~heapHints) = 0)
      (by rw [show (heapXmaxCommitted ||| heapXmaxInvalid) &&& ~~~heapHints = 0 by decide, UInt16.and_zero])
      (by rw [UInt16.and_not_self, UInt16.and_zero])
  frozen   := (heapTupleHeaderXminFrozen_unhinted (by have := h.length_ge; omega)).symm

-- Without hints, none of them is wrong.
theorem truthful_unhinted (h : x.Truthful tup) : x.Truthful (unhinted tup) := by
  have hl := h.length_ge
  have hl₀ : 20 ≤ tup.length := by omega
  have hu := hinted_unhinted h
  have hl' : 20 ≤ (unhinted tup).length := by
    rw [length_unhinted (by omega)]
    omega
  have hins : x.insertion tup = x.insertion (unhinted tup) := hu.insertionFate_eq hl'
  have hdel : x.deletion tup = x.deletion (unhinted tup) := hu.deletionFate_eq hl'
  have hruns := hu.xmaxRuns_eq hl'
  have hxc : heapTupleHas heapXmaxCommitted (unhinted tup) = false :=
    heapTupleHas_unhinted_hint hl₀ (hintsOf_cases (fun m => ~~~m &&& heapXmaxCommitted = 0) (by decide) (by decide))
  have hxi : heapTupleHas heapXmaxInvalid (unhinted tup) = false :=
    heapTupleHas_unhinted_hint hl₀ (hintsOf_cases (fun m => ~~~m &&& heapXmaxInvalid = 0) (by decide) (by decide))
  have hup : heapLockedUpgraded (unhinted tup) = heapLockedUpgraded tup := by
    obtain ⟨hints, hh, he⟩ := hu.stored
    have hs := heapLockedUpgraded_storeHints hl' hh
    rw [←he] at hs
    exact hs.symm
  constructor
  case header        => rw [length_unhinted (by omega)]; exact h.header
  case xmaxCommitted => rw [hxc]; exact fun hf => absurd hf Bool.false_ne_true
  case xmaxInvalid   => rw [hxi]; exact fun hf => absurd hf Bool.false_ne_true
  case own           => rw [←hins, ←hdel]; exact h.own
  case upgraded      => rw [hup, ←hruns]; exact h.upgraded
  case not_moved     =>
    rw [heapTupleHas_unhinted hl₀ (hintsOf_cases (fun m => ~~~m &&& heapMoved = heapMoved) (by decide) (by decide))]
    exact h.not_moved
  case xminCommitted =>
    rw [←hins]
    intro hc
    by_cases hf : heapTupleHeaderXminFrozen tup
    case pos => exact insertionFate_of_frozen hf
    case neg =>
      have hh : hintsOf tup = heapHints := if_neg hf
      rw [heapTupleHeaderXminCommitted, heapTupleHas_unhinted_hint hl₀ (by rw [hh]; decide)] at hc
      cases hc
  case xminInvalid   =>
    intro hi
    rw [heapTupleHeaderXminInvalid_eq, Bool.and_eq_true, Bool.not_eq_true'] at hi
    by_cases hf : heapTupleHeaderXminFrozen tup
    case pos =>
      rw [←heapTupleHeaderXminFrozen_unhinted hl₀, heapTupleHeaderXminFrozen_eq, hi.left] at hf
      exact absurd hf Bool.false_ne_true
    case neg =>
      have hh : hintsOf tup = heapHints := if_neg hf
      rw [@heapTupleHas_unhinted_hint _ heapXminInvalid hl₀ (by rw [hh]; decide)] at hi
      exact absurd hi.right Bool.false_ne_true

theorem Hinted.horizonResult_eq (h : x.Hinted tup tup') (hl : 20 ≤ tup.length) :
    x.horizonResult tup' = x.horizonResult tup := by
  have hins : x.insertion tup' = x.insertion tup := h.insertionFate_eq hl
  have hdel : x.deletion tup' = x.deletion tup := h.deletionFate_eq hl
  rw [horizonResult, horizonResult, xmaxVacuumResult, xmaxVacuumResult, hins, hdel, h.updateXid_eq hl]

theorem Hinted.updateResult_eq {curcid : Nat} {tSelf : ItemPointer} (h : x.Hinted tup tup') (hl : 20 ≤ tup.length) :
    x.updateResult curcid tSelf tup' = x.updateResult curcid tSelf tup := by
  have hins : x.insertion tup' = x.insertion tup := h.insertionFate_eq hl
  rw [updateResult, updateResult, hins, h.cmin_eq hl, h.xmaxUpdateResult_eq hl]

theorem Hinted.visibleNow_iff (h : x.Hinted tup tup') (hl : 20 ≤ tup.length) :
    x.VisibleNow tup' ↔ x.VisibleNow tup := by
  have hins : x.insertion tup' = x.insertion tup := h.insertionFate_eq hl
  have hdel : x.deletion tup' = x.deletion tup := h.deletionFate_eq hl
  rw [VisibleNow, VisibleNow, hins, hdel]

theorem Hinted.visible_iff {snapshot : MvccSnapshot x} (h : x.Hinted tup tup') (hl : 20 ≤ tup.length) :
    snapshot.Visible tup' ↔ snapshot.Visible tup := by
  rw [MvccSnapshot.Visible, MvccSnapshot.Visible, MvccSnapshot.Hinted.seesDeletion_iff h hl,
    MvccSnapshot.SeesInsertion, MvccSnapshot.SeesInsertion, h.insertionFate_eq hl, h.cmin_eq hl]

theorem Hinted.nowResult_eq {α : Type} {answers : XminAnswers α} {visible invisible : α} {deleting : Nat → α}
    (h : x.Hinted tup tup') (hl : 20 ≤ tup.length) :
    x.nowResult answers visible invisible deleting tup' = x.nowResult answers visible invisible deleting tup := by
  have hins : x.insertion tup' = x.insertion tup := h.insertionFate_eq hl
  have hdel : x.deletion tup' = x.deletion tup := h.deletionFate_eq hl
  rw [nowResult, nowResult, hins, hdel, h.xmaxResult_eq hl]

theorem Hinted.inserting_eq (h : x.Hinted tup tup') (hl : 20 ≤ tup.length) :
    DirtyResult.inserting tup' = DirtyResult.inserting tup := by
  obtain ⟨hints, -, rfl⟩ := h.stored
  rw [DirtyResult.inserting, DirtyResult.inserting, heapTupleHeaderGetRawXmin, heapTupleHeaderGetRawXmin,
    unsignedAt_storeHints hl (by decide), heapTupleHeaderIsSpeculative, heapTupleHeaderIsSpeculative,
    heapTupleHeaderGetSpeculativeToken, heapTupleHeaderGetSpeculativeToken, tCtid_storeHints hl]

-- Further hints do not change the result of any test.
theorem Hinted.sameResults (h : x.Truthful tup) (hh : x.Hinted tup tup') : x.SameResults tup' tup := by
  have hl := h.length_ge
  have hl₀ : 20 ≤ tup.length := by omega
  have h' := hh.truthful
  constructor
  case self   =>
    obtain ⟨_, -, he⟩ := heapTupleSatisfiesSelf_eq h
    obtain ⟨_, -, he'⟩ := heapTupleSatisfiesSelf_eq h'
    rw [he, he']
    exact decide_eq_decide.mpr (hh.visibleNow_iff hl₀)
  case dirty  =>
    obtain ⟨_, -, he⟩ := heapTupleSatisfiesDirty_eq h
    obtain ⟨_, -, he'⟩ := heapTupleSatisfiesDirty_eq h'
    rw [he, he', hh.nowResult_eq hl₀, hh.inserting_eq hl₀]
  case mvcc   =>
    intro snapshot
    obtain ⟨_, -, he⟩ := snapshot.heapTupleSatisfiesMVCC_eq h
    obtain ⟨_, -, he'⟩ := snapshot.heapTupleSatisfiesMVCC_eq h'
    rw [he, he']
    exact decide_eq_decide.mpr (hh.visible_iff hl₀)
  case update =>
    intro curcid tSelf
    obtain ⟨_, -, he⟩ := heapTupleSatisfiesUpdate_eq curcid tSelf h
    obtain ⟨_, -, he'⟩ := heapTupleSatisfiesUpdate_eq curcid tSelf h'
    rw [he, he', hh.updateResult_eq hl₀]
  case vacuum =>
    obtain ⟨_, -, he⟩ := heapTupleSatisfiesVacuumHorizon_eq h
    obtain ⟨_, -, he'⟩ := heapTupleSatisfiesVacuumHorizon_eq h'
    rw [he, he', hh.horizonResult_eq hl₀]

theorem dead_of_vacuumable (h : x.Truthful tup)
    (hv : (x.heapTupleSatisfiesNonVacuumable removable tup).1 = false) : x.Dead removable tup := by
  obtain ⟨tup', -, he⟩ := heapTupleSatisfiesVacuumHorizon_eq h
  rw [heapTupleSatisfiesNonVacuumable, he] at hv
  have hd : vacuumResult removable (x.horizonResult tup) = .dead := by simpa using hv
  rw [vacuumResult, horizonResult, xmaxVacuumResult] at hd
  cases hf : x.insertion tup
  case aborted   => exact .inl hf
  case running   => simp [hf] at hd
  case own       => rw [hf] at hd; split at hd <;> (try split at hd) <;> simp_all
  case committed =>
    rw [hf] at hd
    cases hx : updateXid x.updater tup
    case none     => simp [hx] at hd
    case some xid =>
      rw [hx] at hd
      cases hfx : x.fate xid <;> simp [hfx] at hd
      exact .inr ⟨xid, hx, hfx, hd⟩

theorem Agrees.fate_committed (ha : x.Agrees x') {xid : Nat} (h : x.fate xid = .committed) :
    x'.fate xid = .committed := by
  rw [fate_committed_iff] at h ⊢
  rwa [ha.inProgress, ha.didCommit]

theorem Agrees.fate_aborted (ha : x.Agrees x') {xid : Nat} (h : x.fate xid = .aborted) :
    x'.fate xid = .aborted := by
  rw [fate_aborted_iff] at h ⊢
  rwa [ha.inProgress, ha.didCommit]

theorem Agrees.insertion_aborted (ha : x.Agrees x') (h : x.insertion tup = .aborted) :
    x'.insertion tup = .aborted := by
  rw [insertion, insertionFate] at h ⊢
  split at h
  case isTrue     => cases h
  case isFalse hf =>
    rw [if_neg hf]
    exact ha.fate_aborted h

-- A dead tuple is not visible to a snapshot that respects the horizon.
theorem Dead.not_visible {snapshot : MvccSnapshot x} (hd : x.Dead removable tup) (hr : snapshot.Respects removable) :
    ¬snapshot.Visible tup := by
  obtain hi | ⟨xid, hx, hf, hrem⟩ := hd
  case inl =>
    rintro ⟨hs, -⟩
    have hf : ¬heapTupleHeaderXminFrozen tup := by
      intro hf
      rw [insertion, insertionFate_of_frozen hf] at hi
      cases hi
    rw [insertion, insertionFate, if_neg hf] at hi
    rw [MvccSnapshot.SeesInsertion, insertionFate, if_neg hf] at hs
    have ho := @MvccSnapshot.fate_eq_or x snapshot (heapTupleHeaderGetRawXmin tup)
    rw [hi] at ho
    obtain ho | ho := ho <;> simp [ho] at hs
  case inr =>
    exact fun hs => hs.right (MvccSnapshot.seesDeletion_committed hx (hr xid hrem) hf)

-- The test that looks at hints only agrees with the one that does not rely on them.
theorem vacuumable_of_isSurelyDead (h : x.Truthful tup) (hd : heapTupleIsSurelyDead removable tup) :
    (x.heapTupleSatisfiesNonVacuumable removable tup).1 = false := by
  obtain ⟨tup', -, he⟩ := heapTupleSatisfiesVacuumHorizon_eq h
  rw [heapTupleSatisfiesNonVacuumable, he]
  suffices hs : vacuumResult removable (x.horizonResult tup) = .dead by simp [hs]
  rw [heapTupleIsSurelyDead] at hd
  split at hd
  case isTrue hc  =>
    rw [horizonResult, h.xminInvalid hd, vacuumResult]
    simp
  case isFalse hc =>
    rw [not_not] at hc
    split at hd
    case isTrue => cases hd
    case isFalse =>
      split at hd
      case isTrue     => cases hd
      case isFalse hl =>
        split at hd
        case isTrue     => cases hd
        case isFalse hm =>
          split at hd
          case isTrue      => cases hd
          case isFalse hxc =>
            have hf := (h.xmaxCommitted (not_not.mp hxc)).right.right
            rw [horizonResult, h.xminCommitted hc]
            simp only [xmaxVacuumResult_committed (updateXid_single hl hm) hf, vacuumResult, hd, and_self, if_true]

end XactStatus
