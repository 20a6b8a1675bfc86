import PgTde.Visibility.Theorems.Hints

section Store

variable {tup : List UInt8} {hints : UInt16} {fate : Nat → Fate} {updater : Nat → Nat}

theorem tCtid_storeHints (h : 20 ≤ tup.length) : tCtid (storeHints hints tup) = tCtid tup := by
  rw [tCtid, tCtid, unsignedAt_storeHints h (by decide), unsignedAt_storeHints h (by decide),
    unsignedAt_storeHints h (by decide)]

theorem heapXmaxIsLockedOnly_storeHints (h : 20 ≤ tup.length) (hh : hints &&& ~~~heapHints = 0) :
    heapXmaxIsLockedOnly (storeHints hints tup) = heapXmaxIsLockedOnly tup := by
  rw [heapXmaxIsLockedOnly, heapXmaxIsLockedOnly, heapTupleHas_storeHints_of_subset h hh (by decide),
    tInfomask_storeHints h, UInt16.keep_or (UInt16.and_eq_zero_of_subset hh (by decide))]

theorem heapLockedUpgraded_storeHints (h : 20 ≤ tup.length) (hh : hints &&& ~~~heapHints = 0) :
    heapLockedUpgraded (storeHints hints tup) = heapLockedUpgraded tup := by
  rw [heapLockedUpgraded, heapLockedUpgraded, heapTupleHas_storeHints_of_subset h hh (by decide),
    heapTupleHas_storeHints_of_subset h hh (by decide), heapTupleHas_storeHints_of_subset h hh (by decide)]

theorem updateXid_storeHints (h : 20 ≤ tup.length) (hh : hints &&& ~~~heapHints = 0) :
    updateXid updater (storeHints hints tup) = updateXid updater tup := by
  rw [updateXid, updateXid, heapXmaxIsLockedOnly_storeHints h hh,
    heapTupleHas_storeHints_of_subset h hh (by decide), heapTupleHeaderGetRawXmax, heapTupleHeaderGetRawXmax,
    unsignedAt_storeHints h (by decide)]

theorem deletionFate_storeHints (h : 20 ≤ tup.length) (hh : hints &&& ~~~heapHints = 0) :
    deletionFate fate updater (storeHints hints tup) = deletionFate fate updater tup := by
  rw [deletionFate, deletionFate, updateXid_storeHints h hh]

-- The insertion of a tuple that does not get frozen.
theorem insertionFate_storeHints (h : 20 ≤ tup.length)
    (hf : heapTupleHeaderXminFrozen (storeHints hints tup) = heapTupleHeaderXminFrozen tup) :
    insertionFate fate (storeHints hints tup) = insertionFate fate tup := by
  rw [insertionFate, insertionFate, hf, heapTupleHeaderGetRawXmin, heapTupleHeaderGetRawXmin,
    unsignedAt_storeHints h (by decide)]

end Store

namespace XactStatus

variable {x : XactStatus} {tup tup' tup'' : List UInt8} {hints : UInt16} {xid : Nat} {fate : Nat → Fate}

theorem xmaxRuns_storeHints (h : 20 ≤ tup.length) (hh : hints &&& ~~~heapHints = 0) :
    x.xmaxRuns (storeHints hints tup) = x.xmaxRuns tup := by
  rw [xmaxRuns, xmaxRuns, heapXmaxIsLockedOnly_storeHints h hh, heapTupleHas_storeHints_of_subset h hh (by decide),
    heapTupleHeaderGetRawXmax, heapTupleHeaderGetRawXmax, unsignedAt_storeHints h (by decide)]

section Fate

variable {running : Nat → Bool}

theorem fateOf_own_iff : fateOf x.isCurrent running x.didCommit xid = .own ↔ x.isCurrent xid := by
  simp only [fateOf]
  split
  case isTrue h  => simp [h]
  case isFalse h => split <;> (try split) <;> simp_all

theorem fateOf_running_iff :
    fateOf x.isCurrent running x.didCommit xid = .running ↔ ¬x.isCurrent xid ∧ running xid := by
  simp only [fateOf]
  split
  case isTrue h  => simp [h]
  case isFalse h => split <;> (try split) <;> simp_all

theorem fate_own_iff : x.fate xid = .own ↔ x.isCurrent xid :=
  fateOf_own_iff

theorem fate_running_iff : x.fate xid = .running ↔ ¬x.isCurrent xid ∧ x.inProgress xid :=
  fateOf_running_iff

theorem fate_committed_iff : x.fate xid = .committed ↔ ¬x.inProgress xid ∧ x.didCommit xid := by
  have hc := x.current xid
  simp only [fate, fateOf]
  split
  case isTrue h  => simp [hc h]
  case isFalse h => split <;> simp_all

theorem fate_aborted_iff : x.fate xid = .aborted ↔ ¬x.inProgress xid ∧ ¬x.didCommit xid := by
  have hc := x.current xid
  simp only [fate, fateOf]
  split
  case isTrue h  => simp [hc h]
  case isFalse h => split <;> simp_all

theorem insertionFate_of_frozen (hf : heapTupleHeaderXminFrozen tup) : insertionFate fate tup = .committed :=
  if_pos hf

theorem fate_invalid : x.fate invalidTransactionId = .aborted :=
  fate_aborted_iff.mpr x.invalid

end Fate

namespace Truthful

theorem length_ge (h : x.Truthful tup) : 24 ≤ tup.length :=
  h.header

-- Hints that are the truth do not contradict those that the tuple has.
theorem frozen_storeHints (h : x.Truthful tup)
    (hc : hints &&& heapXminCommitted ≠ 0 → x.insertion tup = .committed)
    (hi : hints &&& heapXminInvalid ≠ 0 → x.insertion tup = .aborted) :
    heapTupleHeaderXminFrozen (storeHints hints tup) = heapTupleHeaderXminFrozen tup := by
  have hl := h.length_ge
  have hxc := h.xminCommitted
  have hxi := h.xminInvalid
  rw [heapTupleHeaderXminCommitted] at hxc
  rw [heapTupleHeaderXminInvalid_eq] at hxi
  rw [heapTupleHeaderXminFrozen_eq, heapTupleHeaderXminFrozen_eq, heapTupleHas_storeHints (by omega),
    heapTupleHas_storeHints (by omega)]
  have hn : hints &&& heapXminCommitted ≠ 0 → ¬hints &&& heapXminInvalid ≠ 0 :=
    fun hc' hi' => absurd ((hc hc').symm.trans (hi hi')) (by decide)
  cases hc' : heapTupleHas heapXminCommitted tup <;> cases hi' : heapTupleHas heapXminInvalid tup <;> simp_all

theorem hinted (h : x.Truthful tup) (hh : hints &&& ~~~heapHints = 0)
    (hc : hints &&& heapXminCommitted ≠ 0 → x.insertion tup = .committed)
    (hi : hints &&& heapXminInvalid ≠ 0 → x.insertion tup = .aborted)
    (hxc : hints &&& heapXmaxCommitted ≠ 0 → ¬heapXmaxIsLockedOnly tup ∧
      ¬heapTupleHas heapXmaxIsMulti tup ∧ x.fate (heapTupleHeaderGetRawXmax tup) = .committed)
    (hxi : hints &&& heapXmaxInvalid ≠ 0 → ¬x.xmaxRuns tup ∧ ∀ fate ∈ x.deletion tup, fate = .aborted) :
    x.Hinted tup (storeHints hints tup) := by
  have hl := h.length_ge
  have hl' : 20 ≤ tup.length := by omega
  have hf := h.frozen_storeHints hc hi
  have hins : x.insertion (storeHints hints tup) = x.insertion tup := insertionFate_storeHints hl' hf
  have hdel : x.deletion (storeHints hints tup) = x.deletion tup := deletionFate_storeHints hl' hh
  have hruns := @xmaxRuns_storeHints x _ _ hl' hh
  refine ⟨?_, ⟨hints, hh, rfl⟩, hf⟩
  constructor
  case header        => rw [length_storeHints (by omega)]; exact h.header
  case not_moved     => rw [heapTupleHas_storeHints_of_subset hl' hh (by decide)]; exact h.not_moved
  case own           => rw [hins, hdel]; exact h.own
  case upgraded      => rw [heapLockedUpgraded_storeHints hl' hh, hruns]; exact h.upgraded
  case xminCommitted =>
    rw [heapTupleHeaderXminCommitted, heapTupleHas_storeHints hl', hins, Bool.or_eq_true, decide_eq_true_iff]
    exact fun hx => hx.elim h.xminCommitted hc
  case xminInvalid   =>
    have hxi := h.xminInvalid
    rw [heapTupleHeaderXminInvalid_eq] at hxi
    rw [heapTupleHeaderXminInvalid_eq, heapTupleHas_storeHints hl', heapTupleHas_storeHints hl', hins]
    intro hx
    rw [Bool.and_eq_true, Bool.or_eq_true, Bool.not_eq_true', Bool.or_eq_false_iff, decide_eq_true_iff] at hx
    exact hx.right.elim (fun hi' => hxi (by rw [hx.left.left, hi']; rfl)) hi
  case xmaxCommitted =>
    rw [heapTupleHas_storeHints hl', Bool.or_eq_true, decide_eq_true_iff, heapXmaxIsLockedOnly_storeHints hl' hh,
      heapTupleHas_storeHints_of_subset hl' hh (by decide), heapTupleHeaderGetRawXmax,
      unsignedAt_storeHints hl' (by decide)]
    exact fun hx => hx.elim h.xmaxCommitted hxc
  case xmaxInvalid   =>
    rw [heapTupleHas_storeHints hl', Bool.or_eq_true, decide_eq_true_iff, hruns, hdel]
    exact fun hx => hx.elim h.xmaxInvalid hxi

theorem hinted_self (h : x.Truthful tup) : x.Hinted tup tup where
  truthful := h
  stored   := ⟨0, by decide, (storeHints_zero (by have := h.length_ge; omega)).symm⟩
  frozen   := rfl

-- A hint that may be left out.
theorem hinted_setHintBits (h : x.Truthful tup) (hs : x.Hinted tup (storeHints hints tup)) :
    x.Hinted tup (x.setHintBits hints xid tup) := by
  rw [setHintBits]
  split
  case isTrue  => exact h.hinted_self
  case isFalse => exact hs

theorem hinted_xminCommitted (h : x.Truthful tup) (hi : x.insertion tup = .committed) :
    x.Hinted tup (x.setHintBits heapXminCommitted xid tup) := by
  refine h.hinted_setHintBits (h.hinted (by decide) (fun _ => hi) ?_ ?_ ?_)
  · exact fun hn => absurd (by decide) hn
  · exact fun hn => absurd (by decide) hn
  · exact fun hn => absurd (by decide) hn

theorem hinted_xminInvalid (h : x.Truthful tup) (hi : x.insertion tup = .aborted) :
    x.Hinted tup (x.setHintBits heapXminInvalid xid tup) := by
  refine h.hinted_setHintBits (h.hinted (by decide) ?_ (fun _ => hi) ?_ ?_)
  · exact fun hn => absurd (by decide) hn
  · exact fun hn => absurd (by decide) hn
  · exact fun hn => absurd (by decide) hn

theorem hinted_xmaxCommitted (h : x.Truthful tup) (hl : ¬heapXmaxIsLockedOnly tup)
    (hm : ¬heapTupleHas heapXmaxIsMulti tup) (hx : x.fate (heapTupleHeaderGetRawXmax tup) = .committed) :
    x.Hinted tup (x.setHintBits heapXmaxCommitted xid tup) := by
  refine h.hinted_setHintBits (h.hinted (by decide) ?_ ?_ (fun _ => ⟨hl, hm, hx⟩) ?_)
  · exact fun hn => absurd (by decide) hn
  · exact fun hn => absurd (by decide) hn
  · exact fun hn => absurd (by decide) hn

theorem hinted_xmaxInvalid (h : x.Truthful tup) (hr : ¬x.xmaxRuns tup)
    (hd : ∀ fate ∈ x.deletion tup, fate = .aborted) :
    x.Hinted tup (x.setHintBits heapXmaxInvalid xid tup) := by
  refine h.hinted_setHintBits (h.hinted (by decide) ?_ ?_ ?_ fun _ => ⟨hr, hd⟩)
  · exact fun hn => absurd (by decide) hn
  · exact fun hn => absurd (by decide) hn
  · exact fun hn => absurd (by decide) hn

end Truthful

namespace Hinted

theorem trans (h : x.Hinted tup tup') (h' : x.Hinted tup' tup'') (hl : 22 ≤ tup.length) : x.Hinted tup tup'' := by
  obtain ⟨hints, hh, rfl⟩ := h.stored
  obtain ⟨hints', hh', rfl⟩ := h'.stored
  refine ⟨h'.truthful, ⟨hints ||| hints', ?_, storeHints_storeHints hl⟩, h'.frozen.trans h.frozen⟩
  rw [UInt16.or_and_distrib_right, hh, hh']
  rfl

theorem insertionFate_eq (h : x.Hinted tup tup') (hl : 20 ≤ tup.length) :
    insertionFate fate tup' = insertionFate fate tup := by
  obtain ⟨hints, -, rfl⟩ := h.stored
  exact insertionFate_storeHints hl h.frozen

theorem deletionFate_eq {updater : Nat → Nat} (h : x.Hinted tup tup') (hl : 20 ≤ tup.length) :
    deletionFate fate updater tup' = deletionFate fate updater tup := by
  obtain ⟨hints, hh, rfl⟩ := h.stored
  exact deletionFate_storeHints hl hh

theorem updateXid_eq {updater : Nat → Nat} (h : x.Hinted tup tup') (hl : 20 ≤ tup.length) :
    updateXid updater tup' = updateXid updater tup := by
  obtain ⟨hints, hh, rfl⟩ := h.stored
  exact updateXid_storeHints hl hh

theorem tCtid_eq (h : x.Hinted tup tup') (hl : 20 ≤ tup.length) : tCtid tup' = tCtid tup := by
  obtain ⟨hints, -, rfl⟩ := h.stored
  exact tCtid_storeHints hl

theorem cmin_eq (h : x.Hinted tup tup') (hl : 20 ≤ tup.length) :
    x.heapTupleHeaderGetCmin tup' = x.heapTupleHeaderGetCmin tup := by
  obtain ⟨hints, hh, rfl⟩ := h.stored
  rw [heapTupleHeaderGetCmin, heapTupleHeaderGetCmin, heapTupleHas_storeHints_of_subset hl hh (by decide),
    heapTupleHeaderGetRawCommandId, heapTupleHeaderGetRawCommandId, unsignedAt_storeHints hl (by decide)]

theorem cmax_eq (h : x.Hinted tup tup') (hl : 20 ≤ tup.length) :
    x.heapTupleHeaderGetCmax tup' = x.heapTupleHeaderGetCmax tup := by
  obtain ⟨hints, hh, rfl⟩ := h.stored
  rw [heapTupleHeaderGetCmax, heapTupleHeaderGetCmax, heapTupleHas_storeHints_of_subset hl hh (by decide),
    heapTupleHeaderGetRawCommandId, heapTupleHeaderGetRawCommandId, unsignedAt_storeHints hl (by decide)]

theorem xmaxRuns_eq (h : x.Hinted tup tup') (hl : 20 ≤ tup.length) : x.xmaxRuns tup' = x.xmaxRuns tup := by
  obtain ⟨hints, hh, rfl⟩ := h.stored
  exact xmaxRuns_storeHints hl hh

end Hinted

end XactStatus
