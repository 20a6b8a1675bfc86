import PgTde.Visibility.Theorems.Agreement
import PgTde.Visibility.Theorems.NewXmax

namespace XactStatus

variable {x x' : XactStatus} {tup : List UInt8} {curcid : Nat} {tSelf : ItemPointer}

-- Hints that are true for a backend are so for each one.
theorem Truthful.transfer (h : x.Truthful tup) (ha : x.Agrees x')
    (ho : x'.insertion tup = .own → ∀ fate ∈ x'.deletion tup, fate = .own ∨ fate = .aborted) :
    x'.Truthful tup := by
  have hruns : x'.xmaxRuns tup = x.xmaxRuns tup := by rw [xmaxRuns, xmaxRuns, ha.inProgress, ha.isRunning]
  constructor
  case header        => exact h.header
  case not_moved     => exact h.not_moved
  case own           => exact ho
  case upgraded      => rw [hruns]; exact h.upgraded
  case xmaxCommitted =>
    intro hc
    obtain ⟨hl, hm, hf⟩ := h.xmaxCommitted hc
    exact ⟨hl, hm, ha.fate_committed hf⟩
  case xmaxInvalid   =>
    intro hi
    obtain ⟨hr, hd⟩ := h.xmaxInvalid hi
    refine ⟨by rwa [hruns], fun fate hf => ?_⟩
    rw [deletion, deletionFate, ha.updater] at hf
    rw [deletion, deletionFate] at hd
    cases hx : updateXid x.updater tup
    case none     =>
      rw [hx] at hf
      cases hf
    case some xid =>
      rw [hx] at hf hd
      cases hf
      exact ha.fate_aborted (hd _ rfl)
  case xminCommitted =>
    intro hc
    have hi := h.xminCommitted hc
    rw [insertion, insertionFate] at hi ⊢
    split
    case isTrue     => rfl
    case isFalse hf =>
      rw [if_neg hf] at hi
      exact ha.fate_committed hi
  case xminInvalid   => exact fun hi => ha.insertion_aborted (h.xminInvalid hi)

-- A visible tuple that has not been deleted by the own transaction.
theorem lockable_cases (h : x.Truthful tup) (hl : RowVersion.Lockable x tup) :
    (x.insertion tup).Counts ∧ x.deletion tup ≠ some .own := by
  obtain ⟨curcid, tSelf, hr⟩ := hl
  obtain ⟨_, -, he⟩ := heapTupleSatisfiesUpdate_eq curcid tSelf h
  rw [he, updateResult] at hr
  have hown : x.xmaxUpdateResult curcid tSelf tup ∉ [TMResult.invisible, .selfModified] →
      x.deletion tup ≠ some .own := by
    intro hn hd
    rw [xmaxUpdateResult_own hd, modifiedByOwn] at hn
    split at hn <;> simp at hn
  cases hf : x.insertion tup
  case running   => simp [hf] at hr
  case aborted   => simp [hf] at hr
  case committed =>
    rw [hf] at hr
    exact ⟨.inr rfl, hown hr⟩
  case own       =>
    rw [hf] at hr
    simp only at hr
    split at hr
    · simp at hr
    · exact ⟨.inl rfl, hown hr⟩

theorem deletion_of_not_runs (hr : ¬x.xmaxRuns tup) (hc : x.deletion tup ≠ some .committed) :
    ∀ fate ∈ x.deletion tup, fate = .aborted := by
  intro fate hf
  by_cases hl : heapXmaxIsLockedOnly tup
  case pos => exact not_deleted hl fate hf
  case neg =>
    by_cases hm : heapTupleHas heapXmaxIsMulti tup
    case pos =>
      have hd := @deletion_multi x _ hl hm
      rw [Bool.not_eq_true] at hl
      rw [xmaxRuns_multi hm, hl] at hr
      have hu := (@fate_updater x (heapTupleHeaderGetRawXmax tup) hr).resolve_left fun hu => hc (by
        rw [hd, heapTupleGetUpdateXid, hu])
      rw [hd, heapTupleGetUpdateXid, hu] at hf
      exact (Option.some.inj hf).symm
    case neg =>
      have hd := @deletion_single x _ hl hm
      rw [xmaxRuns_single hm] at hr
      have ha : x.fate (heapTupleHeaderGetRawXmax tup) = .aborted := by
        refine fate_aborted_iff.mpr ⟨hr, fun hdid => hc ?_⟩
        rw [hd, fate_committed_iff.mpr ⟨hr, hdid⟩]
      rw [hd, ha] at hf
      exact (Option.some.inj hf).symm

-- A tuple that is only locked has not been updated or deleted, but by a transaction that has been aborted.
theorem isOnlyLocked_deletion (h : x.Truthful tup) (ho : x.heapTupleHeaderIsOnlyLocked tup) :
    ∀ fate ∈ x.deletion tup, fate = .aborted := by
  intro fate hf
  by_cases hi : heapTupleHas heapXmaxInvalid tup
  case pos => exact (h.xmaxInvalid hi).right fate hf
  case neg =>
    by_cases hl : heapXmaxIsLockedOnly tup
    case pos => exact not_deleted hl fate hf
    case neg =>
      have hlo : ¬heapTupleHas heapXmaxLockOnly tup := by
        rw [heapXmaxIsLockedOnly, decide_eq_true_iff, not_or] at hl
        exact hl.left
      rw [heapTupleHeaderIsOnlyLocked, if_neg hi, if_neg hlo] at ho
      by_cases hm : heapTupleHas heapXmaxIsMulti tup
      case pos =>
        rw [deletion_multi hl hm] at hf
        cases hf
        rw [if_neg (not_not.mpr hm)] at ho
        split at ho
        case isTrue hz => rw [heapTupleGetUpdateXid, hz, x.no_members, fate_invalid]
        case isFalse   =>
          simp only at ho
          split at ho
          · cases ho
          · split at ho
            · cases ho
            · split at ho
              · cases ho
              · exact fate_aborted_iff.mpr ⟨‹_›, ‹_›⟩
      case neg =>
        rw [deletion_single hl hm] at hf
        cases hf
        rw [if_pos hm] at ho
        split at ho
        case isTrue hz => rw [hz, fate_invalid]
        case isFalse   => cases ho

-- No other update or deletion is running or committed.
theorem updatable_deletion (h : x.Truthful tup) (hu : RowVersion.Updatable x tup) :
    ∀ fate ∈ x.deletion tup, fate = .aborted := by
  obtain ⟨curcid, tSelf, hr⟩ := hu
  obtain ⟨_, -, he⟩ := heapTupleSatisfiesUpdate_eq curcid tSelf h
  rw [he] at hr
  obtain hr | ⟨-, ho⟩ := hr
  case inl =>
    have hok : x.xmaxUpdateResult curcid tSelf tup = .ok := by
      simp only [updateResult] at hr
      split at hr
      · split at hr
        · cases hr
        · exact hr
      · cases hr
      · cases hr
      · exact hr
    rw [xmaxUpdateResult] at hok
    split at hok
    case isTrue      => rw [modifiedByOwn] at hok; split at hok <;> cases hok
    case isFalse hn  =>
      split at hok
      case isTrue      => cases hok
      case isFalse hr' =>
        refine deletion_of_not_runs hr' fun hc => ?_
        rw [if_pos hc, modifiedByOther] at hok
        split at hok <;> cases hok
  case inr =>
    rw [mayOverwrite, decide_eq_true_iff] at ho
    obtain hi | hl | hol := ho
    · exact (h.xmaxInvalid hi).right
    · exact not_deleted hl
    · exact isOnlyLocked_deletion h hol

end XactStatus
