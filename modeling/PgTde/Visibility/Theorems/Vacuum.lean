import PgTde.Visibility.Theorems.Satisfies

namespace XactStatus

variable {x : XactStatus} {tup : List UInt8} {removable : Nat → Bool}

-- The result of the checks of t_xmax for vacuuming.
def xmaxVacuumResult (x : XactStatus) (tup : List UInt8) : HTSVResult × Nat :=
  match updateXid x.updater tup with
  | none     => (.live, invalidTransactionId)
  | some xid =>
    match x.fate xid with
    | .own | .running => (.deleteInProgress, invalidTransactionId)
    | .committed      => (.recentlyDead, xid)
    | .aborted        => (.live, invalidTransactionId)

def horizonResult (x : XactStatus) (tup : List UInt8) : HTSVResult × Nat :=
  match x.insertion tup with
  | .own       =>
    (if x.deletion tup = some .own then .deleteInProgress else .insertInProgress, invalidTransactionId)
  | .running   => (.insertInProgress, invalidTransactionId)
  | .committed => x.xmaxVacuumResult tup
  | .aborted   => (.dead, invalidTransactionId)

theorem xmaxVacuumResult_none (h : heapXmaxIsLockedOnly tup) :
    x.xmaxVacuumResult tup = (.live, invalidTransactionId) := by
  rw [xmaxVacuumResult, updateXid_none h]

theorem xmaxVacuumResult_aborted {xid : Nat} (h : updateXid x.updater tup = some xid) (hf : x.fate xid = .aborted) :
    x.xmaxVacuumResult tup = (.live, invalidTransactionId) := by
  simp only [xmaxVacuumResult, h, hf]

theorem xmaxVacuumResult_committed {xid : Nat} (h : updateXid x.updater tup = some xid)
    (hf : x.fate xid = .committed) : x.xmaxVacuumResult tup = (.recentlyDead, xid) := by
  simp only [xmaxVacuumResult, h, hf]

theorem xmaxVacuumResult_inProgress {xid : Nat} (h : updateXid x.updater tup = some xid) (hp : x.inProgress xid) :
    x.xmaxVacuumResult tup = (.deleteInProgress, invalidTransactionId) := by
  by_cases hc : x.isCurrent xid
  case pos => simp only [xmaxVacuumResult, h, fate_own_iff.mpr hc]
  case neg => simp only [xmaxVacuumResult, h, fate_running_iff.mpr ⟨hc, hp⟩]

theorem xmaxVacuumResult_invalid (h : x.Truthful tup) (hi : heapTupleHas heapXmaxInvalid tup) :
    x.xmaxVacuumResult tup = (.live, invalidTransactionId) := by
  have hd := (h.xmaxInvalid hi).right
  rw [deletion, deletionFate] at hd
  cases hx : updateXid x.updater tup
  case none     => simp only [xmaxVacuumResult, hx]
  case some xid =>
    rw [hx] at hd
    exact xmaxVacuumResult_aborted hx (hd _ rfl)

-- A tuple that has been updated or deleted by the own transaction is not only locked.
theorem not_isOnlyLocked {xid : Nat} (hx : updateXid x.updater tup = some xid) (hc : x.isCurrent xid)
    (hi : ¬heapTupleHas heapXmaxInvalid tup) : ¬x.heapTupleHeaderIsOnlyLocked tup := by
  have hl : ¬heapXmaxIsLockedOnly tup := by
    intro hl
    rw [updateXid_none hl] at hx
    cases hx
  have hlo : ¬heapTupleHas heapXmaxLockOnly tup := by
    rw [heapXmaxIsLockedOnly, decide_eq_true_iff, not_or] at hl
    exact hl.left
  have hne : xid ≠ invalidTransactionId := by
    rintro rfl
    exact x.invalid.left (x.current _ hc)
  rw [heapTupleHeaderIsOnlyLocked, if_neg hi, if_neg hlo]
  by_cases hm : heapTupleHas heapXmaxIsMulti tup
  case pos =>
    rw [updateXid_multi hl hm, Option.some.injEq] at hx
    subst hx
    have hz : heapTupleHeaderGetRawXmax tup ≠ invalidTransactionId := by
      intro hz
      rw [heapTupleGetUpdateXid, hz, x.no_members] at hne
      exact hne rfl
    rw [if_neg hz, if_neg (not_not.mpr hm)]
    simp [hc]
  case neg =>
    rw [updateXid_single hl hm, Option.some.injEq] at hx
    subst hx
    rw [if_neg hne, if_pos hm]
    exact Bool.false_ne_true

theorem heapTupleHeaderGetUpdateXid_eq {xid : Nat} (hx : updateXid x.updater tup = some xid)
    (hi : ¬heapTupleHas heapXmaxInvalid tup) : heapTupleHeaderGetUpdateXid x.updater tup = xid := by
  have hl : ¬heapXmaxIsLockedOnly tup := by
    intro hl
    rw [updateXid_none hl] at hx
    cases hx
  have hlo : ¬heapTupleHas heapXmaxLockOnly tup := by
    rw [heapXmaxIsLockedOnly, decide_eq_true_iff, not_or] at hl
    exact hl.left
  rw [Bool.not_eq_true, heapTupleHas_eq_false] at hi hlo
  rw [updateXid, if_neg hl] at hx
  rw [heapTupleHeaderGetUpdateXid]
  split at hx
  case isTrue hm  =>
    rw [heapTupleHas_eq_true] at hm
    rw [if_pos ⟨hi, hm, hlo⟩]
    exact Option.some.inj hx
  case isFalse hm =>
    rw [heapTupleHas_eq_true] at hm
    rw [if_neg fun h => hm h.right.left]
    exact Option.some.inj hx

theorem checkOwnXmaxVacuum_eq (h : x.Truthful tup) :
    x.checkOwnXmaxVacuum tup = if x.deletion tup = some .own then .deleteInProgress else .insertInProgress := by
  rw [checkOwnXmaxVacuum]
  split
  case isTrue hi  =>
    have hd : x.deletion tup ≠ some .own := fun hd => absurd ((h.xmaxInvalid hi).right _ hd) (by decide)
    rw [if_neg hd]
  case isFalse hi =>
    cases hx : updateXid x.updater tup
    case none     =>
      have hl : heapXmaxIsLockedOnly tup := by
        rw [updateXid] at hx
        split at hx
        case isTrue hl => exact hl
        case isFalse   => split at hx <;> cases hx
      rw [if_pos (.inl hl), deletion_none hl, if_neg (by simp)]
    case some xid =>
      have hl : ¬heapXmaxIsLockedOnly tup := by
        intro hl
        rw [updateXid_none hl] at hx
        cases hx
      rw [deletion, deletionFate, hx, Option.map_some, heapTupleHeaderGetUpdateXid_eq hx hi]
      by_cases hc : x.isCurrent xid
      case pos =>
        rw [if_neg (not_or.mpr ⟨hl, not_isOnlyLocked hx hc hi⟩), if_pos hc, fate_own_iff.mpr hc, if_pos rfl]
      case neg =>
        rw [if_neg hc, ite_self, if_neg]
        exact fun hf => hc (fate_own_iff.mp (Option.some.inj hf))

-- The hint that a locker has gone.
theorem checkLockerVacuum_hinted (h : x.Truthful tup) (hl : heapXmaxIsLockedOnly tup) :
    x.Hinted tup (x.checkLockerVacuum tup) := by
  have hd := @not_deleted x _ hl
  simp only [checkLockerVacuum]
  split
  case isTrue hc  => exact h.hinted_self
  case isFalse hc =>
    split
    case isTrue hm  =>
      split
      case isTrue  => exact h.hinted_self
      case isFalse hu =>
        refine h.hinted_xmaxInvalid ?_ hd
        rw [not_and_or, not_not] at hu
        obtain hu | hr := hu
        · exact h.upgraded hu
        · rwa [xmaxRuns_multi hm, hl]
    case isFalse hm =>
      split
      case isTrue     => exact h.hinted_self
      case isFalse hp => exact h.hinted_goneXmax hm hp (.inl hl)

theorem checkXmaxVacuum_eq (h : x.Truthful tup) : ∃ tup', x.Hinted tup tup' ∧
    x.checkXmaxVacuum tup = (x.xmaxVacuumResult tup, tup') := by
  simp only [checkXmaxVacuum]
  split
  case isTrue hi  => exact ⟨tup, h.hinted_self, by rw [xmaxVacuumResult_invalid h hi]⟩
  case isFalse hi =>
    split
    case isTrue hl  => exact ⟨_, checkLockerVacuum_hinted h hl, by rw [xmaxVacuumResult_none hl]⟩
    case isFalse hl =>
      split
      case isTrue hm  =>
        have hx := @updateXid_multi x _ hl hm
        have hd := @deletion_multi x _ hl hm
        split
        case isTrue hp  => exact ⟨tup, h.hinted_self, by rw [xmaxVacuumResult_inProgress hx hp]⟩
        case isFalse hp =>
          split
          case isTrue hdid  =>
            have hf := fate_committed_iff.mpr ⟨hp, hdid⟩
            exact ⟨tup, h.hinted_self, by rw [xmaxVacuumResult_committed hx hf]⟩
          case isFalse hdid =>
            have hf := fate_aborted_iff.mpr ⟨hp, hdid⟩
            rw [xmaxVacuumResult_aborted hx hf]
            split
            case isTrue hr  =>
              refine ⟨_, h.hinted_xmaxInvalid ?_ ?_, rfl⟩
              · rw [Bool.not_eq_true] at hl
                rwa [xmaxRuns_multi hm, hl]
              · rw [hd]
                rintro _ ⟨⟩
                exact hf
            case isFalse hr => exact ⟨tup, h.hinted_self, rfl⟩
      case isFalse hm =>
        have hx := @updateXid_single x _ hl hm
        split
        case isTrue hc  =>
          exact ⟨tup, h.hinted_self, by rw [xmaxVacuumResult_committed hx (h.xmaxCommitted hc).right.right]⟩
        case isFalse hc =>
          split
          case isTrue hp  => exact ⟨tup, h.hinted_self, by rw [xmaxVacuumResult_inProgress hx hp]⟩
          case isFalse hp =>
            split
            case isTrue hdid  =>
              have hf := fate_committed_iff.mpr ⟨hp, hdid⟩
              exact ⟨_, h.hinted_xmaxCommitted hl hm hf, by rw [xmaxVacuumResult_committed hx hf]⟩
            case isFalse hdid =>
              have hf := fate_aborted_iff.mpr ⟨hp, hdid⟩
              exact ⟨_, h.hinted_goneXmax hm hp (.inr hdid), by rw [xmaxVacuumResult_aborted hx hf]⟩

theorem heapTupleSatisfiesVacuumHorizon_eq (h : x.Truthful tup) : ∃ tup', x.Hinted tup tup' ∧
    x.heapTupleSatisfiesVacuumHorizon tup = (x.horizonResult tup, tup') := by
  have hl := h.length_ge
  obtain ⟨tup₁, h₁, he⟩ := checkXmin_now vacuumAnswers h
  have hdel : x.deletion tup₁ = x.deletion tup := h₁.deletionFate_eq (by omega)
  rw [heapTupleSatisfiesVacuumHorizon, he, horizonResult]
  cases hf : x.insertion tup
  case running   => exact ⟨tup₁, h₁, rfl⟩
  case aborted   => exact ⟨tup₁, h₁, rfl⟩
  case own       =>
    refine ⟨tup₁, h₁, ?_⟩
    simp only [xminResult, checkOwnXmaxVacuum_eq h₁.truthful, hdel]
  case committed =>
    obtain ⟨tup', h', he'⟩ := checkXmaxVacuum_eq h₁.truthful
    have hr : x.xmaxVacuumResult tup₁ = x.xmaxVacuumResult tup := by
      rw [xmaxVacuumResult, xmaxVacuumResult, h₁.updateXid_eq (by omega)]
    rw [hr] at he'
    exact ⟨tup', h₁.trans h' (by omega), he'⟩

end XactStatus
