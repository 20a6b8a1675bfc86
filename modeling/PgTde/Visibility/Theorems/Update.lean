import PgTde.Visibility.Theorems.Satisfies

namespace XactStatus

variable {x : XactStatus} {tup : List UInt8} {curcid : Nat} {tSelf : ItemPointer} {removable : Nat → Bool}

-- The result of the checks of t_xmax for the update of a tuple. A tuple that another transaction has locked or
-- updated counts as being modified as long as any of the transactions in t_xmax runs.
def xmaxUpdateResult (x : XactStatus) (curcid : Nat) (tSelf : ItemPointer) (tup : List UInt8) : TMResult :=
  if x.deletion tup = some .own then
    x.modifiedByOwn curcid tup
  else if x.xmaxRuns tup then
    .beingModified
  else if x.deletion tup = some .committed then
    modifiedByOther tSelf tup
  else
    .ok

def updateResult (x : XactStatus) (curcid : Nat) (tSelf : ItemPointer) (tup : List UInt8) : TMResult :=
  match x.insertion tup with
  | .own               =>
    if x.heapTupleHeaderGetCmin tup ≥ curcid then .invisible else x.xmaxUpdateResult curcid tSelf tup
  | .running | .aborted => .invisible
  | .committed         => x.xmaxUpdateResult curcid tSelf tup

section

theorem xmaxUpdateResult_own (hd : x.deletion tup = some .own) :
    x.xmaxUpdateResult curcid tSelf tup = x.modifiedByOwn curcid tup :=
  if_pos hd

theorem xmaxUpdateResult_runs (hd : x.deletion tup ≠ some .own) (hr : x.xmaxRuns tup) :
    x.xmaxUpdateResult curcid tSelf tup = .beingModified := by
  rw [xmaxUpdateResult, if_neg hd, if_pos hr]

theorem xmaxUpdateResult_committed (hd : x.deletion tup = some .committed) (hr : ¬x.xmaxRuns tup) :
    x.xmaxUpdateResult curcid tSelf tup = modifiedByOther tSelf tup := by
  rw [xmaxUpdateResult, hd, if_neg (by decide), if_neg hr, if_pos rfl]

theorem xmaxUpdateResult_ok (hd : ∀ fate ∈ x.deletion tup, fate = .aborted) (hr : ¬x.xmaxRuns tup) :
    x.xmaxUpdateResult curcid tSelf tup = .ok := by
  have ho : x.deletion tup ≠ some .own := fun h => absurd (hd _ h) (by decide)
  have hc : x.deletion tup ≠ some .committed := fun h => absurd (hd _ h) (by decide)
  rw [xmaxUpdateResult, if_neg ho, if_neg hr, if_neg hc]

theorem xmaxUpdateResult_locked (hl : heapXmaxIsLockedOnly tup) :
    x.xmaxUpdateResult curcid tSelf tup = if x.xmaxRuns tup then .beingModified else .ok := by
  split
  case isTrue hr  => exact xmaxUpdateResult_runs (by rw [deletion_none hl]; simp) hr
  case isFalse hr => exact xmaxUpdateResult_ok (not_deleted hl) hr

theorem not_mem_aborted {fate : Fate} (h : x.deletion tup = some fate) (hf : fate = .aborted) :
    ∀ fate ∈ x.deletion tup, fate = .aborted := by
  rw [h]
  rintro _ ⟨⟩
  exact hf

end

-- The updater of a multixact that does not run has been finished.
theorem fate_updater {multi : Nat} (h : ¬x.isRunning multi false) :
    x.fate (x.updater multi) = .committed ∨ x.fate (x.updater multi) = .aborted := by
  have hp : ¬x.inProgress (x.updater multi) := fun hp => h (x.runs_updater multi hp)
  by_cases hd : x.didCommit (x.updater multi)
  case pos => exact .inl (fate_committed_iff.mpr ⟨hp, hd⟩)
  case neg => exact .inr (fate_aborted_iff.mpr ⟨hp, hd⟩)

theorem checkMultiUpdate_eq (h : x.Truthful tup) (hm : heapTupleHas heapXmaxIsMulti tup) :
    ∃ tup', x.Hinted tup tup' ∧
      x.checkMultiUpdate curcid tSelf tup = (x.xmaxUpdateResult curcid tSelf tup, tup') := by
  have hruns := @xmaxRuns_multi x _ hm
  simp only [checkMultiUpdate]
  split
  case isTrue hu  =>
    have hl : heapXmaxIsLockedOnly tup := by
      rw [heapLockedUpgraded, decide_eq_true_iff] at hu
      rw [heapXmaxIsLockedOnly, decide_eq_true_iff]
      exact .inl hu.right.left
    exact ⟨tup, h.hinted_self, by rw [xmaxUpdateResult_locked hl, if_neg (h.upgraded hu)]⟩
  case isFalse hu =>
    split
    case isTrue hl  =>
      rw [hl] at hruns
      rw [xmaxUpdateResult_locked hl, hruns]
      split
      case isTrue hr  => exact ⟨tup, h.hinted_self, rfl⟩
      case isFalse hr =>
        exact ⟨_, h.hinted_xmaxInvalid (by rwa [hruns]) (not_deleted hl), rfl⟩
    case isFalse hl =>
      have hd := @deletion_multi x _ hl hm
      rw [Bool.not_eq_true] at hl
      rw [hl] at hruns
      split
      case isTrue hz  =>
        have hne : x.deletion tup ≠ some .own := by
          rw [hd, hz.left, fate_invalid]
          decide
        exact ⟨tup, h.hinted_self, by rw [xmaxUpdateResult_runs hne (by rw [hruns]; exact hz.right)]⟩
      case isFalse hz =>
        split
        case isTrue hc  =>
          rw [fate_own_iff.mpr hc] at hd
          exact ⟨tup, h.hinted_self, by rw [xmaxUpdateResult_own hd]⟩
        case isFalse hc =>
          have hne : x.deletion tup ≠ some .own := by
            rw [hd]
            exact fun hf => hc (fate_own_iff.mp (Option.some.inj hf))
          split
          case isTrue hr  =>
            exact ⟨tup, h.hinted_self, by rw [xmaxUpdateResult_runs hne (by rw [hruns]; exact hr)]⟩
          case isFalse hr =>
            rw [←hruns] at hr
            have hf := @fate_updater x (heapTupleHeaderGetRawXmax tup) (by rwa [←hruns])
            rw [←heapTupleGetUpdateXid] at hf
            split
            case isTrue hdid  =>
              have hf := hf.resolve_right fun hf => (fate_aborted_iff.mp hf).right hdid
              exact ⟨tup, h.hinted_self, by rw [xmaxUpdateResult_committed (hd.trans (congrArg some hf)) hr]⟩
            case isFalse hdid =>
              have hf := hf.resolve_left fun hf => hdid (fate_committed_iff.mp hf).right
              have ha := not_mem_aborted hd hf
              exact ⟨_, h.hinted_xmaxInvalid hr ha, by rw [xmaxUpdateResult_ok ha hr]⟩

theorem checkXmaxUpdate_eq (curcid : Nat) (tSelf : ItemPointer) (h : x.Truthful tup) : ∃ tup', x.Hinted tup tup' ∧
    x.checkXmaxUpdate curcid tSelf tup = (x.xmaxUpdateResult curcid tSelf tup, tup') := by
  simp only [checkXmaxUpdate]
  split
  case isTrue hi  =>
    have hi := h.xmaxInvalid hi
    exact ⟨tup, h.hinted_self, by rw [xmaxUpdateResult_ok hi.right hi.left]⟩
  case isFalse hi =>
    split
    case isTrue hc  =>
      obtain ⟨hl, hm, hf⟩ := h.xmaxCommitted hc
      have hr : ¬x.xmaxRuns tup := by
        rw [xmaxRuns_single hm]
        exact (fate_committed_iff.mp hf).left
      refine ⟨tup, h.hinted_self, ?_⟩
      rw [if_neg hl, xmaxUpdateResult_committed ((deletion_single hl hm).trans (congrArg some hf)) hr]
    case isFalse hc =>
      split
      case isTrue hm  => exact checkMultiUpdate_eq h hm
      case isFalse hm =>
        have hruns := @xmaxRuns_single x _ hm
        split
        case isTrue hcur  =>
          refine ⟨tup, h.hinted_self, ?_⟩
          have hr : x.xmaxRuns tup := by
            rw [hruns]
            exact x.current _ hcur
          split
          case isTrue hl  => rw [xmaxUpdateResult_locked hl, if_pos hr]
          case isFalse hl =>
            have hd := (@deletion_single x _ hl hm).trans (congrArg some (fate_own_iff.mpr hcur))
            rw [xmaxUpdateResult_own hd]
        case isFalse hcur =>
          have hne : x.deletion tup ≠ some .own := by
            by_cases hl : heapXmaxIsLockedOnly tup
            case pos => rw [deletion_none hl]; simp
            case neg =>
              rw [deletion_single hl hm]
              exact fun hf => hcur (fate_own_iff.mp (Option.some.inj hf))
          split
          case isTrue hp  =>
            exact ⟨tup, h.hinted_self, by rw [xmaxUpdateResult_runs hne (by rw [hruns]; exact hp)]⟩
          case isFalse hp =>
            have hr : ¬x.xmaxRuns tup := by rwa [hruns]
            split
            case isTrue hdid  =>
              have ha : ∀ fate ∈ x.deletion tup, fate = .aborted := by
                by_cases hl : heapXmaxIsLockedOnly tup
                case pos => exact not_deleted hl
                case neg => exact not_mem_aborted (deletion_single hl hm) (fate_aborted_iff.mpr ⟨hp, hdid⟩)
              exact ⟨_, h.hinted_xmaxInvalid hr ha, by rw [xmaxUpdateResult_ok ha hr]⟩
            case isFalse hdid =>
              split
              case isTrue hl  =>
                exact ⟨_, h.hinted_goneXmax hm hp (.inl hl), by rw [xmaxUpdateResult_locked hl, if_neg hr]⟩
              case isFalse hl =>
                have hf := fate_committed_iff.mpr ⟨hp, not_not.mp hdid⟩
                have hd := (@deletion_single x _ hl hm).trans (congrArg some hf)
                have hh := @Truthful.hinted_xmaxCommitted x tup (heapTupleHeaderGetRawXmax tup) h hl hm hf
                refine ⟨_, hh, ?_⟩
                rw [xmaxUpdateResult_committed hd hr, modifiedByOther, modifiedByOther,
                  hh.tCtid_eq (by have := h.length_ge; omega)]

theorem checkOwnXmaxUpdate_eq (curcid : Nat) (tSelf : ItemPointer) (h : x.Truthful tup)
    (ho : x.insertion tup = .own) : ∃ tup', x.Hinted tup tup' ∧
    x.checkOwnXmaxUpdate curcid tup =
      (if x.heapTupleHeaderGetCmin tup ≥ curcid then .invisible else x.xmaxUpdateResult curcid tSelf tup, tup') := by
  have hown := h.own ho
  simp only [checkOwnXmaxUpdate]
  split
  case isTrue  => exact ⟨tup, h.hinted_self, rfl⟩
  case isFalse =>
    split
    case isTrue hi  =>
      have hi := h.xmaxInvalid hi
      exact ⟨tup, h.hinted_self, by rw [xmaxUpdateResult_ok hi.right hi.left]⟩
    case isFalse hi =>
      split
      case isTrue hl  =>
        refine ⟨tup, h.hinted_self, ?_⟩
        rw [xmaxUpdateResult_locked hl]
        split
        case isTrue hm  => rw [xmaxRuns_multi hm, hl]
        case isFalse hm =>
          rw [xmaxRuns_single hm]
          cases x.inProgress (heapTupleHeaderGetRawXmax tup) <;> rfl
      case isFalse hl =>
        split
        case isTrue hm  =>
          refine ⟨tup, h.hinted_self, ?_⟩
          have hd := @deletion_multi x _ hl hm
          have hruns := @xmaxRuns_multi x _ hm
          rw [Bool.not_eq_true] at hl
          rw [hl] at hruns
          split
          case isTrue hc  =>
            rw [hd] at hown
            have ha := (hown _ rfl).resolve_left fun hf => hc (fate_own_iff.mp hf)
            split
            case isTrue hr  =>
              have hne : x.deletion tup ≠ some .own := by
                rw [hd, ha]
                decide
              rw [xmaxUpdateResult_runs hne (by rw [hruns]; exact hr)]
            case isFalse hr => rw [xmaxUpdateResult_ok (not_mem_aborted hd ha) (by rwa [hruns])]
          case isFalse hc =>
            rw [xmaxUpdateResult_own (hd.trans (congrArg some (fate_own_iff.mpr (not_not.mp hc))))]
        case isFalse hm =>
          have hd := @deletion_single x _ hl hm
          split
          case isTrue hc  =>
            rw [hd] at hown
            have ha := (hown _ rfl).resolve_left fun hf => hc (fate_own_iff.mp hf)
            have hp := (fate_aborted_iff.mp ha).left
            have hr : ¬x.xmaxRuns tup := by rwa [xmaxRuns_single hm]
            exact ⟨_, h.hinted_xmaxInvalid hr (not_mem_aborted hd ha),
              by rw [xmaxUpdateResult_ok (not_mem_aborted hd ha) hr]⟩
          case isFalse hc =>
            have hd := hd.trans (congrArg some (fate_own_iff.mpr (not_not.mp hc)))
            exact ⟨tup, h.hinted_self, by rw [xmaxUpdateResult_own hd]⟩

theorem Hinted.xmaxUpdateResult_eq {tup' : List UInt8} (h : x.Hinted tup tup') (hl : 20 ≤ tup.length) :
    x.xmaxUpdateResult curcid tSelf tup' = x.xmaxUpdateResult curcid tSelf tup := by
  have hd : x.deletion tup' = x.deletion tup := h.deletionFate_eq hl
  rw [xmaxUpdateResult, xmaxUpdateResult, hd, h.xmaxRuns_eq hl, modifiedByOwn, modifiedByOwn, modifiedByOther,
    modifiedByOther, h.cmax_eq hl, h.tCtid_eq hl]

theorem heapTupleSatisfiesUpdate_eq (curcid : Nat) (tSelf : ItemPointer) (h : x.Truthful tup) :
    ∃ tup', x.Hinted tup tup' ∧
    x.heapTupleSatisfiesUpdate curcid tSelf tup = (x.updateResult curcid tSelf tup, tup') := by
  have hl := h.length_ge
  obtain ⟨tup₁, h₁, he⟩ := checkXmin_now (visibleAnswers TMResult.invisible .invisible) h
  have hins : x.insertion tup₁ = x.insertion tup := h₁.insertionFate_eq (by omega)
  rw [heapTupleSatisfiesUpdate, he, updateResult]
  cases hf : x.insertion tup
  case running   => exact ⟨tup₁, h₁, rfl⟩
  case aborted   => exact ⟨tup₁, h₁, rfl⟩
  case own       =>
    obtain ⟨tup', h', he'⟩ :=
      checkOwnXmaxUpdate_eq curcid tSelf h₁.truthful (hins.trans hf)
    rw [h₁.cmin_eq (by omega), h₁.xmaxUpdateResult_eq (by omega)] at he'
    exact ⟨tup', h₁.trans h' (by omega), he'⟩
  case committed =>
    obtain ⟨tup', h', he'⟩ := checkXmaxUpdate_eq curcid tSelf h₁.truthful
    rw [h₁.xmaxUpdateResult_eq (by omega)] at he'
    exact ⟨tup', h₁.trans h' (by omega), he'⟩

end XactStatus
