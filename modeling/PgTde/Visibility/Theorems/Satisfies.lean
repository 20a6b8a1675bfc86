import PgTde.Visibility.Theorems.Truthful

namespace XactStatus

variable {x : XactStatus} {tup : List UInt8} {α : Type} {running : Nat → Bool} {answers : XminAnswers α}

-- What the checks of t_xmin lead to, if the insertion of the tuple has a certain fate.
def xminResult (answers : XminAnswers α) : Fate → XminCheck α
  | .own       => .own
  | .running   => .returns answers.running
  | .committed => .committed
  | .aborted   => .returns answers.gone

-- A hint of the tuple is only taken for the truth if those transactions count as running that are.
theorem checkXmin_eq (answers : XminAnswers α) (h : x.Truthful tup)
    (hr : ∀ xid, x.inProgress xid → ¬x.isCurrent xid → running xid)
    (hc : heapTupleHeaderXminCommitted tup → ¬heapTupleHeaderXminFrozen tup →
      ¬running (heapTupleHeaderGetRawXmin tup))
    (hi : heapTupleHeaderXminInvalid tup → running (heapTupleHeaderGetRawXmin tup) →
      answers.running = answers.gone) :
    ∃ tup', x.Hinted tup tup' ∧ x.checkXmin running answers tup =
      (xminResult answers (insertionFate (fateOf x.isCurrent running x.didCommit) tup), tup') := by
  have hfrozen := @heapTupleHeaderXminFrozen_eq tup
  by_cases hcommitted : heapTupleHeaderXminCommitted tup
  case pos =>
    refine ⟨tup, h.hinted_self, ?_⟩
    have hins := h.xminCommitted hcommitted
    rw [checkXmin, if_pos hcommitted]
    by_cases hf : heapTupleHeaderXminFrozen tup
    case pos => rw [insertionFate, if_pos hf, xminResult]
    case neg =>
      have hrun := hc hcommitted hf
      rw [insertion, insertionFate, if_neg hf, fate_committed_iff] at hins
      have hcur : ¬x.isCurrent (heapTupleHeaderGetRawXmin tup) := fun hcur => hins.left (x.current _ hcur)
      rw [insertionFate, if_neg hf, fateOf, if_neg hcur, if_neg hrun, if_pos hins.right, xminResult]
  case neg =>
    have hf : ¬heapTupleHeaderXminFrozen tup := by
      rw [hfrozen, Bool.and_eq_true]
      exact fun hf => hcommitted hf.left
    have hins : x.insertion tup = x.fate (heapTupleHeaderGetRawXmin tup) := if_neg hf
    rw [checkXmin, if_neg hcommitted, insertionFate, if_neg hf, fateOf]
    by_cases hinvalid : heapTupleHeaderXminInvalid tup
    case pos =>
      refine ⟨tup, h.hinted_self, ?_⟩
      have ha := fate_aborted_iff.mp (hins.symm.trans (h.xminInvalid hinvalid))
      have hcur : ¬x.isCurrent (heapTupleHeaderGetRawXmin tup) := fun hcur => ha.left (x.current _ hcur)
      rw [if_pos hinvalid, if_neg hcur]
      by_cases hrun : running (heapTupleHeaderGetRawXmin tup)
      case pos => rw [if_pos hrun, xminResult, hi hinvalid hrun]
      case neg => rw [if_neg hrun, if_neg ha.right, xminResult]
    case neg =>
      rw [if_neg hinvalid, heapTupleHas_movedOff h.not_moved, heapTupleHas_movedIn h.not_moved,
        if_neg Bool.false_ne_true, if_neg Bool.false_ne_true]
      by_cases hcur : x.isCurrent (heapTupleHeaderGetRawXmin tup)
      case pos => exact ⟨tup, h.hinted_self, by rw [if_pos hcur, if_pos hcur, xminResult]⟩
      case neg =>
        rw [if_neg hcur, if_neg hcur]
        by_cases hrun : running (heapTupleHeaderGetRawXmin tup)
        case pos => exact ⟨tup, h.hinted_self, by rw [if_pos hrun, if_pos hrun, xminResult]⟩
        case neg =>
          have hprogress : ¬x.inProgress (heapTupleHeaderGetRawXmin tup) := fun hp => hrun (hr _ hp hcur)
          rw [if_neg hrun, if_neg hrun]
          by_cases hdid : x.didCommit (heapTupleHeaderGetRawXmin tup)
          case pos =>
            have hfate := hins.trans (fate_committed_iff.mpr ⟨hprogress, hdid⟩)
            exact ⟨_, h.hinted_xminCommitted hfate, by rw [if_pos hdid, if_pos hdid, xminResult]⟩
          case neg =>
            have hfate := hins.trans (fate_aborted_iff.mpr ⟨hprogress, hdid⟩)
            exact ⟨_, h.hinted_xminInvalid hfate, by rw [if_neg hdid, if_neg hdid, xminResult]⟩

-- The checks of t_xmin as of now.
theorem checkXmin_now (answers : XminAnswers α) (h : x.Truthful tup) : ∃ tup', x.Hinted tup tup' ∧
    x.checkXmin x.inProgress answers tup = (xminResult answers (x.insertion tup), tup') := by
  refine checkXmin_eq answers h (fun _ hp _ => hp) ?_ ?_
  case refine_1 =>
    intro hc hf
    have hins := h.xminCommitted hc
    rw [insertion, insertionFate, if_neg hf] at hins
    exact (fate_committed_iff.mp hins).left
  case refine_2 =>
    intro hi hr
    have hins := h.xminInvalid hi
    have hf : ¬heapTupleHeaderXminFrozen tup := fun hf =>
      absurd (hins.symm.trans (insertionFate_of_frozen hf)) (by decide)
    rw [insertion, insertionFate, if_neg hf] at hins
    exact absurd hr (fate_aborted_iff.mp hins).left

-- What the checks of t_xmax find out about the transaction that has updated or deleted the tuple.
theorem updateXid_none (h : heapXmaxIsLockedOnly tup) : updateXid x.updater tup = none := by
  rw [updateXid, if_pos h]

theorem updateXid_multi (h : ¬heapXmaxIsLockedOnly tup) (hm : heapTupleHas heapXmaxIsMulti tup) :
    updateXid x.updater tup = some (x.heapTupleGetUpdateXid tup) := by
  rw [updateXid, if_neg h, if_pos hm, heapTupleGetUpdateXid]

theorem updateXid_single (h : ¬heapXmaxIsLockedOnly tup) (hm : ¬heapTupleHas heapXmaxIsMulti tup) :
    updateXid x.updater tup = some (heapTupleHeaderGetRawXmax tup) := by
  rw [updateXid, if_neg h, if_neg hm]

theorem deletion_none (h : heapXmaxIsLockedOnly tup) : x.deletion tup = none := by
  rw [deletion, deletionFate, updateXid_none h, Option.map_none]

-- A tuple that is only locked has not been deleted.
theorem not_deleted (h : heapXmaxIsLockedOnly tup) : ∀ fate ∈ x.deletion tup, fate = .aborted := by
  rw [deletion_none h]
  exact fun fate hf => absurd hf (Option.not_mem_none fate)

theorem deletion_multi (h : ¬heapXmaxIsLockedOnly tup) (hm : heapTupleHas heapXmaxIsMulti tup) :
    x.deletion tup = some (x.fate (x.heapTupleGetUpdateXid tup)) := by
  rw [deletion, deletionFate, updateXid_multi h hm, Option.map_some]

theorem deletion_single (h : ¬heapXmaxIsLockedOnly tup) (hm : ¬heapTupleHas heapXmaxIsMulti tup) :
    x.deletion tup = some (x.fate (heapTupleHeaderGetRawXmax tup)) := by
  rw [deletion, deletionFate, updateXid_single h hm, Option.map_some]

theorem xmaxRuns_single (hm : ¬heapTupleHas heapXmaxIsMulti tup) :
    x.xmaxRuns tup = x.inProgress (heapTupleHeaderGetRawXmax tup) :=
  if_neg hm

theorem xmaxRuns_multi (hm : heapTupleHas heapXmaxIsMulti tup) :
    x.xmaxRuns tup = x.isRunning (heapTupleHeaderGetRawXmax tup) (heapXmaxIsLockedOnly tup) :=
  if_pos hm

-- An own tuple is visible unless it has been deleted by the own transaction.
theorem checkOwnXmax_eq (visible deleted : α) (h : x.Truthful tup) (ho : x.insertion tup = .own) :
    ∃ tup', x.Hinted tup tup' ∧ x.checkOwnXmax visible deleted tup =
      (if x.deletion tup = some .own then deleted else visible, tup') := by
  have hown := h.own ho
  rw [checkOwnXmax]
  split
  case isTrue hi  =>
    have hd : x.deletion tup ≠ some .own := fun hd => absurd ((h.xmaxInvalid hi).right _ hd) (by decide)
    exact ⟨tup, h.hinted_self, by rw [if_neg hd]⟩
  case isFalse hi =>
    split
    case isTrue hl  => exact ⟨tup, h.hinted_self, by rw [deletion_none hl, if_neg (by simp)]⟩
    case isFalse hl =>
      split
      case isTrue hm  =>
        have hd := @deletion_multi x _ hl hm
        split
        case isTrue hc  =>
          have hne : x.deletion tup ≠ some .own := by
            rw [hd]
            exact fun hf => hc (fate_own_iff.mp (Option.some.inj hf))
          exact ⟨tup, h.hinted_self, by rw [if_neg hne]⟩
        case isFalse hc =>
          exact ⟨tup, h.hinted_self, by rw [hd, fate_own_iff.mpr (not_not.mp hc), if_pos rfl]⟩
      case isFalse hm =>
        have hd := @deletion_single x _ hl hm
        rw [hd] at hown ⊢
        split
        case isTrue hc  =>
          have ha := (hown _ rfl).resolve_left fun hf => hc (fate_own_iff.mp hf)
          refine ⟨_, h.hinted_xmaxInvalid ?_ ?_, by rw [ha, if_neg (by decide)]⟩
          · rw [xmaxRuns_single hm]
            exact (fate_aborted_iff.mp ha).left
          · rw [hd]
            rintro _ ⟨⟩
            exact ha
        case isFalse hc =>
          exact ⟨tup, h.hinted_self, by rw [fate_own_iff.mpr (not_not.mp hc), if_pos rfl]⟩

-- The hint that a single transaction in t_xmax has gone.
theorem Truthful.hinted_goneXmax {xid : Nat} (h : x.Truthful tup) (hm : ¬heapTupleHas heapXmaxIsMulti tup)
    (hp : ¬x.inProgress (heapTupleHeaderGetRawXmax tup))
    (hd : heapXmaxIsLockedOnly tup ∨ ¬x.didCommit (heapTupleHeaderGetRawXmax tup)) :
    x.Hinted tup (x.setHintBits heapXmaxInvalid xid tup) := by
  apply h.hinted_xmaxInvalid
  case hr => rwa [xmaxRuns_single hm]
  case hd =>
    by_cases hl : heapXmaxIsLockedOnly tup
    case pos => exact not_deleted hl
    case neg =>
      rw [deletion_single hl hm, fate_aborted_iff.mpr ⟨hp, hd.resolve_left hl⟩]
      rintro _ ⟨⟩
      rfl

def fateResult (visible invisible deleting : α) : Fate → α
  | .own | .committed => invisible
  | .running          => deleting
  | .aborted          => visible

-- The result of the checks of t_xmax as of now.
def xmaxResult (x : XactStatus) (visible invisible : α) (deleting : Nat → α) (tup : List UInt8) : α :=
  match updateXid x.updater tup with
  | none     => visible
  | some xid => fateResult visible invisible (deleting xid) (x.fate xid)

theorem xmaxResult_of_fate {visible invisible : α} {deleting : Nat → α} {xid : Nat} {fate : Fate}
    (hx : updateXid x.updater tup = some xid) (hf : x.fate xid = fate) :
    x.xmaxResult visible invisible deleting tup = fateResult visible invisible (deleting xid) fate := by
  rw [xmaxResult, hx, ←hf]

theorem xmaxResult_none {visible invisible : α} {deleting : Nat → α} (h : heapXmaxIsLockedOnly tup) :
    x.xmaxResult visible invisible deleting tup = visible := by
  rw [xmaxResult, updateXid_none h]

-- A transaction in t_xmax that has gone, according to a hint.
theorem xmaxResult_invalid {visible invisible : α} {deleting : Nat → α} (h : x.Truthful tup)
    (hi : heapTupleHas heapXmaxInvalid tup) : x.xmaxResult visible invisible deleting tup = visible := by
  have hd := (h.xmaxInvalid hi).right
  rw [deletion, deletionFate] at hd
  rw [xmaxResult]
  cases hx : updateXid x.updater tup
  case none     => rfl
  case some xid =>
    rw [hx] at hd
    have hf : x.fate xid = .aborted := hd _ rfl
    simp only [hf, fateResult]

theorem checkXmaxNow_eq {visible invisible : α} {deleting : Nat → α} (h : x.Truthful tup) :
    ∃ tup', x.Hinted tup tup' ∧ x.checkXmaxNow visible invisible deleting tup =
      (x.xmaxResult visible invisible deleting tup, tup') := by
  simp only [checkXmaxNow]
  split
  case isTrue hi  => exact ⟨tup, h.hinted_self, by rw [xmaxResult_invalid h hi]⟩
  case isFalse hi =>
    split
    case isTrue hc  =>
      refine ⟨tup, h.hinted_self, ?_⟩
      obtain ⟨hl, hm, hf⟩ := h.xmaxCommitted hc
      rw [if_neg hl, xmaxResult_of_fate (updateXid_single hl hm) hf, fateResult]
    case isFalse hc =>
      split
      case isTrue hm  =>
        refine ⟨tup, h.hinted_self, ?_⟩
        split
        case isTrue hl  => rw [xmaxResult_none hl]
        case isFalse hl =>
          have hx := @updateXid_multi x _ hl hm
          split
          case isTrue hcur  => rw [xmaxResult_of_fate hx (fate_own_iff.mpr hcur), fateResult]
          case isFalse hcur =>
            split
            case isTrue hp  => rw [xmaxResult_of_fate hx (fate_running_iff.mpr ⟨hcur, hp⟩), fateResult]
            case isFalse hp =>
              split
              case isTrue hd  => rw [xmaxResult_of_fate hx (fate_committed_iff.mpr ⟨hp, hd⟩), fateResult]
              case isFalse hd => rw [xmaxResult_of_fate hx (fate_aborted_iff.mpr ⟨hp, hd⟩), fateResult]
      case isFalse hm =>
        split
        case isTrue hcur  =>
          refine ⟨tup, h.hinted_self, ?_⟩
          split
          case isTrue hl  => rw [xmaxResult_none hl]
          case isFalse hl => rw [xmaxResult_of_fate (updateXid_single hl hm) (fate_own_iff.mpr hcur), fateResult]
        case isFalse hcur =>
          split
          case isTrue hp  =>
            refine ⟨tup, h.hinted_self, ?_⟩
            split
            case isTrue hl  => rw [xmaxResult_none hl]
            case isFalse hl =>
              rw [xmaxResult_of_fate (updateXid_single hl hm) (fate_running_iff.mpr ⟨hcur, hp⟩), fateResult]
          case isFalse hp =>
            split
            case isTrue hd  =>
              have hr : x.xmaxResult visible invisible deleting tup = visible := by
                by_cases hl : heapXmaxIsLockedOnly tup
                case pos => rw [xmaxResult_none hl]
                case neg =>
                  rw [xmaxResult_of_fate (updateXid_single hl hm) (fate_aborted_iff.mpr ⟨hp, hd⟩), fateResult]
              exact ⟨_, h.hinted_goneXmax hm hp (.inr hd), by rw [hr]⟩
            case isFalse hd =>
              have hf := fate_committed_iff.mpr ⟨hp, not_not.mp hd⟩
              split
              case isTrue hl  => exact ⟨_, h.hinted_goneXmax hm hp (.inl hl), by rw [xmaxResult_none hl]⟩
              case isFalse hl =>
                exact ⟨_, h.hinted_xmaxCommitted hl hm hf, by
                  rw [xmaxResult_of_fate (updateXid_single hl hm) hf, fateResult]⟩

-- The result of a test as of now.
def nowResult (x : XactStatus) (answers : XminAnswers α) (visible invisible : α) (deleting : Nat → α)
    (tup : List UInt8) : α :=
  match x.insertion tup with
  | .own       => if x.deletion tup = some .own then invisible else visible
  | .running   => answers.running
  | .committed => x.xmaxResult visible invisible deleting tup
  | .aborted   => answers.gone

theorem Hinted.xmaxResult_eq {tup' : List UInt8} {visible invisible : α} {deleting : Nat → α}
    (h : x.Hinted tup tup') (hl : 20 ≤ tup.length) :
    x.xmaxResult visible invisible deleting tup' = x.xmaxResult visible invisible deleting tup := by
  rw [xmaxResult, xmaxResult, h.updateXid_eq hl]

theorem satisfiesNow_eq {visible invisible : α} {deleting : Nat → α} (h : x.Truthful tup) :
    ∃ tup', x.Hinted tup tup' ∧
      x.satisfiesNow visible invisible deleting (x.checkXmin x.inProgress answers tup) =
        (x.nowResult answers visible invisible deleting tup, tup') := by
  have hl := h.length_ge
  obtain ⟨tup₁, h₁, he⟩ := checkXmin_now answers h
  have hins : x.insertion tup₁ = x.insertion tup := h₁.insertionFate_eq (by omega)
  have hdel : x.deletion tup₁ = x.deletion tup := h₁.deletionFate_eq (by omega)
  rw [he, nowResult]
  cases hf : x.insertion tup
  case running   => exact ⟨tup₁, h₁, rfl⟩
  case aborted   => exact ⟨tup₁, h₁, rfl⟩
  case own       =>
    obtain ⟨tup', h', he'⟩ := checkOwnXmax_eq visible invisible h₁.truthful (hins.trans hf)
    rw [hdel] at he'
    exact ⟨tup', h₁.trans h' (by omega), he'⟩
  case committed =>
    obtain ⟨tup', h', he'⟩ := @checkXmaxNow_eq x tup₁ α visible invisible deleting h₁.truthful
    rw [h₁.xmaxResult_eq (by omega)] at he'
    exact ⟨tup', h₁.trans h' (by omega), he'⟩

-- Whether a tuple is visible now.
theorem nowResult_self (h : x.Truthful tup) :
    x.nowResult (visibleAnswers false false) true false (fun _ => true) tup = decide (x.VisibleNow tup) := by
  have hown := h.own
  rw [Bool.eq_iff_iff, decide_eq_true_iff, VisibleNow, nowResult, deletion, deletionFate, xmaxResult]
  rw [deletion, deletionFate] at hown
  cases hi : x.insertion tup <;> cases hx : updateXid x.updater tup
  case own.some xid       =>
    rw [hx] at hown
    obtain hf | hf := hown hi _ rfl
    · simp [Fate.Counts, hf]
    · simp [Fate.Counts, hf]
  case committed.some xid => cases hf : x.fate xid <;> simp [Fate.Counts, fateResult, hf]
  all_goals simp [Fate.Counts, visibleAnswers]

theorem heapTupleSatisfiesSelf_eq (h : x.Truthful tup) : ∃ tup', x.Hinted tup tup' ∧
    x.heapTupleSatisfiesSelf tup = (decide (x.VisibleNow tup), tup') := by
  rw [←nowResult_self h]
  exact satisfiesNow_eq h

theorem heapTupleSatisfiesDirty_eq (h : x.Truthful tup) : ∃ tup', x.Hinted tup tup' ∧
    x.heapTupleSatisfiesDirty tup =
      (x.nowResult (visibleAnswers (.plain false) (.inserting tup)) (.plain true) (.plain false)
        (fun xmax => { DirtyResult.plain true with xmax }) tup, tup') :=
  satisfiesNow_eq h

end XactStatus

namespace MvccSnapshot

open XactStatus

variable {x : XactStatus} {tup : List UInt8} {snapshot : MvccSnapshot x} {xid : Nat}

-- The transactions that have been finished have been so for good.
theorem fate_eq_or : snapshot.fate xid = .running ∨ snapshot.fate xid = x.fate xid := by
  have hr := snapshot.running xid
  simp only [MvccSnapshot.fate, XactStatus.fate, fateOf]
  by_cases hc : x.isCurrent xid <;> by_cases hs : snapshot.contains xid <;> by_cases hp : x.inProgress xid <;>
    simp_all

theorem fate_own_iff : snapshot.fate xid = .own ↔ x.isCurrent xid :=
  fateOf_own_iff

theorem fate_running (hc : ¬x.isCurrent xid) (hs : snapshot.contains xid) : snapshot.fate xid = .running :=
  fateOf_running_iff.mpr ⟨hc, hs⟩

theorem fate_eq (hs : ¬snapshot.contains xid) : snapshot.fate xid = x.fate xid := by
  refine snapshot.fate_eq_or.resolve_left fun hf => ?_
  exact hs (fateOf_running_iff.mp hf).right

theorem not_seesDeletion_none (h : heapXmaxIsLockedOnly tup) : ¬snapshot.SeesDeletion tup := by
  rw [SeesDeletion, deletionFate, updateXid_none h]
  simp

theorem seesDeletion_iff (h : updateXid x.updater tup = some xid) : snapshot.SeesDeletion tup ↔
    snapshot.fate xid = .committed ∨ snapshot.fate xid = .own ∧ x.heapTupleHeaderGetCmax tup < snapshot.curcid := by
  rw [SeesDeletion, deletionFate, h]
  simp

-- The deletion by a transaction that has been aborted is not seen.
theorem not_seesDeletion_aborted (h : updateXid x.updater tup = some xid) (hf : x.fate xid = .aborted) :
    ¬snapshot.SeesDeletion tup := by
  have hs := @fate_eq_or x snapshot xid
  rw [hf] at hs
  rw [seesDeletion_iff h]
  obtain hs | hs := hs <;> simp [hs]

theorem not_seesDeletion_invalid (h : x.Truthful tup) (hi : heapTupleHas heapXmaxInvalid tup) :
    ¬snapshot.SeesDeletion tup := by
  have hd := (h.xmaxInvalid hi).right
  rw [deletion, deletionFate] at hd
  cases hx : updateXid x.updater tup
  case none     => simp [SeesDeletion, deletionFate, hx]
  case some xid =>
    rw [hx] at hd
    exact not_seesDeletion_aborted hx (hd _ rfl)

theorem seesDeletion_own (h : updateXid x.updater tup = some xid) (hc : x.isCurrent xid) :
    snapshot.deletedByOwn tup = decide (¬snapshot.SeesDeletion tup) := by
  rw [Bool.eq_iff_iff, decide_eq_true_iff, seesDeletion_iff h, fate_own_iff.mpr hc, deletedByOwn]
  simp

theorem not_seesDeletion_running (h : updateXid x.updater tup = some xid) (hc : ¬x.isCurrent xid)
    (hs : snapshot.contains xid) : ¬snapshot.SeesDeletion tup := by
  rw [seesDeletion_iff h, fate_running hc hs]
  simp

theorem seesDeletion_committed (h : updateXid x.updater tup = some xid) (hs : ¬snapshot.contains xid)
    (hf : x.fate xid = .committed) : snapshot.SeesDeletion tup := by
  rw [seesDeletion_iff h, fate_eq hs, hf]
  exact .inl rfl

theorem checkXmax_eq (h : x.Truthful tup) : ∃ tup', x.Hinted tup tup' ∧
    snapshot.checkXmax tup = (decide (¬snapshot.SeesDeletion tup), tup') := by
  simp only [checkXmax]
  split
  case isTrue hi  => exact ⟨tup, h.hinted_self, by rw [decide_eq_true (not_seesDeletion_invalid h hi)]⟩
  case isFalse hi =>
    split
    case isTrue hl  => exact ⟨tup, h.hinted_self, by rw [decide_eq_true (not_seesDeletion_none hl)]⟩
    case isFalse hl =>
      split
      case isTrue hm  =>
        refine ⟨tup, h.hinted_self, ?_⟩
        have hx := @updateXid_multi x _ hl hm
        split
        case isTrue hc  => rw [seesDeletion_own hx hc]
        case isFalse hc =>
          split
          case isTrue hs  => rw [decide_eq_true (not_seesDeletion_running hx hc hs)]
          case isFalse hs =>
            have hp : ¬x.inProgress _ := fun hp => hs (snapshot.running _ hp hc)
            split
            case isTrue hd  =>
              rw [decide_eq_false (not_not.mpr (seesDeletion_committed hx hs (fate_committed_iff.mpr ⟨hp, hd⟩)))]
            case isFalse hd =>
              rw [decide_eq_true (not_seesDeletion_aborted hx (fate_aborted_iff.mpr ⟨hp, hd⟩))]
      case isFalse hm =>
        have hx := @updateXid_single x _ hl hm
        split
        case isTrue hxc  =>
          split
          case isTrue hc  => exact ⟨tup, h.hinted_self, by rw [seesDeletion_own hx hc]⟩
          case isFalse hc =>
            split
            case isTrue hs  =>
              exact ⟨tup, h.hinted_self, by rw [decide_eq_true (not_seesDeletion_running hx hc hs)]⟩
            case isFalse hs =>
              have hp : ¬x.inProgress _ := fun hp => hs (snapshot.running _ hp hc)
              split
              case isTrue hd  =>
                have hn : ¬snapshot.SeesDeletion tup := not_seesDeletion_aborted hx (fate_aborted_iff.mpr ⟨hp, hd⟩)
                exact ⟨_, h.hinted_goneXmax hm hp (.inr hd), by rw [decide_eq_true hn]⟩
              case isFalse hd =>
                have hf := fate_committed_iff.mpr ⟨hp, not_not.mp hd⟩
                have hn : ¬¬snapshot.SeesDeletion tup := not_not.mpr (seesDeletion_committed hx hs hf)
                exact ⟨_, h.hinted_xmaxCommitted hl hm hf, by rw [decide_eq_false hn]⟩
        case isFalse hxc =>
          refine ⟨tup, h.hinted_self, ?_⟩
          obtain ⟨-, -, hf⟩ := h.xmaxCommitted (by rwa [not_not] at hxc)
          have hc : ¬x.isCurrent _ := fun hc => (fate_committed_iff.mp hf).left (x.current _ hc)
          split
          case isTrue hs  => rw [decide_eq_true (not_seesDeletion_running hx hc hs)]
          case isFalse hs => rw [decide_eq_false (not_not.mpr (seesDeletion_committed hx hs hf))]

theorem insertionFate_own_iff :
    insertionFate snapshot.fate tup = .own ↔ x.insertion tup = .own := by
  rw [insertion, insertionFate, insertionFate]
  split
  case isTrue  => exact .rfl
  case isFalse => rw [fate_own_iff, XactStatus.fate_own_iff]

-- A tuple of another transaction that the snapshot does not see yet, whatever its hints are.
theorem not_seesInsertion_running (h : x.Truthful tup) (hc : heapTupleHeaderXminCommitted tup)
    (hf : ¬heapTupleHeaderXminFrozen tup) (hs : snapshot.contains (heapTupleHeaderGetRawXmin tup)) :
    ¬snapshot.SeesInsertion tup := by
  have hins := h.xminCommitted hc
  rw [insertion, insertionFate, if_neg hf] at hins
  have hcur : ¬x.isCurrent _ := fun hcur => (fate_committed_iff.mp hins).left (x.current _ hcur)
  rw [SeesInsertion, insertionFate, if_neg hf, fate_running hcur hs]
  simp

theorem Hinted.seesDeletion_iff {tup' : List UInt8} (h : x.Hinted tup tup') (hl : 20 ≤ tup.length) :
    snapshot.SeesDeletion tup' ↔ snapshot.SeesDeletion tup := by
  rw [SeesDeletion, SeesDeletion, h.deletionFate_eq hl, h.cmax_eq hl]

-- An own tuple is deleted by the own transaction only.
theorem checkOwnXmax_eq (h : x.Truthful tup) (ho : x.insertion tup = .own) : ∃ tup', x.Hinted tup tup' ∧
    x.checkOwnXmax true (snapshot.deletedByOwn tup) tup = (decide (¬snapshot.SeesDeletion tup), tup') := by
  obtain ⟨tup', h', he⟩ := XactStatus.checkOwnXmax_eq true (snapshot.deletedByOwn tup) h ho
  refine ⟨tup', h', he.trans (Prod.ext ?_ rfl)⟩
  have hown := h.own ho
  rw [deletion, deletionFate] at hown ⊢
  cases hx : updateXid x.updater tup
  case none     => simp [SeesDeletion, deletionFate, hx]
  case some xid =>
    rw [hx] at hown
    obtain hf | hf := hown _ rfl
    case inl =>
      rw [Option.map_some, hf, if_pos rfl]
      exact seesDeletion_own hx (XactStatus.fate_own_iff.mp hf)
    case inr =>
      rw [Option.map_some, hf, if_neg (by decide), decide_eq_true (not_seesDeletion_aborted hx hf)]

theorem heapTupleSatisfiesMVCC_eq (h : x.Truthful tup) : ∃ tup', x.Hinted tup tup' ∧
    snapshot.heapTupleSatisfiesMVCC tup = (decide (snapshot.Visible tup), tup') := by
  have hl := h.length_ge
  rw [heapTupleSatisfiesMVCC]
  split
  case isTrue hs  =>
    obtain ⟨hc, hf, hs⟩ := hs
    have hv : ¬snapshot.Visible tup := fun hv => not_seesInsertion_running h hc hf hs hv.left
    exact ⟨tup, h.hinted_self, by rw [decide_eq_false hv]⟩
  case isFalse hs =>
    obtain ⟨tup₁, h₁, he⟩ := checkXmin_eq (visibleAnswers false false) h snapshot.running
      (fun hc hf hr => hs ⟨hc, hf, hr⟩) (fun _ _ => rfl)
    have hv : snapshot.Visible tup ↔ snapshot.SeesInsertion tup ∧ ¬snapshot.SeesDeletion tup₁ := by
      rw [Visible, Hinted.seesDeletion_iff h₁ (by omega)]
    have hfate : fateOf x.isCurrent snapshot.contains x.didCommit = snapshot.fate := rfl
    have hd : decide (snapshot.Visible tup) = decide (snapshot.SeesInsertion tup ∧ ¬snapshot.SeesDeletion tup₁) :=
      decide_eq_decide.mpr hv
    rw [he, hd, hfate]
    cases hf : insertionFate snapshot.fate tup
    case running   => exact ⟨tup₁, h₁, by simp [xminResult, visibleAnswers, SeesInsertion, hf]⟩
    case aborted   => exact ⟨tup₁, h₁, by simp [xminResult, visibleAnswers, SeesInsertion, hf]⟩
    case committed =>
      obtain ⟨tup', h', he'⟩ := snapshot.checkXmax_eq h₁.truthful
      refine ⟨tup', h₁.trans h' (by omega), ?_⟩
      simp [xminResult, he', SeesInsertion, hf]
    case own       =>
      have ho : x.insertion tup₁ = .own := (h₁.insertionFate_eq (by omega)).trans (insertionFate_own_iff.mp hf)
      have hcmin := h₁.cmin_eq (by omega)
      simp only [xminResult, hcmin]
      split
      case isTrue hcid  => exact ⟨tup₁, h₁, by simp [SeesInsertion, hf, hcid]⟩
      case isFalse hcid =>
        obtain ⟨tup', h', he'⟩ := snapshot.checkOwnXmax_eq h₁.truthful ho
        refine ⟨tup', h₁.trans h' (by omega), ?_⟩
        rw [he']
        simp [SeesInsertion, hf, Nat.not_le.mp hcid]

end MvccSnapshot
