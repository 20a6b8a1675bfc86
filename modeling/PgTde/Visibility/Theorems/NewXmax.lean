import PgTde.Visibility.Theorems.Xmax

theorem multiXactIdGetUpdateXid_eq {members : List MultiXactMember} {m : MultiXactMember} (hm : m ∈ members)
    (hu : m.status.isUpdate)
    (h : ∀ m₁ ∈ members, ∀ m₂ ∈ members, m₁.status.isUpdate → m₂.status.isUpdate → m₁.xid = m₂.xid) :
    multiXactIdGetUpdateXid members = m.xid := by
  rw [multiXactIdGetUpdateXid]
  cases hf : members.find? (·.status.isUpdate)
  case none    => exact absurd hu (List.find?_eq_none.mp hf m hm)
  case some m' =>
    have hu' := @List.find?_some _ (fun m : MultiXactMember => m.status.isUpdate) _ _ hf
    exact h _ (List.mem_of_find?_eq_some hf) _ hm hu' hu

theorem oldStatus_isUpdate {tup : List UInt8} {status : MultiXactStatus} (h : oldStatus tup = some status) :
    status.isUpdate = !heapXmaxIsLockedOnly tup := by
  rw [oldStatus] at h
  cases hl : heapXmaxIsLockedOnly tup
  case false =>
    rw [hl, if_neg Bool.false_ne_true, oldUpdateStatus, Option.some.injEq] at h
    subst h
    split <;> rfl
  case true  =>
    rw [hl, if_pos rfl] at h
    simp only at h
    split at h
    · cases h; rfl
    · split at h
      · cases h; rfl
      · split at h
        · rw [Option.some.injEq] at h
          subst h
          split <;> rfl
        · cases h

theorem oldStatus_ne_none {tup : List UInt8} (h : heapXmaxIsLockedOnly tup →
    tInfomask tup &&& heapLockMask = heapXmaxKeyshrLock ∨ tInfomask tup &&& heapLockMask = heapXmaxShrLock ∨
    tInfomask tup &&& heapLockMask = heapXmaxExclLock) : oldStatus tup ≠ none := by
  rw [oldStatus]
  split
  case isFalse   => simp
  case isTrue hl =>
    have h := h hl
    simp only
    split
    · simp
    · split
      · simp
      · split
        · simp
        · tauto

theorem oldUpdateStatus_isUpdate {tup : List UInt8} : (oldUpdateStatus tup).isUpdate := by
  rw [oldUpdateStatus]
  split <;> rfl

theorem getMxactStatusForLock_isUpdate {mode : TupleLock} {isUpdate : Bool} {status : MultiXactStatus}
    (h : getMxactStatusForLock mode isUpdate = .ok status) : status.isUpdate = isUpdate := by
  cases mode <;> cases isUpdate <;> cases h <;> rfl

namespace MultiXacts

open XactStatus

variable {x : XactStatus} {multis : MultiXacts x} {tup : List UInt8} {add : Nat} {mode : TupleLock} {isUpdate : Bool}
variable {new : NewXmax}

-- How a transaction is added to t_xmax: it is the only one there, or it joins those that are still of interest.
inductive Adds (multis : MultiXacts x) (tup : List UInt8) (add : Nat) (isUpdate : Bool) : NewXmax → Prop
  | alone (mode : TupleLock) :
    (∀ u ∈ xmaxXids multis.members tup, x.inProgress u → u = add) →
    (∀ fate ∈ x.deletion tup, fate = .aborted) →
    Adds multis tup add isUpdate (newLocker add mode isUpdate)
  | joined (multi : Nat) (status : MultiXactStatus) :
    status.isUpdate = isUpdate →
    ⟨add, status⟩ ∈ multis.members' multi →
    (∀ u ∈ xmaxXids multis.members tup, x.inProgress u → u ∈ (multis.members' multi).map (·.xid)) →
    (∀ m ∈ multis.members' multi, m = ⟨add, status⟩ ∨ m.xid ∈ xmaxXids multis.members tup) →
    (∀ m ∈ multis.members' multi, m.status.isUpdate →
      m = ⟨add, status⟩ ∨ ¬isUpdate ∧ updateXid x.updater tup = some m.xid) →
    (∀ u, updateXid x.updater tup = some u → x.fate u ≠ .aborted →
      ∃ m ∈ multis.members' multi, m.status.isUpdate ∧ m.xid = u) →
    Adds multis tup add isUpdate (multis.newMulti multi)

theorem Adds.infomask (h : multis.Adds tup add isUpdate new) : new.infomask &&& ~~~heapXmaxBits = 0 := by
  cases h
  case alone mode _ _ =>
    rw [newLocker]
    split
    · exact UInt16.zero_and
    · exact lockBits_cases (fun m => (heapXmaxLockOnly ||| m) &&& ~~~heapXmaxBits = 0) (by decide) (by decide)
        (by decide)
  case joined multi _ _ _ _ _ _ _ =>
    refine getMultiXactIdHintBits_cases _ (fun m => m &&& ~~~heapXmaxBits = 0) (fun _ mode => ?_) fun _ mode => ?_
    · exact lockBits_cases (fun m => (heapXmaxIsMulti ||| m) &&& ~~~heapXmaxBits = 0) (by decide) (by decide)
        (by decide)
    · exact lockBits_cases (fun m => (heapXmaxIsMulti ||| m ||| heapXmaxLockOnly) &&& ~~~heapXmaxBits = 0)
        (by decide) (by decide) (by decide)

theorem not_inProgress (h : ¬x.xmaxRuns tup) : ∀ u ∈ xmaxXids multis.members tup, ¬x.inProgress u := by
  intro u hu
  simp only [xmaxXids] at hu
  split at hu
  case isTrue hm  =>
    obtain ⟨m, hm', rfl⟩ := List.mem_map.mp hu
    rw [xmaxRuns_multi hm, multis.running] at h
    exact fun hp => h (List.any_eq_true.mpr ⟨m, hm', hp⟩)
  case isFalse hm =>
    rw [List.mem_singleton] at hu
    rwa [xmaxRuns_single hm, ←hu] at h

-- The transactions in t_xmax are of no interest any more.
theorem Adds.gone (hr : ¬x.xmaxRuns tup) (hd : ∀ fate ∈ x.deletion tup, fate = .aborted) :
    multis.Adds tup add isUpdate (newLocker add mode isUpdate) :=
  .alone mode (fun u hu hp => absurd hp (not_inProgress hr u hu)) hd

theorem createNew_adds {status : MultiXactStatus} (hm : ¬heapTupleHas heapXmaxIsMulti tup)
    (hs : status.isUpdate = !heapXmaxIsLockedOnly tup) (hg : isUpdate → heapXmaxIsLockedOnly tup)
    (he : multis.createNew tup status add mode isUpdate = .ok new) : multis.Adds tup add isUpdate new := by
  rw [createNew] at he
  obtain ⟨newStatus, hns, he⟩ := Outcome.bind_eq_ok_iff.mp he
  have hns := getMxactStatusForLock_isUpdate hns
  obtain ⟨multi, hmulti, he⟩ := Outcome.bind_eq_ok_iff.mp he
  cases he
  have hp := multis.created _ _ multi hmulti
  have hxids : xmaxXids multis.members tup = [heapTupleHeaderGetRawXmax tup] := if_neg hm
  refine .joined _ newStatus hns (hp.mem_iff.mpr (by simp)) ?_ ?_ ?_ ?_
  case refine_1 =>
    intro u hu _
    rw [hxids, List.mem_singleton] at hu
    subst hu
    exact List.mem_map.mpr ⟨_, hp.mem_iff.mpr List.mem_cons_self, rfl⟩
  case refine_2 =>
    intro m hmem
    have hmem := hp.mem_iff.mp hmem
    rw [List.mem_pair] at hmem
    obtain rfl | rfl := hmem
    · exact .inr (by rw [hxids]; exact List.mem_singleton_self _)
    · exact .inl rfl
  case refine_3 =>
    intro m hmem hu
    have hmem := hp.mem_iff.mp hmem
    rw [List.mem_pair] at hmem
    obtain rfl | rfl := hmem
    · rw [hs, Bool.not_eq_true'] at hu
      have hl : ¬heapXmaxIsLockedOnly tup := by simp [hu]
      exact .inr ⟨fun hup => hl (hg hup), updateXid_single hl hm⟩
    · exact .inl rfl
  case refine_4 =>
    intro u hu _
    have hl : ¬heapXmaxIsLockedOnly tup := by
      intro hl
      rw [updateXid_none hl] at hu
      cases hu
    rw [updateXid_single hl hm, Option.some.injEq] at hu
    refine ⟨_, hp.mem_iff.mpr List.mem_cons_self, ?_, hu⟩
    rw [hs]
    simpa using hl

-- A multixact is expanded.
theorem expand_adds {newStatus : MultiXactStatus} {multi : Nat} (hw : WellLocked multis.members tup)
    (hm : heapTupleHas heapXmaxIsMulti tup) (hc : x.isCurrent add) (ho : x.deletion tup ≠ some .own)
    (hg : isUpdate → ∀ fate ∈ x.deletion tup, fate = .aborted) (hns : newStatus.isUpdate = isUpdate)
    (he : multis.expand (heapTupleHeaderGetRawXmax tup) ⟨add, newStatus⟩ = .ok multi) :
    multis.Adds tup add isUpdate (multis.newMulti multi) := by
  have hxids : xmaxXids multis.members tup = (multis.members (heapTupleHeaderGetRawXmax tup)).map (·.xid) :=
    if_pos hm
  -- The updating member is the transaction that has updated the tuple.
  have hupd (m) (hmem : m ∈ multis.members (heapTupleHeaderGetRawXmax tup)) (hu : m.status.isUpdate) :
      updateXid x.updater tup = some m.xid := by
    have hl : ¬heapXmaxIsLockedOnly tup := fun hl => (hw.lock_only hm).mp hl m hmem hu
    rw [updateXid_multi hl hm, heapTupleGetUpdateXid, multis.updater,
      multiXactIdGetUpdateXid_eq hmem hu (hw.unique hm)]
  have hdel (m) (hmem : m ∈ multis.members (heapTupleHeaderGetRawXmax tup)) (hu : m.status.isUpdate) :
      x.deletion tup = some (x.fate m.xid) := by
    rw [deletion, deletionFate, hupd m hmem hu, Option.map_some]
  have hex (u) (hu : updateXid x.updater tup = some u) :
      ∃ m ∈ multis.members (heapTupleHeaderGetRawXmax tup), m.status.isUpdate ∧ m.xid = u := by
    have hl : ¬heapXmaxIsLockedOnly tup := by
      intro hl
      rw [updateXid_none hl] at hu
      cases hu
    have hn := mt (hw.lock_only hm).mpr hl
    push Not at hn
    obtain ⟨m, hmem, hmu⟩ := hn
    exact ⟨m, hmem, hmu, Option.some.inj ((hupd m hmem hmu).symm.trans hu)⟩
  obtain ⟨hsame, hmem⟩ | hp := multis.expanded _ _ _ he
  case inl =>
    have hk := multis.kept _ (hw.nonempty hm)
    rw [hsame]
    -- The transaction is a member already.
    have hnot : ¬isUpdate := by
      intro hup
      have hd := hdel _ hmem (hns.trans hup)
      rw [fate_own_iff.mpr hc] at hd
      exact ho hd
    refine .joined _ newStatus hns ?_ ?_ ?_ ?_ ?_
    case refine_1 => rwa [hk]
    case refine_2 =>
      intro u hu _
      rwa [hk, ←hxids]
    case refine_3 =>
      intro m hm'
      rw [hk] at hm'
      exact .inr (by rw [hxids]; exact List.mem_map_of_mem hm')
    case refine_4 =>
      intro m hm' hu
      rw [hk] at hm'
      exact .inr ⟨hnot, hupd m hm' hu⟩
    case refine_5 =>
      intro u hu _
      rw [hk]
      exact hex u hu
  case inr =>
    refine .joined _ newStatus hns (hp.mem_iff.mpr List.mem_cons_self) ?_ ?_ ?_ ?_
    case refine_1 =>
      intro u hu hprog
      rw [hxids] at hu
      obtain ⟨m, hmem, rfl⟩ := List.mem_map.mp hu
      refine List.mem_map.mpr ⟨m, hp.mem_iff.mpr (List.mem_cons_of_mem _ (List.mem_filter.mpr ⟨hmem, ?_⟩)), rfl⟩
      simp [hprog]
    case refine_2 =>
      intro m hm'
      cases hp.mem_iff.mp hm'
      case head      => exact .inl rfl
      case tail hm'  =>
        rw [hxids]
        exact .inr (List.mem_map_of_mem (List.mem_of_mem_filter hm'))
    case refine_3 =>
      intro m hm' hu
      cases hp.mem_iff.mp hm'
      case head     => exact .inl rfl
      case tail hm' =>
        obtain ⟨hmem, hint⟩ := List.mem_filter.mp hm'
        refine .inr ⟨fun hup => ?_, hupd m hmem hu⟩
        have ha := fate_aborted_iff.mp (hg hup _ (hdel m hmem hu))
        simp [ha.left, ha.right] at hint
    case refine_4 =>
      intro u hu hf
      obtain ⟨m, hmem, hmu, rfl⟩ := hex u hu
      refine ⟨m, hp.mem_iff.mpr (List.mem_cons_of_mem _ (List.mem_filter.mpr ⟨hmem, ?_⟩)), hmu, rfl⟩
      rw [Ne, fate_aborted_iff, not_and_or, not_not, not_not] at hf
      simpa [hmu] using hf

theorem computeNewXmaxInfomask_adds (h : x.Truthful tup) (hw : WellLocked multis.members tup) (hc : x.isCurrent add)
    (ho : x.deletion tup ≠ some .own) (hg : isUpdate → ∀ fate ∈ x.deletion tup, fate = .aborted)
    (he : multis.computeNewXmaxInfomask tup add mode isUpdate = .ok new) : multis.Adds tup add isUpdate new := by
  simp only [computeNewXmaxInfomask] at he
  split at he
  case isTrue hi  =>
    cases he
    exact .gone (h.xmaxInvalid hi).left (h.xmaxInvalid hi).right
  case isFalse hi =>
    split at he
    case isTrue hm  =>
      split at he
      case isTrue hu  =>
        cases he
        have hl : heapXmaxIsLockedOnly tup := by
          rw [heapLockedUpgraded, decide_eq_true_iff] at hu
          rw [heapXmaxIsLockedOnly, decide_eq_true_iff]
          exact .inl hu.right.left
        exact .gone (h.upgraded hu) (not_deleted hl)
      case isFalse hu =>
        split at he
        case isTrue hr  =>
          cases he
          rw [←xmaxRuns_multi hm] at hr
          refine .gone hr.left fun fate hf => ?_
          obtain hl | hd := hr.right
          · exact not_deleted hl fate hf
          · by_cases hl : heapXmaxIsLockedOnly tup
            case pos => exact not_deleted hl fate hf
            case neg =>
              rw [deletion_multi hl hm] at hf
              cases hf
              have hruns := hr.left
              rw [Bool.not_eq_true] at hl
              rw [xmaxRuns_multi hm, hl] at hruns
              exact fate_aborted_iff.mpr ⟨fun hp => hruns (x.runs_updater _ hp), hd⟩
        case isFalse hr =>
          obtain ⟨newStatus, hns, he⟩ := Outcome.bind_eq_ok_iff.mp he
          obtain ⟨multi, hexp, he⟩ := Outcome.bind_eq_ok_iff.mp he
          cases he
          exact expand_adds hw hm hc ho hg (getMxactStatusForLock_isUpdate hns) hexp
    case isFalse hm =>
      -- An update or deletion that is running or committed rules out another one.
      have hlocked (hf : x.fate (heapTupleHeaderGetRawXmax tup) ≠ .aborted) (hup : isUpdate) :
          heapXmaxIsLockedOnly tup := by
        by_contra hl
        exact hf (hg hup _ (deletion_single hl hm))
      split at he
      case isTrue hxc  =>
        obtain ⟨hl, -, hf⟩ := h.xmaxCommitted hxc
        have hs : (oldUpdateStatus tup).isUpdate = !heapXmaxIsLockedOnly tup := by
          simp [oldUpdateStatus_isUpdate, hl]
        exact createNew_adds hm hs (hlocked (by rw [hf]; decide)) he
      case isFalse hxc =>
        split at he
        case isTrue hp  =>
          have hf : x.fate (heapTupleHeaderGetRawXmax tup) ≠ .aborted :=
            fun hf => (fate_aborted_iff.mp hf).left hp
          cases hs : oldStatus tup
          case none        => exact absurd hs (hw.lock_bits hm)
          case some status =>
            rw [hs] at he
            simp only at he
            split at he
            case isTrue heq  =>
              cases he
              have hxids : xmaxXids multis.members tup = [heapTupleHeaderGetRawXmax tup] := if_neg hm
              refine .alone _ ?_ ?_
              · rw [hxids]
                intro u hu _
                exact (List.mem_singleton.mp hu).trans heq
              · refine not_deleted ?_
                by_contra hl
                rw [deletion_single hl hm, heq, fate_own_iff.mpr hc] at ho
                exact ho rfl
            case isFalse heq => exact createNew_adds hm (oldStatus_isUpdate hs) (hlocked hf) he
        case isFalse hp =>
          split at he
          case isTrue hd  =>
            have hs : (oldUpdateStatus tup).isUpdate = !heapXmaxIsLockedOnly tup := by
              simp [oldUpdateStatus_isUpdate, hd.left]
            have hf := fate_committed_iff.mpr ⟨hp, hd.right⟩
            exact createNew_adds hm hs (hlocked (by rw [hf]; decide)) he
          case isFalse hd =>
            cases he
            refine .gone (by rwa [xmaxRuns_single hm]) fun fate hf => ?_
            by_cases hl : heapXmaxIsLockedOnly tup
            case pos => exact not_deleted hl fate hf
            case neg =>
              rw [deletion_single hl hm] at hf
              cases hf
              exact fate_aborted_iff.mpr ⟨hp, fun hdid => hd ⟨hl, hdid⟩⟩

end MultiXacts
