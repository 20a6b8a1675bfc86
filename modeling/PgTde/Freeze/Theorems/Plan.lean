import PgTde.Freeze.Prepare
import PgTde.Visibility.Theorems.StoredXmax

open XactStatus

namespace FreezeEnv

variable {x : XactStatus} {env : FreezeEnv x} {tup : List UInt8} {multi : Nat} {m : MultiXactMember}
variable {members ms : List MultiXactMember} {k k' : KeptMembers} {pagefrz pagefrz' : HeapPageFreeze}
variable {action : FreezeXmax}

theorem runs_eq {xid : Nat} : env.runs xid = x.inProgress xid := by
  rw [runs, Bool.eq_iff_iff, decide_eq_true_iff]
  exact ⟨fun h => h.elim (x.current xid) id, .inr⟩

theorem keep_eq {what : String} (h : env.keep what multi m k = .ok k') :
    ¬transactionIdPrecedes m.xid env.cutoffs.oldestXmin ∧ k' = { k with newmembers := k.newmembers ++ [m] } := by
  rw [keep] at h
  split at h
  case isTrue      => cases h
  case isFalse hge =>
    cases h
    exact ⟨hge, rfl⟩

-- What is so of the members that are kept of those that have been gone through.
structure Keeps (env : FreezeEnv x) (ms : List MultiXactMember) (k : KeptMembers) : Prop where
  subset  : ∀ m ∈ k.newmembers, m ∈ ms
  running : ∀ m ∈ ms, x.inProgress m.xid → m ∈ k.newmembers
  updates : ∀ m ∈ ms, m.status.isUpdate → m ∈ k.newmembers ∨ ¬x.inProgress m.xid ∧ ¬x.didCommit m.xid
  updater : k.updateXid ≠ invalidTransactionId → ∃ m ∈ k.newmembers, m.status.isUpdate ∧ m.xid = k.updateXid
  unique  : ∀ m ∈ k.newmembers, m.status.isUpdate → m.xid = k.updateXid ∧ (x.inProgress m.xid ∨ x.didCommit m.xid)
  commits : k.updateCommitted → ¬x.inProgress k.updateXid ∧ x.didCommit k.updateXid
  lockers : ¬k.hasLockers → ∀ m ∈ k.newmembers, m.status.isUpdate
  recent  : ∀ m ∈ k.newmembers, ¬transactionIdPrecedes m.xid env.cutoffs.oldestXmin

theorem Keeps.init : Keeps env [] ⟨[], false, invalidTransactionId, false⟩ where
  subset      := List.forall_mem_nil _
  running     := List.forall_mem_nil _
  updates     := List.forall_mem_nil _
  updater h   := absurd rfl h
  unique      := List.forall_mem_nil _
  commits h   := (Bool.false_ne_true h).elim
  lockers _   := List.forall_mem_nil _
  recent      := List.forall_mem_nil _

-- A member is of no interest.
theorem Keeps.ignore (h : Keeps env ms k) (hr : ¬x.inProgress m.xid) (hu : m.status.isUpdate → ¬x.didCommit m.xid) :
    Keeps env (ms ++ [m]) k where
  subset m' hm    := List.mem_append_left _ (h.subset m' hm)
  running m' hm   := by
    obtain hm | hm := List.mem_append.mp hm
    · exact h.running m' hm
    · obtain rfl := List.mem_singleton.mp hm
      exact fun hp => absurd hp hr
  updates m' hm   := by
    obtain hm | hm := List.mem_append.mp hm
    · exact h.updates m' hm
    · obtain rfl := List.mem_singleton.mp hm
      exact fun hup => .inr ⟨hr, hu hup⟩
  updater         := h.updater
  unique          := h.unique
  commits         := h.commits
  lockers         := h.lockers
  recent          := h.recent

theorem Keeps.locker (h : Keeps env ms k) (hge : ¬transactionIdPrecedes m.xid env.cutoffs.oldestXmin)
    (hu : ¬m.status.isUpdate) :
    Keeps env (ms ++ [m]) { k with newmembers := k.newmembers ++ [m], hasLockers := true } where
  subset m' hm      := by
    rw [List.mem_append] at hm ⊢
    exact hm.imp_left (h.subset m')
  running m' hm hp  := by
    rw [List.mem_append] at hm ⊢
    exact hm.imp_left fun hm => h.running m' hm hp
  updates m' hm hup := by
    obtain hm | hm := List.mem_append.mp hm
    · exact (h.updates m' hm hup).imp_left fun hm => List.mem_append_left _ hm
    · exact .inl (List.mem_append_right _ hm)
  updater hne       := by
    obtain ⟨m', hm, hup, he⟩ := h.updater hne
    exact ⟨m', List.mem_append_left _ hm, hup, he⟩
  unique m' hm hup  := by
    obtain hm | hm := List.mem_append.mp hm
    · exact h.unique m' hm hup
    · obtain rfl := List.mem_singleton.mp hm
      exact absurd hup hu
  commits           := h.commits
  lockers hl        := absurd rfl hl
  recent            := List.forall_mem_append.mpr ⟨h.recent, List.forall_mem_singleton.mpr hge⟩

theorem Keeps.update (committed : Bool) (h : Keeps env ms k)
    (hge : ¬transactionIdPrecedes m.xid env.cutoffs.oldestXmin) (hu : m.status.isUpdate)
    (h0 : k.updateXid = invalidTransactionId) (hl : x.inProgress m.xid ∨ x.didCommit m.xid)
    (hc : committed → ¬x.inProgress m.xid ∧ x.didCommit m.xid) : Keeps env (ms ++ [m]) { k with
      newmembers := k.newmembers ++ [m], updateXid := m.xid, updateCommitted := k.updateCommitted || committed } where
  subset m' hm      := by
    rw [List.mem_append] at hm ⊢
    exact hm.imp_left (h.subset m')
  running m' hm hp  := by
    rw [List.mem_append] at hm ⊢
    exact hm.imp_left fun hm => h.running m' hm hp
  updates m' hm hup := by
    obtain hm | hm := List.mem_append.mp hm
    · exact (h.updates m' hm hup).imp_left fun hm => List.mem_append_left _ hm
    · exact .inl (List.mem_append_right _ hm)
  updater _         := ⟨m, List.mem_append_right _ (List.mem_singleton_self m), hu, rfl⟩
  unique m' hm hup  := by
    obtain hm | hm := List.mem_append.mp hm
    · obtain ⟨he, hp⟩ := h.unique m' hm hup
      rw [he, h0] at hp
      exact (hp.elim x.invalid.left x.invalid.right).elim
    · rw [List.mem_singleton.mp hm]
      exact ⟨rfl, hl⟩
  commits hcom      := by
    obtain hcom | hcom := (Bool.or_eq_true _ _).mp hcom
    · exact absurd (h0 ▸ (h.commits hcom).right) x.invalid.right
    · exact hc hcom
  lockers hl m' hm  := by
    obtain hm | hm := List.mem_append.mp hm
    · exact h.lockers hl m' hm
    · rw [List.mem_singleton.mp hm]
      exact hu
  recent            := List.forall_mem_append.mpr ⟨h.recent, List.forall_mem_singleton.mpr hge⟩

theorem secondPass_keeps (h : Keeps env ms k) (he : env.secondPass multi k m = .ok k') : Keeps env (ms ++ [m]) k' := by
  rw [secondPass, runs_eq] at he
  split at he
  case isTrue hu  =>
    split at he
    case isTrue hp  =>
      obtain ⟨hge, rfl⟩ := keep_eq he
      exact h.locker hge hu
    case isFalse hp =>
      cases he
      exact h.ignore hp fun hup => absurd hup hu
  case isFalse hu =>
    rw [not_not] at hu
    split at he
    case isTrue      => cases he
    case isFalse h0  =>
      rw [not_not] at h0
      split at he
      case isTrue hp  =>
        obtain ⟨hge, rfl⟩ := keep_eq he
        have hk := h.update false hge hu h0 (.inl hp) fun hc => (Bool.false_ne_true hc).elim
        rwa [Bool.or_false] at hk
      case isFalse hp =>
        split at he
        case isTrue hc  =>
          obtain ⟨hge, rfl⟩ := keep_eq he
          have hk := h.update true hge hu h0 (.inr hc) fun _ => ⟨hp, hc⟩
          rwa [Bool.or_true] at hk
        case isFalse hc =>
          cases he
          exact h.ignore hp fun _ => hc

theorem foldlM_secondPass (h : Keeps env ms k) (he : members.foldlM (env.secondPass multi) k = .ok k') :
    Keeps env (ms ++ members) k' := by
  induction members generalizing ms k
  case nil             =>
    cases he
    rwa [List.append_nil]
  case cons m members ih =>
    rw [List.foldlM_cons] at he
    obtain ⟨k₁, h₁, he⟩ := Outcome.bind_eq_ok_iff.mp he
    have hk := ih (secondPass_keeps h h₁) he
    rwa [List.append_assoc] at hk

theorem keptMembers_keeps (he : env.keptMembers multi members = .ok k) : Keeps env members k := by
  simpa using foldlM_secondPass Keeps.init he

-- A multixact may stay if neither it nor any of its members is from before the limits.
structure Retained (env : FreezeEnv x) (tup : List UInt8) : Prop where
  members : ∀ m ∈ env.members (heapTupleHeaderGetRawXmax tup), ¬transactionIdPrecedes m.xid env.cutoffs.freezeLimit
  multi   : ¬multiXactIdPrecedes (heapTupleHeaderGetRawXmax tup) env.cutoffs.multiXactCutoff
  oldest  : ¬multiXactIdPrecedes (heapTupleHeaderGetRawXmax tup) env.cutoffs.oldestMxact

-- A transaction in t_xmax that may stay there.
def Stays (env : FreezeEnv x) (tup : List UInt8) (xid : Nat) : Prop :=
  xid ∈ xmaxXids env.members tup ∧ ¬transactionIdPrecedes xid env.cutoffs.oldestXmin

-- What t_xmax may be replaced by, so that nothing is lost that is of interest, and nothing is left from before the
-- limits.
inductive Replaces (env : FreezeEnv x) (tup : List UInt8) : FreezeXmax → Prop
  | noop : Retained env tup → Replaces env tup .noop
  | invalid :
    (∀ u ∈ xmaxXids env.members tup, ¬x.inProgress u) →
    (∀ u, updateXid x.updater tup = some u → ¬x.inProgress u ∧ ¬x.didCommit u) → Replaces env tup .invalidateXmax
  | xid {u : Nat} {committed : Bool} : u < 2 ^ 32 → Stays env tup u →
    updateXid x.updater tup = some u → (committed → ¬x.inProgress u ∧ x.didCommit u) →
    (∀ u' ∈ xmaxXids env.members tup, x.inProgress u' → u' = u) → Replaces env tup (.returnIsXid u committed)
  | multi {multi' : Nat} : multi' < 2 ^ 32 → env.members multi' ≠ [] →
    (∀ m ∈ env.members multi', Stays env tup m.xid) →
    (∀ u ∈ xmaxXids env.members tup, x.inProgress u → u ∈ (env.members multi').map (·.xid)) →
    (∀ m ∈ env.members multi', m.status.isUpdate → updateXid x.updater tup = some m.xid) →
    (∀ u, updateXid x.updater tup = some u → x.inProgress u ∨ x.didCommit u →
      ∃ m ∈ env.members multi', m.status.isUpdate ∧ m.xid = u) → Replaces env tup (.returnIsMulti multi')

section Multi

variable (hm : heapTupleHas heapXmaxIsMulti tup) (hw : WellLocked env.members tup)

include hm

theorem mem_xmaxXids {u : Nat} : u ∈ xmaxXids env.members tup ↔
    ∃ m ∈ env.members (heapTupleHeaderGetRawXmax tup), m.xid = u := by
  rw [xmaxXids]
  simp only [hm, if_true, List.mem_map]

theorem not_inProgress_of_not_running (h : ¬(env.members (heapTupleHeaderGetRawXmax tup)).any (x.inProgress ·.xid)) :
    ∀ u ∈ xmaxXids env.members tup, ¬x.inProgress u := by
  intro u hu hp
  obtain ⟨m, hmem, rfl⟩ := (mem_xmaxXids hm).mp hu
  exact h (List.any_eq_true.mpr ⟨m, hmem, hp⟩)

theorem updateXid_eq_updater (hl : ¬heapXmaxIsLockedOnly tup) :
    updateXid x.updater tup = some (x.updater (heapTupleHeaderGetRawXmax tup)) := by
  rw [updateXid, if_neg hl, if_pos hm]

include hw

theorem updateXid_of_member (hmem : m ∈ env.members (heapTupleHeaderGetRawXmax tup)) (hu : m.status.isUpdate) :
    updateXid x.updater tup = some m.xid := by
  have hl : ¬heapXmaxIsLockedOnly tup := fun hl => (hw.lock_only hm).mp hl m hmem hu
  rw [updateXid_eq_updater hm hl, env.updater, multiXactIdGetUpdateXid_eq hmem hu (hw.unique hm)]

theorem member_of_updateXid {u : Nat} (hu : updateXid x.updater tup = some u) :
    ∃ m ∈ env.members (heapTupleHeaderGetRawXmax tup), m.status.isUpdate ∧ m.xid = u := by
  have hl : ¬heapXmaxIsLockedOnly tup := by
    intro hl
    rw [updateXid, if_pos hl] at hu
    cases hu
  have hn := mt (hw.lock_only hm).mpr hl
  push Not at hn
  obtain ⟨m, hmem, hup⟩ := hn
  exact ⟨m, hmem, hup, Option.some.inj ((updateXid_of_member hm hw hmem hup).symm.trans hu)⟩

-- An old multixact has no running members.
theorem freezeOldMulti_replaces (he : env.freezeOldMulti (heapTupleHeaderGetRawXmax tup) tup = .ok action) :
    Replaces env tup action := by
  rw [freezeOldMulti] at he
  split at he
  case isTrue     => cases he
  case isFalse hr =>
    rw [env.running] at hr
    have hnone := not_inProgress_of_not_running hm hr
    split at he
    case isTrue hl  =>
      cases he
      refine .invalid hnone fun u hu => ?_
      rw [updateXid, if_pos hl] at hu
      cases hu
    case isFalse hl =>
      have hx : updateXid x.updater tup = some (x.updater (heapTupleHeaderGetRawXmax tup)) := updateXid_eq_updater hm hl
      obtain ⟨m, hmem, -, hxid⟩ := member_of_updateXid hm hw hx
      have hrun := hnone m.xid ((mem_xmaxXids hm).mpr ⟨m, hmem, rfl⟩)
      simp only at he
      split at he
      case isTrue  => cases he
      case isFalse =>
        split at he
        case isTrue  =>
          split at he
          case isTrue      => cases he
          case isFalse hc  =>
            cases he
            refine .invalid hnone fun u hu => ?_
            obtain rfl := Option.some.inj (hx.symm.trans hu)
            exact ⟨hxid ▸ hrun, hc⟩
        case isFalse hge =>
          cases he
          exact .xid (hxid ▸ env.small _ m hmem) ⟨(mem_xmaxXids hm).mpr ⟨m, hmem, hxid⟩, hge⟩ hx
            (fun h => (Bool.false_ne_true h).elim) fun u hu hp => absurd hp (hnone u hu)

theorem replaceMulti_replaces (he : env.replaceMulti multi (env.members (heapTupleHeaderGetRawXmax tup)) = .ok action) :
    Replaces env tup action := by
  rw [replaceMulti] at he
  obtain ⟨k, hk, he⟩ := Outcome.bind_eq_ok_iff.mp he
  have h := keptMembers_keeps hk
  have hrunning {u : Nat} (hu : u ∈ xmaxXids env.members tup) (hp : x.inProgress u) :
      ∃ m ∈ k.newmembers, m.xid = u := by
    obtain ⟨m, hmem, rfl⟩ := (mem_xmaxXids hm).mp hu
    exact ⟨m, h.running m hmem hp, rfl⟩
  split at he
  case isTrue hnil =>
    cases he
    refine .invalid (fun u hu hp => ?_) fun u hu => ?_
    · obtain ⟨m, hmem, -⟩ := hrunning hu hp
      rw [hnil] at hmem
      cases hmem
    · obtain ⟨m, hmem, hup, rfl⟩ := member_of_updateXid hm hw hu
      refine (h.updates m hmem hup).resolve_left fun hin => ?_
      rw [hnil] at hin
      cases hin
  case isFalse hne =>
    split at he
    case isTrue hx  =>
      cases he
      obtain ⟨m, hmem, hup, hxid⟩ := h.updater hx.left
      have hmem' := h.subset m hmem
      refine .xid (hxid ▸ env.small _ m hmem') ⟨(mem_xmaxXids hm).mpr ⟨m, hmem', hxid⟩, hxid ▸ h.recent m hmem⟩
        (hxid ▸ updateXid_of_member hm hw hmem' hup) h.commits fun u hu hp => ?_
      obtain ⟨m', hm', rfl⟩ := hrunning hu hp
      exact (h.unique m' hm' (h.lockers hx.right m' hm')).left
    case isFalse hx =>
      obtain ⟨multi', hc, he⟩ := Outcome.bind_eq_ok_iff.mp he
      cases he
      obtain ⟨hlt, hperm⟩ := env.created _ _ hc
      refine .multi hlt (fun hnil => hne (List.nil_perm.mp (hnil ▸ hperm)))
        (fun m hmem => ?_) (fun u hu hp => ?_) (fun m hmem hup => ?_) fun u hu hp => ?_
      · have hin := hperm.mem_iff.mp hmem
        exact ⟨(mem_xmaxXids hm).mpr ⟨m, h.subset m hin, rfl⟩, h.recent m hin⟩
      · obtain ⟨m, hmem, rfl⟩ := hrunning hu hp
        exact List.mem_map.mpr ⟨m, hperm.mem_iff.mpr hmem, rfl⟩
      · exact updateXid_of_member hm hw (h.subset m (hperm.mem_iff.mp hmem)) hup
      · obtain ⟨m, hmem, hup, rfl⟩ := member_of_updateXid hm hw hu
        have hin := (h.updates m hmem hup).resolve_right fun hd => hp.elim hd.left hd.right
        exact ⟨m, hperm.mem_iff.mpr hin, hup, rfl⟩

theorem freezeMultiXactId_replaces (ht : x.Truthful tup)
    (he : env.freezeMultiXactId (heapTupleHeaderGetRawXmax tup) tup pagefrz = .ok (action, pagefrz')) :
    Replaces env tup action := by
  have hlocked (hl : heapXmaxIsLockedOnly tup) (u : Nat) (hu : updateXid x.updater tup = some u) :
      ¬x.inProgress u ∧ ¬x.didCommit u := by
    rw [updateXid, if_pos hl] at hu
    cases hu
  simp only [freezeMultiXactId] at he
  split at he
  case isTrue h   =>
    cases he
    obtain h | h := h
    · exact absurd (h ▸ env.invalid) (hw.nonempty hm)
    · have hl : heapXmaxIsLockedOnly tup := by
        rw [heapLockedUpgraded, decide_eq_true_iff] at h
        rw [heapXmaxIsLockedOnly, decide_eq_true_iff]
        exact .inl h.right.left
      have hr := ht.upgraded h
      rw [xmaxRuns_multi hm, env.running] at hr
      exact .invalid (not_inProgress_of_not_running hm hr) (hlocked hl)
  case isFalse =>
    split at he
    case isTrue  => cases he
    case isFalse =>
      split at he
      case isTrue      =>
        obtain ⟨action', ha, he⟩ := Outcome.bind_eq_ok_iff.mp he
        cases he
        exact freezeOldMulti_replaces hm hw ha
      case isFalse hge =>
        by_cases hs : heapXmaxIsLockedOnly tup ∧ env.skips (heapTupleHeaderGetRawXmax tup)
        case pos =>
          rw [getMultiXactIdMembers, if_pos hs, if_pos rfl] at he
          cases he
          exact .invalid (not_inProgress_of_not_running hm (env.skipped _ hs.right)) (hlocked hs.left)
        case neg =>
          rw [getMultiXactIdMembers, if_neg hs, if_neg (hw.nonempty hm)] at he
          split at he
          case isTrue         =>
            obtain ⟨action', ha, he⟩ := Outcome.bind_eq_ok_iff.mp he
            cases he
            exact replaceMulti_replaces hm hw ha
          case isFalse hlimit =>
            cases he
            obtain ⟨hany, hcutoff⟩ := not_or.mp hlimit
            exact .noop ⟨fun m hmem hp => hany (List.any_eq_true.mpr ⟨m, hmem, hp⟩), hcutoff, hge⟩

end Multi

-- The plans for t_xmax, likewise. Whether the xmax to be removed has been aborted is checked later on, if it is no
-- multixact.
inductive Plans (env : FreezeEnv x) (tup : List UInt8) : XmaxPlan → Prop
  | kept :
    (heapTupleHas heapXmaxIsMulti tup → Retained env tup) →
    (¬heapTupleHas heapXmaxIsMulti tup → transactionIdIsNormal (heapTupleHeaderGetRawXmax tup) →
      ¬transactionIdPrecedes (heapTupleHeaderGetRawXmax tup) env.cutoffs.oldestXmin) → Plans env tup .kept
  | frozen :
    (∀ u ∈ xmaxXids env.members tup, ¬x.inProgress u) →
    (∀ u, updateXid x.updater tup = some u → ¬x.inProgress u ∧ (heapTupleHas heapXmaxIsMulti tup → ¬x.didCommit u)) →
    Plans env tup .frozen
  | xid {u : Nat} {committed : Bool} {infomask2 : UInt16} : u < 2 ^ 32 →
    Stays env tup u → updateXid x.updater tup = some u → (committed → ¬x.inProgress u ∧ x.didCommit u) →
    (∀ u' ∈ xmaxXids env.members tup, x.inProgress u' → u' = u) →
    Plans env tup (.replaced u
      (tInfomask tup &&& ~~~heapXmaxBits ||| if committed then heapXmaxCommitted else 0) infomask2)
  | multi {multi' : Nat} {infomask2 : UInt16} : multi' < 2 ^ 32 → env.members multi' ≠ [] →
    (∀ m ∈ env.members multi', Stays env tup m.xid) →
    (∀ u ∈ xmaxXids env.members tup, x.inProgress u → u ∈ (env.members multi').map (·.xid)) →
    (∀ m ∈ env.members multi', m.status.isUpdate → updateXid x.updater tup = some m.xid) →
    (∀ u, updateXid x.updater tup = some u → x.inProgress u ∨ x.didCommit u →
      ∃ m ∈ env.members multi', m.status.isUpdate ∧ m.xid = u) →
    Plans env tup (.replaced multi'
      (tInfomask tup &&& ~~~heapXmaxBits ||| (getMultiXactIdHintBits (env.members multi')).1) infomask2)

variable {plan : XmaxPlan}

theorem planXmax_plans (ht : x.Truthful tup) (hw : WellLocked env.members tup)
    (he : env.planXmax tup pagefrz = .ok (plan, pagefrz')) : Plans env tup plan := by
  simp only [planXmax] at he
  split at he
  case isTrue hm  =>
    obtain ⟨⟨action, pagefrz₁⟩, ha, he⟩ := Outcome.bind_eq_ok_iff.mp he
    have hr := freezeMultiXactId_replaces hm hw ht ha
    cases hr
    case noop hret                      =>
      cases he
      exact .kept (fun _ => hret) fun hn => absurd hm hn
    case invalid hrun hup              =>
      cases he
      exact .frozen hrun fun u hu => ⟨(hup u hu).left, fun _ => (hup u hu).right⟩
    case xid u committed hlt hge hu hc hrun =>
      cases he
      have hbits : (if committed then tInfomask tup &&& ~~~heapXmaxBits ||| heapXmaxCommitted
          else tInfomask tup &&& ~~~heapXmaxBits) =
          tInfomask tup &&& ~~~heapXmaxBits ||| if committed then heapXmaxCommitted else 0 := by
        cases committed
        case false => exact UInt16.or_zero.symm
        case true  => rfl
      rw [hbits]
      exact .xid hlt hge hu hc hrun
    case multi hlt hne hge hrun hup hkept   =>
      cases he
      exact .multi hlt hne hge hrun hup hkept
  case isFalse hm =>
    split at he
    case isFalse hn =>
      split at he
      · cases he
        exact .kept (fun hmulti => absurd hmulti hm) fun _ hnormal => absurd hnormal hn
      · cases he
    case isTrue      =>
      split at he
      case isTrue    => cases he
      case isFalse   =>
        split at he
        case isFalse hge =>
          cases he
          exact .kept (fun hmulti => absurd hmulti hm) fun _ _ => hge
        case isTrue hold =>
          cases he
          have hrun := env.oldest _ hold
          refine .frozen (fun u hu => ?_) fun u hu => ⟨?_, fun hmulti => absurd hmulti hm⟩
          · rw [xmaxXids, if_neg hm, List.mem_singleton] at hu
            exact hu ▸ hrun
          · rw [updateXid] at hu
            split at hu
            · cases hu
            · exact Option.some.inj hu ▸ hrun

end FreezeEnv
