import PgTde.Freeze.Theorems.Plan
import PgTde.Rewrite.Theorems.Prepared

open XactStatus

namespace HeapTupleFreeze

variable {frz : HeapTupleFreeze} {tup : List UInt8}

theorem rawXmin_pgTdeExecuteFreezeTuple (hl : 22 ≤ tup.length) :
    heapTupleHeaderGetRawXmin (frz.pgTdeExecuteFreezeTuple tup) = heapTupleHeaderGetRawXmin tup := by
  simp only [heapTupleHeaderGetRawXmin, unsignedAt, List.drop_zero, take_pgTdeExecuteFreezeTuple hl]

theorem rawXmax_pgTdeExecuteFreezeTuple (hl : 22 ≤ tup.length) :
    heapTupleHeaderGetRawXmax (frz.pgTdeExecuteFreezeTuple tup) = frz.xmax.toNat := by
  have ht : (tup.take 4).length = 4 := by
    rw [List.length_take]
    omega
  simp only [heapTupleHeaderGetRawXmax, pgTdeExecuteFreezeTuple, List.append_assoc]
  exact unsignedAt_of_append rfl ht frz.xmax.toNat_lt

theorem tInfomask2_pgTdeExecuteFreezeTuple (hl : 22 ≤ tup.length) :
    tInfomask2 (frz.pgTdeExecuteFreezeTuple tup) = frz.infomask2 :=
  tInfomask2_append (length_fields hl)

-- The command id stays if there is no xvac to be replaced.
theorem rawCommandId_pgTdeExecuteFreezeTuple (hl : 22 ≤ tup.length) (hv : frz.xvac = none) :
    heapTupleHeaderGetRawCommandId (frz.pgTdeExecuteFreezeTuple tup) = heapTupleHeaderGetRawCommandId tup := by
  have ht : (tup.take 4 ++ toLittleEndian 4 frz.xmax.toNat).length = 8 := by
    rw [List.length_append, length_toLittleEndian, List.length_take]
    omega
  have hc : ((tup.take 12).drop 8).length = 4 := by
    rw [List.length_drop, List.length_take]
    omega
  have hd : (tup.take 12).drop 8 = (tup.drop 8).take 4 := by rw [List.drop_take]
  simp only [heapTupleHeaderGetRawCommandId, unsignedAt, pgTdeExecuteFreezeTuple, hv]
  rw [List.append_assoc, List.append_assoc, List.append_assoc, List.append_assoc, List.drop_left' ht,
    List.take_left' hc, hd]

end HeapTupleFreeze

namespace FreezeEnv

variable {x : XactStatus} {env : FreezeEnv x} {tup tup' : List UInt8} {plan : XmaxPlan} {frz : FreezePlan}
variable {pagefrz pagefrz' : HeapPageFreeze} {freezeXmin : Bool} {f : UInt16}

-- A transaction that is of no interest any more.
def Gone (x : XactStatus) (xid : Nat) : Prop :=
  ¬x.inProgress xid ∧ ¬x.didCommit xid

-- What has been written by a plan.
structure Executed (env : FreezeEnv x) (tup tup' : List UInt8) (freezeXmin : Bool) (plan : XmaxPlan) : Prop where
  length    : tup'.length = tup.length
  xmin      : heapTupleHeaderGetRawXmin tup' = heapTupleHeaderGetRawXmin tup
  commandId : heapTupleHeaderGetRawCommandId tup' = heapTupleHeaderGetRawCommandId tup
  xmax      : heapTupleHeaderGetRawXmax tup' = (plan.header tup).1
  infomask  : tInfomask tup' =
    if freezeXmin then (plan.header tup).2.1 ||| heapXminFrozen else (plan.header tup).2.1
  infomask2 : tInfomask2 tup' = (plan.header tup).2.2
  frozen    : freezeXmin → x.didCommit (heapTupleHeaderGetRawXmin tup) ∧
    transactionIdPrecedes (heapTupleHeaderGetRawXmin tup) env.cutoffs.oldestXmin
  recent    : ¬freezeXmin → ¬heapTupleHeaderXminFrozen tup → transactionIdIsNormal (heapTupleHeaderGetRawXmin tup) →
    ¬transactionIdPrecedes (heapTupleHeaderGetRawXmin tup) env.cutoffs.oldestXmin
  plans     : Plans env tup plan
  aborted   : plan.isFrozen → ¬heapTupleHas heapXmaxIsMulti tup → ¬heapXmaxIsLockedOnly tup →
    ¬x.didCommit (heapTupleHeaderGetRawXmax tup)

-- What becomes of t_xmax: those are kept that are of interest, and its flags are true. Nothing is left from before
-- the limits.
structure XmaxKept (env : FreezeEnv x) (plan : XmaxPlan) (tup tup' : List UInt8) : Prop where
  updates   : updateXid x.updater tup' = updateXid x.updater tup ∨
    (∀ u, updateXid x.updater tup = some u → Gone x u) ∧ ∀ u, updateXid x.updater tup' = some u → Gone x u
  running   : ∀ u ∈ xmaxXids env.members tup, x.inProgress u → u ∈ xmaxXids env.members tup'
  no_more   : ∀ u ∈ xmaxXids env.members tup', u = invalidTransactionId ∨ u ∈ xmaxXids env.members tup
  committed : heapTupleHas heapXmaxCommitted tup' → ¬heapXmaxIsLockedOnly tup' ∧
    ¬heapTupleHas heapXmaxIsMulti tup' ∧ x.fate (heapTupleHeaderGetRawXmax tup') = .committed
  invalid   : heapTupleHas heapXmaxInvalid tup' →
    ¬x.xmaxRuns tup' ∧ ∀ u, updateXid x.updater tup' = some u → Gone x u
  upgraded  : heapLockedUpgraded tup' → ¬x.xmaxRuns tup'
  locked    : WellLocked env.members tup'
  recent    : (∀ u ∈ xmaxXids env.members tup',
      transactionIdIsNormal u → ¬transactionIdPrecedes u env.cutoffs.oldestXmin) ∨
    plan = .kept ∧ heapTupleHas heapXmaxIsMulti tup' ∧ Retained env tup'

theorem Plans.xmax_lt (h : Plans env tup plan) : (plan.header tup).1 < 2 ^ 32 := by
  cases h
  case kept                => exact unsignedAt_lt
  case frozen              => exact Nat.two_pow_pos 32
  case xid hlt _ _ _ _     => exact hlt
  case multi hlt _ _ _ _ _ => exact hlt

theorem getMultiXactIdHintBits_subset {members : List MultiXactMember} :
    (getMultiXactIdHintBits members).1 &&& ~~~heapXmaxBits = 0 := by
  refine getMultiXactIdHintBits_cases _ (fun m => m &&& ~~~heapXmaxBits = 0) (fun _ mode => ?_) fun _ mode => ?_
  · cases mode <;> decide
  · cases mode <;> decide

-- The plan for t_xmax changes the flags about it only.
theorem Plans.infomask (h : Plans env tup plan) : ∃ bits, bits &&& ~~~heapXmaxBits = 0 ∧
    (plan.header tup).2.1 = tInfomask tup &&& ~~~heapXmaxBits ||| bits := by
  cases h
  case kept       =>
    refine ⟨tInfomask tup &&& heapXmaxBits, ?_, ?_⟩
    · rw [UInt16.and_assoc, UInt16.and_not_self, UInt16.and_zero]
    · rw [UInt16.and_comm, UInt16.and_comm _ heapXmaxBits, ←UInt16.or_and_distrib_right, UInt16.not_or_self,
        UInt16.neg_one_and]
      rfl
  case frozen     => exact ⟨heapXmaxInvalid, by decide, rfl⟩
  case xid        => exact ⟨_, by split <;> decide, rfl⟩
  case multi      => exact ⟨_, getMultiXactIdHintBits_subset, rfl⟩

section Executed

variable (h : Executed env tup tup' freezeXmin plan)

include h

theorem Executed.bits (hf : heapXminFrozen &&& f = 0) : tInfomask tup' &&& f = (plan.header tup).2.1 &&& f := by
  rw [h.infomask]
  split
  · exact UInt16.keep_or hf
  · rfl

-- The flags that are about neither t_xmin nor t_xmax.
theorem Executed.others (hf : heapXminFrozen &&& f = 0) (hx : heapXmaxBits &&& f = 0) (hn : ~~~heapXmaxBits &&& f = f) :
    tInfomask tup' &&& f = tInfomask tup &&& f := by
  obtain ⟨bits, hb, he⟩ := h.plans.infomask
  rw [h.bits hf, he, UInt16.keep_or (UInt16.and_eq_zero_of_subset hb hx), UInt16.keep_and hn]

theorem Executed.xmaxIs {new : NewXmax} (hx : (plan.header tup).1 = new.xmax)
    (hb : ∀ f, heapXmaxBits &&& f = f → (plan.header tup).2.1 &&& f = new.infomask &&& f) : XmaxIs new tup' where
  xmax      := h.xmax.trans hx
  bits f hf := (h.bits (UInt16.subset_disjoint hf (by decide))).trans (hb f hf)

-- The hints about t_xmin stay, or the tuple is frozen.
theorem Executed.xminHints (hf : heapXmaxBits &&& f = 0) (hn : ~~~heapXmaxBits &&& f = f) (hm : heapXminFrozen &&& f = f) :
    tInfomask tup' &&& f = if freezeXmin then f else tInfomask tup &&& f := by
  obtain ⟨bits, hb, he⟩ := h.plans.infomask
  rw [h.infomask, he]
  split
  case isTrue  => exact UInt16.set_and hm
  case isFalse => rw [UInt16.keep_or (UInt16.and_eq_zero_of_subset hb hf), UInt16.keep_and hn]

theorem Executed.frozen_eq : heapTupleHeaderXminFrozen tup' = (freezeXmin || heapTupleHeaderXminFrozen tup) := by
  rw [heapTupleHeaderXminFrozen, heapTupleHeaderXminFrozen, h.xminHints (by decide) (by decide) (by decide)]
  cases freezeXmin
  case false => rfl
  case true  => simp

end Executed

theorem gone_iff {xid : Nat} : x.fate xid = .aborted ↔ Gone x xid :=
  fate_aborted_iff

-- An xmax that is neither a multixact nor a locker.
theorem not_locked_of_xmaxIs {xmax : Nat} {m m₂ : UInt16} (h : XmaxIs ⟨xmax, m, m₂⟩ tup')
    (hm : m &&& heapXmaxIsMulti = 0) (hl : m &&& heapXmaxLockOnly = 0)
    (hk : m &&& (heapXmaxIsMulti ||| heapLockMask) ≠ heapXmaxExclLock) :
    ¬heapTupleHas heapXmaxIsMulti tup' ∧ ¬heapXmaxIsLockedOnly tup' := by
  rw [heapXmaxIsLockedOnly, heapTupleHas_eq_true, decide_eq_true_iff, heapTupleHas_eq_true, h.bits _ (by decide),
    h.bits _ (by decide), h.bits _ (by decide)]
  exact ⟨not_not.mpr hm, fun hlk => hlk.elim (· hl) hk⟩

theorem wellLocked_updated (hm : ¬heapTupleHas heapXmaxIsMulti tup') (hl : ¬heapXmaxIsLockedOnly tup') :
    WellLocked env.members tup' where
  lock_only hm' := absurd hm' hm
  nonempty hm'  := absurd hm' hm
  unique hm'    := absurd hm' hm
  lock_bits _   := oldStatus_ne_none fun hl' => absurd hl' hl

-- Nothing has changed.
theorem Executed.kept (h : Executed env tup tup' freezeXmin .kept) (ht : x.Truthful tup)
    (hw : WellLocked env.members tup) : XmaxKept env .kept tup tup' := by
  have hbits {f : UInt16} (hf : heapXmaxBits &&& f = f) : tInfomask tup' &&& f = tInfomask tup &&& f :=
    h.bits (UInt16.subset_disjoint hf (by decide))
  have hx : heapTupleHeaderGetRawXmax tup' = heapTupleHeaderGetRawXmax tup := h.xmax
  have hm : heapTupleHas heapXmaxIsMulti tup' = heapTupleHas heapXmaxIsMulti tup := by
    rw [heapTupleHas, heapTupleHas, hbits (by decide)]
  have hl : heapXmaxIsLockedOnly tup' = heapXmaxIsLockedOnly tup := by
    rw [heapXmaxIsLockedOnly, heapXmaxIsLockedOnly, heapTupleHas, heapTupleHas, hbits (by decide), hbits (by decide)]
  have hu : updateXid x.updater tup' = updateXid x.updater tup := by
    rw [updateXid, updateXid, hl, hm, hx]
  have hr : x.xmaxRuns tup' = x.xmaxRuns tup := by
    rw [xmaxRuns, xmaxRuns, hl, hm, hx]
  constructor
  case updates   => exact .inl hu
  case running   =>
    rw [xmaxXids, xmaxXids, hm, hx]
    exact fun u hu _ => hu
  case no_more   =>
    rw [xmaxXids, xmaxXids, hm, hx]
    exact fun u hu => .inr hu
  case committed =>
    rw [heapTupleHas, hbits (by decide), hl, hm, hx]
    exact ht.xmaxCommitted
  case invalid   =>
    rw [heapTupleHas, hbits (by decide), hr, hu]
    intro hi
    obtain ⟨hrun, hdel⟩ := ht.xmaxInvalid hi
    exact ⟨hrun, fun u hx => gone_iff.mp (hdel _ (Option.map_eq_some_iff.mpr ⟨u, hx, rfl⟩))⟩
  case upgraded  =>
    rw [heapLockedUpgraded, heapTupleHas, heapTupleHas, heapTupleHas, hbits (by decide), hbits (by decide),
      hbits (by decide), hr]
    exact ht.upgraded
  case locked    =>
    constructor
    case lock_only => rw [hm, hl, hx]; exact hw.lock_only
    case nonempty  => rw [hm, hx]; exact hw.nonempty
    case unique    => rw [hm, hx]; exact hw.unique
    case lock_bits =>
      have ho : oldStatus tup' = oldStatus tup := by
        rw [oldStatus, oldStatus, oldUpdateStatus, oldUpdateStatus, hl, hbits (by decide), h.infomask2]
        rfl
      rw [hm, ho]
      exact hw.lock_bits
  case recent    =>
    have hp := h.plans
    cases hp
    case kept hret hge =>
      by_cases hmulti : heapTupleHas heapXmaxIsMulti tup
      case pos =>
        obtain ⟨hmembers, hcutoff, hold⟩ := hret hmulti
        exact .inr ⟨rfl, hm ▸ hmulti, ⟨by rwa [hx], by rwa [hx], by rwa [hx]⟩⟩
      case neg =>
        refine .inl fun u hmem hn => ?_
        rw [xmaxXids, hm, if_neg hmulti, hx, List.mem_singleton] at hmem
        subst hmem
        exact hge hmulti hn

-- There is nothing left.
theorem Executed.invalidated (h : Executed env tup tup' freezeXmin .frozen) : XmaxKept env .frozen tup tup' := by
  have hx : XmaxIs ⟨invalidTransactionId, heapXmaxInvalid, 0⟩ tup' :=
    h.xmaxIs rfl fun f hf => UInt16.replace_and (UInt16.subset_disjoint hf (by decide))
  obtain ⟨hm, hl⟩ := not_locked_of_xmaxIs hx (by decide) (by decide) (by decide)
  have hxids : xmaxXids env.members tup' = [invalidTransactionId] := by rw [xmaxXids, if_neg hm, hx.xmax]
  have hu : updateXid x.updater tup' = some invalidTransactionId := by rw [updateXid_single hl hm, hx.xmax]
  have hr : ¬x.xmaxRuns tup' := by
    rw [xmaxRuns_single hm, hx.xmax]
    exact x.invalid.left
  have hgone (u : Nat) (he : updateXid x.updater tup' = some u) : Gone x u := by
    obtain rfl := Option.some.inj (hu.symm.trans he)
    exact x.invalid
  have hp := h.plans
  cases hp
  case frozen hrun hup =>
    constructor
    case updates   =>
      refine .inr ⟨fun u he => ⟨(hup u he).left, ?_⟩, hgone⟩
      by_cases hmulti : heapTupleHas heapXmaxIsMulti tup
      case pos => exact (hup u he).right hmulti
      case neg =>
        have hlock : ¬heapXmaxIsLockedOnly tup := by
          intro hlock
          rw [updateXid_none hlock] at he
          cases he
        obtain rfl := Option.some.inj ((updateXid_single hlock hmulti).symm.trans he)
        exact h.aborted rfl hmulti hlock
    case running   => exact fun u hu hp => absurd hp (hrun u hu)
    case no_more   =>
      rw [hxids]
      exact fun u hmem => .inl (List.mem_singleton.mp hmem)
    case committed =>
      rw [heapTupleHas, hx.bits _ (by decide)]
      exact fun hc => absurd hc (by decide)
    case invalid   => exact fun _ => ⟨hr, hgone⟩
    case upgraded  => exact fun _ => hr
    case locked    => exact wellLocked_updated hm hl
    case recent    =>
      refine .inl fun u hmem hn => ?_
      rw [hxids, List.mem_singleton] at hmem
      subst hmem
      cases hn

-- The updating member of a multixact is left.
theorem Executed.reduced {u : Nat} {committed : Bool} {infomask2 : UInt16}
    (h : Executed env tup tup' freezeXmin plan)
    (hplan : plan = .replaced u
      (tInfomask tup &&& ~~~heapXmaxBits ||| if committed then heapXmaxCommitted else 0) infomask2)
    (hge : Stays env tup u) (hu : updateXid x.updater tup = some u)
    (hc : committed → ¬x.inProgress u ∧ x.didCommit u) (hrun : ∀ u' ∈ xmaxXids env.members tup, x.inProgress u' → u' = u) :
    XmaxKept env plan tup tup' := by
  subst hplan
  have hx : XmaxIs ⟨u, if committed then heapXmaxCommitted else 0, 0⟩ tup' :=
    h.xmaxIs rfl fun f hf => UInt16.replace_and (UInt16.subset_disjoint hf (by decide))
  have hz {f : UInt16} (hf : heapXmaxCommitted &&& f = 0) : (if committed then heapXmaxCommitted else 0) &&& f = 0 := by
    split
    · exact hf
    · exact UInt16.zero_and
  obtain ⟨hm, hl⟩ := not_locked_of_xmaxIs hx (hz (by decide)) (hz (by decide)) (by rw [hz (by decide)]; decide)
  constructor
  case updates   => exact .inl (by rw [updateXid_single hl hm, hx.xmax, hu])
  case running   =>
    intro u' hu' hp
    rw [xmaxXids, if_neg hm, hx.xmax, List.mem_singleton]
    exact hrun u' hu' hp
  case no_more   =>
    intro u' hmem
    rw [xmaxXids, if_neg hm, hx.xmax, List.mem_singleton] at hmem
    exact .inr (hmem ▸ hge.left)
  case committed =>
    rw [heapTupleHas, hx.bits _ (by decide), hx.xmax]
    refine fun hcom => ⟨hl, hm, fate_committed_iff.mpr (hc ?_)⟩
    cases committed
    case false => exact absurd UInt16.zero_and (of_decide_eq_true hcom)
    case true  => rfl
  case invalid   =>
    rw [heapTupleHas_eq_true, hx.bits _ (by decide)]
    exact fun hi => absurd (hz (by decide)) hi
  case upgraded  =>
    rw [heapLockedUpgraded, decide_eq_true_iff]
    exact fun hup => absurd hup.left hm
  case locked    => exact wellLocked_updated hm hl
  case recent    =>
    refine .inl fun u' hmem _ => ?_
    rw [xmaxXids, if_neg hm, hx.xmax, List.mem_singleton] at hmem
    exact hmem ▸ hge.right

-- There is a new multixact.
theorem Executed.joined {multi : Nat} {infomask2 : UInt16}
    (h : Executed env tup tup' freezeXmin plan)
    (hplan : plan = .replaced multi
      (tInfomask tup &&& ~~~heapXmaxBits ||| (getMultiXactIdHintBits (env.members multi)).1) infomask2)
    (hne : env.members multi ≠ []) (hge : ∀ m ∈ env.members multi, Stays env tup m.xid)
    (hrun : ∀ u ∈ xmaxXids env.members tup, x.inProgress u → u ∈ (env.members multi).map (·.xid))
    (hup : ∀ m ∈ env.members multi, m.status.isUpdate → updateXid x.updater tup = some m.xid)
    (hkept : ∀ u, updateXid x.updater tup = some u → x.inProgress u ∨ x.didCommit u →
      ∃ m ∈ env.members multi, m.status.isUpdate ∧ m.xid = u) : XmaxKept env plan tup tup' := by
  subst hplan
  have hx : XmaxIs (multiXmax env.members multi) tup' :=
    h.xmaxIs rfl fun f hf => UInt16.replace_and (UInt16.subset_disjoint hf (by decide))
  have hm : heapTupleHas heapXmaxIsMulti tup' := multi_joined hx
  have hl := lockedOnly_joined hx
  have hxm : heapTupleHeaderGetRawXmax tup' = multi := hx.xmax
  obtain ⟨hi, hc, hupg⟩ := no_hints_joined hx
  constructor
  case updates   =>
    by_cases hlock : heapXmaxIsLockedOnly tup'
    case pos =>
      rw [updateXid_none hlock]
      refine .inr ⟨fun u hu => ?_, fun u hu => absurd hu (by simp)⟩
      have hn : ¬(x.inProgress u ∨ x.didCommit u) := by
        intro hp
        obtain ⟨m, hmem, hmu, -⟩ := hkept u hu hp
        exact hl.mp hlock m hmem hmu
      exact not_or.mp hn
    case neg =>
      have hn := mt hl.mpr hlock
      push Not at hn
      obtain ⟨m, hmem, hmu⟩ := hn
      have hget := multiXactIdGetUpdateXid_eq hmem hmu fun m₁ h₁ m₂ h₂ hu₁ hu₂ =>
        Option.some.inj ((hup m₁ h₁ hu₁).symm.trans (hup m₂ h₂ hu₂))
      exact .inl (by rw [updateXid_multi hlock hm, heapTupleGetUpdateXid, hxm, env.updater, hget, hup m hmem hmu])
  case running   =>
    rw [xmaxXids_joined hx]
    exact hrun
  case no_more   =>
    rw [xmaxXids_joined hx]
    exact List.forall_mem_map.mpr fun m hmem => .inr (hge m hmem).left
  case committed => rw [hc]; exact fun hf => absurd hf Bool.false_ne_true
  case invalid   => rw [hi]; exact fun hf => absurd hf Bool.false_ne_true
  case upgraded  => rw [hupg]; exact fun hf => absurd hf Bool.false_ne_true
  case locked    =>
    constructor
    case lock_only => rw [hxm]; exact fun _ => hl
    case nonempty  => rw [hxm]; exact fun _ => hne
    case unique    =>
      rw [hxm]
      exact fun _ m₁ h₁ m₂ h₂ hu₁ hu₂ => Option.some.inj ((hup m₁ h₁ hu₁).symm.trans (hup m₂ h₂ hu₂))
    case lock_bits => exact fun hn => absurd hm hn
  case recent    =>
    rw [xmaxXids_joined hx]
    exact .inl (List.forall_mem_map.mpr fun m hmem _ => (hge m hmem).right)

theorem Executed.xmaxKept (h : Executed env tup tup' freezeXmin plan) (ht : x.Truthful tup)
    (hw : WellLocked env.members tup) : XmaxKept env plan tup tup' := by
  have hp := h.plans
  cases hp
  case kept                           => exact h.kept ht hw
  case frozen                         => exact h.invalidated
  case xid _ hge hu hc hrun           => exact h.reduced rfl hge hu hc hrun
  case multi _ hne hge hrun hup hkept => exact h.joined rfl hne hge hrun hup hkept

end FreezeEnv
