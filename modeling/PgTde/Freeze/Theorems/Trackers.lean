import PgTde.Freeze.Page
import PgTde.Freeze.Theorems.Frozen
import PgTde.Library.Circular

open XactStatus Circular Ratchet

namespace FreezeEnv

variable {x : XactStatus} {env : FreezeEnv x} {tup tup' : List UInt8} {plan : XmaxPlan} {frz : FreezePlan}
variable {pagefrz pagefrz' planned : HeapPageFreeze} {action : FreezeXmax} {base multi u : Nat}
variable {P : Nat → Prop} {r : Bool × HeapPageFreeze} {members : List MultiXactMember}

-- The normal transactions in use are within half of the circle.
def Recent (base xid : Nat) : Prop :=
  transactionIdIsNormal xid ∧ InHalf base xid

theorem transactionIdPrecedes_iff (a b : Nat) (ha : Recent base a) (hb : Recent base b) :
    transactionIdPrecedes a b ↔ ahead base a < ahead base b := by
  have hna : 3 ≤ a := of_decide_eq_true ha.left
  have hnb : 3 ≤ b := of_decide_eq_true hb.left
  rw [transactionIdPrecedes, if_neg (by omega), decide_eq_true_iff, sub_neg_iff ha.right hb.right]

structure InUse (env : FreezeEnv x) (base : Nat) (tup : List UInt8) : Prop where
  xmin : ¬heapTupleHeaderXminFrozen tup → transactionIdIsNormal (heapTupleHeaderGetRawXmin tup) →
    InHalf base (heapTupleHeaderGetRawXmin tup)
  xmax : ∀ u ∈ xmaxXids env.members tup, heapTupleHas heapXmaxIsMulti tup ∨ transactionIdIsNormal u → Recent base u

-- No transaction is left that is older than a tracker.
def Tracked (members : MultiXactMembers) (base tracker : Nat) (tup : List UInt8) : Prop :=
  ∀ u ∈ remainingXids members tup, transactionIdIsNormal u → InHalf base u ∧ ahead base tracker ≤ ahead base u

-- What the plan for t_xmax does to the trackers.
structure Tracks (env : FreezeEnv x) (base : Nat) (tup : List UInt8) (pagefrz pagefrz' : HeapPageFreeze)
    (kept : Prop) : Prop where
  noFreeze   : pagefrz'.noFreezePageRelfrozenXid = pagefrz.noFreezePageRelfrozenXid
  below      : Below (ahead base) (Recent base) pagefrz'.freezePageRelfrozenXid pagefrz.freezePageRelfrozenXid
  members    : kept → ∀ m ∈ env.members (heapTupleHeaderGetRawXmax tup),
    ahead base pagefrz'.freezePageRelfrozenXid ≤ ahead base m.xid
  required   : pagefrz.freezeRequired → pagefrz'.freezeRequired
  unrequired : ¬pagefrz'.freezeRequired → heapTupleHas heapXmaxIsMulti tup →
    heapTupleHeaderGetRawXmax tup ≠ 0 ∧ ¬heapLockedUpgraded tup ∧
      env.getMultiXactIdMembers (heapTupleHeaderGetRawXmax tup) (heapXmaxIsLockedOnly tup) =
        env.members (heapTupleHeaderGetRawXmax tup)

theorem Tracks.freezes (hp : Recent base pagefrz.freezePageRelfrozenXid) {kept : Prop} (hk : ¬kept) :
    Tracks env base tup pagefrz { pagefrz with freezeRequired := true } kept where
  noFreeze     := rfl
  below        := ⟨hp, le_rfl⟩
  members h    := absurd h hk
  required _   := rfl
  unrequired h := absurd rfl h

theorem freezeOldMulti_ne_noop (h : env.freezeOldMulti multi tup = .ok action) : action ≠ .noop := by
  rintro rfl
  simp only [freezeOldMulti] at h
  repeat' split at h
  all_goals cases h

theorem replaceMulti_ne_noop (h : env.replaceMulti multi members = .ok action) : action ≠ .noop := by
  rintro rfl
  obtain ⟨k, -, h⟩ := Outcome.bind_eq_ok_iff.mp h
  split at h
  · cases h
  · split at h
    · cases h
    · obtain ⟨multi', -, h⟩ := Outcome.bind_eq_ok_iff.mp h
      cases h

theorem freezeMultiXactId_tracks (hmem : ∀ m ∈ env.members (heapTupleHeaderGetRawXmax tup), Recent base m.xid)
    (hp : Recent base pagefrz.freezePageRelfrozenXid)
    (he : env.freezeMultiXactId (heapTupleHeaderGetRawXmax tup) tup pagefrz = .ok (action, pagefrz')) :
    Tracks env base tup pagefrz pagefrz' (action = .noop) := by
  simp only [freezeMultiXactId] at he
  split at he
  case isTrue       =>
    cases he
    exact .freezes hp (by simp)
  case isFalse hup  =>
    split at he
    case isTrue  => cases he
    case isFalse =>
      split at he
      case isTrue  =>
        obtain ⟨action', ha, he⟩ := Outcome.bind_eq_ok_iff.mp he
        cases he
        exact .freezes hp (freezeOldMulti_ne_noop ha)
      case isFalse =>
        split at he
        case isTrue      =>
          cases he
          exact .freezes hp (by simp)
        case isFalse hne =>
          have hall : env.getMultiXactIdMembers (heapTupleHeaderGetRawXmax tup) (heapXmaxIsLockedOnly tup) =
              env.members (heapTupleHeaderGetRawXmax tup) := by
            rw [getMultiXactIdMembers] at hne ⊢
            split at hne
            case isTrue     => exact absurd rfl hne
            case isFalse hs => exact if_neg hs
          split at he
          case isTrue  =>
            obtain ⟨action', ha, he⟩ := Outcome.bind_eq_ok_iff.mp he
            cases he
            exact .freezes hp (replaceMulti_ne_noop ha)
          case isFalse =>
            cases he
            obtain ⟨hb, hle⟩ := below_foldl transactionIdPrecedes_iff (List.forall_mem_map.mpr hmem) hp
            rw [List.foldl_map] at hb hle
            rw [hall]
            constructor
            case noFreeze   => rfl
            case below      => exact hb
            case members    => exact fun _ m hm => hle m.xid (List.mem_map_of_mem hm)
            case required   => exact id
            case unrequired => exact fun _ _ => ⟨(not_or.mp hup).left, (not_or.mp hup).right, hall⟩

theorem planXmax_tracks (hu : InUse env base tup) (hp : Recent base pagefrz.freezePageRelfrozenXid)
    (he : env.planXmax tup pagefrz = .ok (plan, pagefrz')) :
    Tracks env base tup pagefrz pagefrz' (plan = .kept ∧ heapTupleHas heapXmaxIsMulti tup) := by
  simp only [planXmax] at he
  split at he
  case isTrue hm  =>
    obtain ⟨⟨action, pagefrz₁⟩, ha, he⟩ := Outcome.bind_eq_ok_iff.mp he
    have hmem (m) (hm' : m ∈ env.members (heapTupleHeaderGetRawXmax tup)) : Recent base m.xid :=
      hu.xmax m.xid ((mem_xmaxXids hm).mpr ⟨m, hm', rfl⟩) (.inl hm)
    have ht := freezeMultiXactId_tracks hmem hp ha
    have hkept : pagefrz' = pagefrz₁ ∧ (plan = .kept → action = .noop) := by
      cases action <;> cases he <;> simp
    obtain ⟨rfl, hkept⟩ := hkept
    exact { ht with members := fun hk => ht.members (hkept hk.left) }
  case isFalse hm =>
    have hsame : pagefrz' = pagefrz := by
      repeat' split at he
      all_goals cases he
      all_goals rfl
    subst hsame
    constructor
    case noFreeze   => rfl
    case below      => exact ⟨hp, le_rfl⟩
    case members    => exact fun hk => absurd hk.right hm
    case required   => exact id
    case unrequired => exact fun _ hm' => absurd hm' hm

-- What has been noted so far of the transactions of a tuple that is not frozen.
structure Covers (base : Nat) (pagefrz : HeapPageFreeze) (P : Nat → Prop) (r : Bool × HeapPageFreeze) : Prop where
  freeze : r.2.freezePageRelfrozenXid = pagefrz.freezePageRelfrozenXid
  below  : Below (ahead base) (Recent base) r.2.noFreezePageRelfrozenXid pagefrz.noFreezePageRelfrozenXid
  noted  : ∀ u, P u → ahead base r.2.noFreezePageRelfrozenXid ≤ ahead base u

theorem Covers.imp {Q : Nat → Prop} (h : Covers base pagefrz P r) (hq : ∀ u, Q u → P u) : Covers base pagefrz Q r where
  freeze     := h.freeze
  below      := h.below
  noted u hu := h.noted u (hq u hu)

theorem Covers.noteXid (h : Covers base pagefrz P r) (hu : Recent base u) :
    Covers base pagefrz (fun v => P v ∨ v = u) (env.noteXid u r) := by
  obtain ⟨hb, hle⟩ := below_ratchet transactionIdPrecedes_iff hu h.below.within
  have hr : (env.noteXid u r).2.noFreezePageRelfrozenXid =
      ratchet transactionIdPrecedes r.2.noFreezePageRelfrozenXid u := by
    simp only [FreezeEnv.noteXid, ratchet]
    split <;> rfl
  constructor
  case freeze =>
    rw [←h.freeze]
    simp only [FreezeEnv.noteXid]
    split <;> rfl
  case below  =>
    rw [hr]
    exact ⟨hb.within, hb.le.trans h.below.le⟩
  case noted  =>
    rw [hr]
    rintro v (hv | rfl)
    · exact hb.le.trans (h.noted v hv)
    · exact hle

theorem Covers.noteMulti {freeze : Bool} (h : Covers base pagefrz P r) :
    Covers base pagefrz P (env.noteMulti multi freeze r) := by
  have hf : (env.noteMulti multi freeze r).2.freezePageRelfrozenXid = r.2.freezePageRelfrozenXid := by
    simp only [FreezeEnv.noteMulti]
    split <;> rfl
  have hn : (env.noteMulti multi freeze r).2.noFreezePageRelfrozenXid = r.2.noFreezePageRelfrozenXid := by
    simp only [FreezeEnv.noteMulti]
    split <;> rfl
  exact ⟨hf.trans h.freeze, by rw [hn]; exact h.below, by rw [hn]; exact h.noted⟩

theorem Covers.foldl (h : Covers base pagefrz P r) (hmem : ∀ m ∈ members, Recent base m.xid) :
    Covers base pagefrz (fun v => P v ∨ v ∈ members.map (·.xid))
      (members.foldl (fun r m => env.noteXid m.xid r) r) := by
  induction members generalizing P r
  case nil              => simpa using h
  case cons m members hi =>
    obtain ⟨hm, hmem⟩ := List.forall_mem_cons.mp hmem
    refine (hi (@Covers.noteXid _ env _ _ _ _ _ h hm) hmem).imp fun v hv => ?_
    rwa [List.map_cons, List.mem_cons, ←or_assoc] at hv

-- A permanent transaction id is passed over.
theorem Covers.noteNormal (h : Covers base pagefrz P r) (hu : transactionIdIsNormal u → Recent base u) :
    Covers base pagefrz (fun v => P v ∨ v = u ∧ transactionIdIsNormal v)
      (if transactionIdIsNormal u then env.noteXid u r else r) := by
  split
  case isTrue hn  => exact (h.noteXid (hu hn)).imp fun v hv => hv.imp_right And.left
  case isFalse hn => exact h.imp fun v hv => hv.resolve_right fun hv => hn (hv.left ▸ hv.right)

theorem mem_remainingXids (h : u ∈ remainingXids env.members tup) :
    u = heapTupleHeaderGetXmin tup ∨ u ∈ xmaxXids env.members tup := by
  obtain h | h := List.mem_append.mp h
  · split at h
    case isTrue      => cases h
    case isFalse hf  => exact .inl ((List.mem_singleton.mp h).trans (if_neg hf).symm)
  · exact .inr h

theorem InUse.recent_xmin (hu : InUse env base tup) (hn : transactionIdIsNormal (heapTupleHeaderGetXmin tup)) :
    Recent base (heapTupleHeaderGetXmin tup) := by
  rw [heapTupleHeaderGetXmin] at hn ⊢
  split at hn
  case isTrue      => cases hn
  case isFalse hf  =>
    rw [if_neg hf]
    exact ⟨hn, hu.xmin hf hn⟩

theorem InUse.recent (hu : InUse env base tup) (h : u ∈ remainingXids env.members tup) (hn : transactionIdIsNormal u) :
    Recent base u := by
  obtain rfl | hx := mem_remainingXids h
  · exact hu.recent_xmin hn
  · exact hu.xmax u hx (.inr hn)

-- All transactions are noted, if no multixact is such that its members cannot be told.
theorem pgTdeTupleShouldFreeze_covers (hu : InUse env base tup) (hv : ¬heapTupleHas heapMoved tup)
    (hp : Recent base pagefrz.noFreezePageRelfrozenXid)
    (hm : heapTupleHas heapXmaxIsMulti tup → heapTupleHeaderGetRawXmax tup ≠ 0 ∧ ¬heapLockedUpgraded tup ∧
      env.getMultiXactIdMembers (heapTupleHeaderGetRawXmax tup) (heapXmaxIsLockedOnly tup) =
        env.members (heapTupleHeaderGetRawXmax tup)) :
    Covers base pagefrz (fun v => v ∈ remainingXids env.members tup ∧ transactionIdIsNormal v)
      (env.pgTdeTupleShouldFreeze tup pagefrz) := by
  have h₀ : Covers base pagefrz (fun _ => False) (false, pagefrz) := ⟨rfl, ⟨hp, le_rfl⟩, fun _ => False.elim⟩
  have h₁ := @Covers.noteNormal _ env _ _ _ _ _ h₀ hu.recent_xmin
  simp only [pgTdeTupleShouldFreeze, if_neg (not_and.mpr fun hmoved => absurd hmoved hv)]
  split
  case isTrue hmulti  =>
    obtain ⟨h0, hup, hall⟩ := hm hmulti
    have hmem (m) (hm' : m ∈ env.members (heapTupleHeaderGetRawXmax tup)) : Recent base m.xid :=
      hu.xmax m.xid ((mem_xmaxXids hmulti).mpr ⟨m, hm', rfl⟩) (.inl hmulti)
    rw [if_neg h0, if_neg hup, hall]
    refine (h₁.noteMulti.foldl hmem).imp fun v hv => ?_
    obtain rfl | hx := mem_remainingXids hv.left
    · exact .inl (.inr ⟨rfl, hv.right⟩)
    · rw [xmaxXids, if_pos hmulti] at hx
      exact .inr hx
  case isFalse hmulti =>
    have hxids : xmaxXids env.members tup = [heapTupleHeaderGetRawXmax tup] := if_neg hmulti
    refine (h₁.noteNormal fun hn => hu.xmax _ (by rw [hxids]; exact List.mem_singleton_self _) (.inr hn)).imp
      fun v hv => ?_
    obtain rfl | hx := mem_remainingXids hv.left
    · exact .inl (.inr ⟨rfl, hv.right⟩)
    · rw [hxids, List.mem_singleton] at hx
      exact .inr ⟨hx, hv.right⟩

end FreezeEnv
