import PgTde.Visibility.Theorems.Phases
import PgTde.Visibility.Theorems.StoredXmax

open XactStatus

namespace RowVersion

variable {s s' : RowVersion} {b b' : Nat} {context context' : TestContext} {xid : Nat} {isUpdate : Bool}

-- What becomes of t_xmax when a transaction adds itself.
structure Added (s s' : RowVersion) (xid : Nat) (isUpdate : Bool) : Prop where
  phase    : s'.phase = s.phase
  length   : s'.tup.length = s.tup.length
  xmin     : heapTupleHeaderGetRawXmin s'.tup = heapTupleHeaderGetRawXmin s.tup
  hints    : ∀ f, heapXminFrozen &&& f = f → tInfomask s'.tup &&& f = tInfomask s.tup &&& f
  moved    : ¬heapTupleHas heapMoved s.tup → ¬heapTupleHas heapMoved s'.tup
  no_hints : heapTupleHas heapXmaxInvalid s'.tup = false ∧ heapTupleHas heapXmaxCommitted s'.tup = false ∧
    heapLockedUpgraded s'.tup = false
  locked   : WellLocked s'.members s'.tup
  added    : xid ∈ xmaxXids s'.members s'.tup
  kept     : ∀ u ∈ xmaxXids s.members s.tup, (s.phase u).inProgress → u ∈ xmaxXids s'.members s'.tup
  no_more  : ∀ u ∈ xmaxXids s'.members s'.tup, u = xid ∨ u ∈ xmaxXids s.members s.tup
  updated  : isUpdate → updateXid s'.updater s'.tup = some xid
  stays    : ∀ u, ¬isUpdate → updateXid s.updater s.tup = some u → s.phase u ≠ .aborted →
    updateXid s'.updater s'.tup = some u
  only     : ∀ u, updateXid s'.updater s'.tup = some u →
    isUpdate ∧ u = xid ∨ ¬isUpdate ∧ updateXid s.updater s.tup = some u

-- A transaction that is neither aborted nor yet to be assigned.
theorem view_fate_ne_aborted (hn : s.phase xid ≠ .aborted) (ha : s.phase xid ≠ .unassigned) :
    (s.view b context).fate xid ≠ .aborted := by
  rw [view_fate]
  cases hp : s.phase xid
  case aborted    => exact absurd hp hn
  case unassigned => exact absurd hp ha
  case running    => rw [phaseFate]; split <;> simp
  case committing => simp [phaseFate]
  case committed  => simp [phaseFate]

theorem AddsToXmax.added (h : s.Invariant) (ha : s.AddsToXmax s' b context xid isUpdate) :
    Added s s' xid isUpdate := by
  have hx := h.truthful b context
  have hl := hx.length_ge
  obtain ⟨multis, mode, new, hm, hm', he, hstores⟩ := ha.stores
  have hadds := MultiXacts.computeNewXmaxInfomask_adds hx (by rw [hm]; exact h.locked)
    (decide_eq_true ha.running) (lockable_cases hx ha.locks).right
    (fun hup => updatable_deletion hx (ha.updates hup)) he
  have hst := hstores.xmaxStored (by omega) hadds.infomask
  clear he hstores
  cases hadds
  case alone mode hgone hdel                                 =>
    have hxids := @xmaxXids_alone _ _ _ _ hst.toXmaxIs s'.members
    have hupd := @updateXid_alone _ _ _ _ hst.toXmaxIs s'.updater
    constructor
    case phase    => exact ha.phase
    case length   => exact hst.length
    case xmin     => exact hst.xmin
    case hints    => exact hst.hints
    case moved    => exact hst.moved
    case no_hints => exact no_hints_alone hst.toXmaxIs
    case locked   => exact wellLocked_alone hst.toXmaxIs
    case added    => rw [hxids]; exact List.mem_singleton_self _
    case kept     =>
      intro u hu hp
      rw [hxids, List.mem_singleton]
      exact hgone u (by rwa [hm]) hp
    case no_more  =>
      intro u hu
      rw [hxids, List.mem_singleton] at hu
      exact .inl hu
    case updated  => exact fun hup => by rw [hupd, if_pos hup]
    case stays    =>
      intro u _ hu hn
      have hf := hdel ((s.view b context).fate u) (by
        rw [deletion, deletionFate]
        exact Option.map_eq_some_iff.mpr ⟨u, hu, rfl⟩)
      exact absurd hf (view_fate_ne_aborted hn (updateXid_assigned h.assigned_xmax hu))
    case only     =>
      intro u hu
      rw [hupd] at hu
      split at hu
      case isTrue hup => exact .inl ⟨hup, (Option.some.inj hu).symm⟩
      case isFalse    => cases hu
  case joined multi status hs hadd hkept hmore honly hstays =>
    have hxids := xmaxXids_joined hst.toXmaxIs
    have hmulti := multi_joined hst.toXmaxIs
    have hlocked := lockedOnly_joined hst.toXmaxIs
    have hxmax : heapTupleHeaderGetRawXmax s'.tup = multi := hst.xmax
    rw [hm'] at hadd hkept hmore honly hstays hxids hlocked
    rw [hm] at hkept hmore
    -- The updating members of the new multixact are the same transaction.
    have hunique : ∀ m₁ ∈ s'.members multi, ∀ m₂ ∈ s'.members multi,
        m₁.status.isUpdate → m₂.status.isUpdate → m₁.xid = m₂.xid := by
      intro m₁ h₁ m₂ h₂ hu₁ hu₂
      cases hup : isUpdate
      case true  =>
        obtain rfl := (honly m₁ h₁ hu₁).resolve_right fun hn => hn.left hup
        obtain rfl := (honly m₂ h₂ hu₂).resolve_right fun hn => hn.left hup
        rfl
      case false =>
        rw [hup] at hs
        have hne {m : MultiXactMember} (hu : m.status.isUpdate) : m ≠ ⟨xid, status⟩ := by
          rintro rfl
          rw [hs] at hu
          cases hu
        have h₁ := ((honly m₁ h₁ hu₁).resolve_left (hne hu₁)).right
        have h₂ := ((honly m₂ h₂ hu₂).resolve_left (hne hu₂)).right
        exact Option.some.inj (h₁.symm.trans h₂)
    have hupdate (m) (hmem : m ∈ s'.members multi) (hu : m.status.isUpdate) :
        updateXid s'.updater s'.tup = some m.xid := by
      have hl : ¬heapXmaxIsLockedOnly s'.tup := fun hl => hlocked.mp hl m hmem hu
      rw [updateXid, if_neg hl, if_pos hmulti, hxmax, updater, multiXactIdGetUpdateXid_eq hmem hu hunique]
    constructor
    case phase    => exact ha.phase
    case length   => exact hst.length
    case xmin     => exact hst.xmin
    case hints    => exact hst.hints
    case moved    => exact hst.moved
    case no_hints => exact no_hints_joined hst.toXmaxIs
    case added    => rw [hxids]; exact List.mem_map_of_mem hadd
    case kept     => rw [hxids]; exact hkept
    case locked   =>
      constructor
      case lock_only => rw [hxmax]; exact fun _ => hlocked
      case nonempty  => rw [hxmax]; exact fun _ => List.ne_nil_of_mem hadd
      case unique    => rw [hxmax]; exact fun _ => hunique
      case lock_bits => exact fun hn => absurd hmulti hn
    case no_more  =>
      intro u hu
      rw [hxids] at hu
      obtain ⟨m, hmem, rfl⟩ := List.mem_map.mp hu
      obtain rfl | hin := hmore m hmem
      · exact .inl rfl
      · exact .inr hin
    case updated  => exact fun hup => hupdate _ hadd (hs.trans hup)
    case stays    =>
      intro u _ hu hn
      obtain ⟨m, hmem, hmu, rfl⟩ := hstays u hu
        (view_fate_ne_aborted hn (updateXid_assigned h.assigned_xmax hu))
      exact hupdate m hmem hmu
    case only     =>
      intro u hu
      have hl : ¬heapXmaxIsLockedOnly s'.tup := by
        intro hl
        rw [updateXid, if_pos hl] at hu
        cases hu
      have hn := mt hlocked.mpr hl
      push Not at hn
      obtain ⟨m, hmem, hmu⟩ := hn
      obtain rfl := Option.some.inj ((hupdate m hmem hmu).symm.trans hu)
      obtain rfl | hold := honly m hmem hmu
      · exact .inl ⟨hs.symm.trans hmu, rfl⟩
      · exact .inr hold

namespace Added

variable (h : Added s s' xid isUpdate)

include h

theorem has_eq {f : UInt16} (hf : heapXminFrozen &&& f = f) : heapTupleHas f s'.tup = heapTupleHas f s.tup := by
  rw [heapTupleHas, heapTupleHas, h.hints f hf]

theorem frozen_eq : heapTupleHeaderXminFrozen s'.tup = heapTupleHeaderXminFrozen s.tup := by
  rw [heapTupleHeaderXminFrozen_eq, heapTupleHeaderXminFrozen_eq, h.has_eq (by decide), h.has_eq (by decide)]

-- What becomes of the insertion does not depend on t_xmax.
theorem insertion_eq : (s'.view b' context').insertion s'.tup = (s.view b' context).insertion s.tup := by
  rw [insertion, insertion, insertionFate, insertionFate, h.frozen_eq, h.xmin, fate_congr h.phase]

theorem truthful (hi : s.Invariant) (ha : s.AddsToXmax s' b context xid isUpdate) (b' : Nat)
    (context' : TestContext) : (s'.view b' context').Truthful s'.tup := by
  have ht := hi.truthful b' context'
  have hins := @insertion_eq _ _ b' context' context' _ _ h
  constructor
  case header        => rw [h.length]; exact ht.header
  case not_moved     => exact h.moved ht.not_moved
  case xmaxCommitted => rw [h.no_hints.right.left]; exact fun hf => absurd hf Bool.false_ne_true
  case xmaxInvalid   => rw [h.no_hints.left]; exact fun hf => absurd hf Bool.false_ne_true
  case upgraded      => rw [h.no_hints.right.right]; exact fun hf => absurd hf Bool.false_ne_true
  case xminCommitted =>
    have hc := ht.xminCommitted
    rw [heapTupleHeaderXminCommitted] at hc ⊢
    rwa [h.has_eq (by decide), hins]
  case xminInvalid   =>
    have hc := ht.xminInvalid
    rw [heapTupleHeaderXminInvalid_eq] at hc ⊢
    rwa [h.has_eq (by decide), h.has_eq (by decide), hins]
  case own           =>
    rw [hins]
    intro hown fate hf
    -- Only the backend that has inserted the tuple sees it, until the insertion is committed.
    have hb : b' = b := by
      have hcount := (lockable_cases (hi.truthful b context) ha.locks).left
      rw [insertion, insertionFate] at hown hcount
      split at hown
      case isTrue      => cases hown
      case isFalse hfr =>
        rw [if_neg hfr] at hcount
        rw [view_own_iff] at hown
        obtain hc | hc := hcount
        · exact XactPhase.running.inj (hown.symm.trans (view_own_iff.mp hc))
        · rw [view_fate, hown, phaseFate] at hc
          split at hc <;> cases hc
    have hfate : (s'.view b' context').fate = (s.view b' context').fate := fate_congr h.phase
    rw [deletion, deletionFate] at hf
    obtain ⟨u, hu, rfl⟩ := Option.map_eq_some_iff.mp hf
    rw [hfate]
    obtain ⟨-, rfl⟩ | ⟨-, hold⟩ := h.only u hu
    case inl =>
      exact .inl (view_own_iff.mpr (by rw [hb]; exact ha.running))
    case inr =>
      refine ht.own hown _ ?_
      rw [deletion, deletionFate]
      exact Option.map_eq_some_iff.mpr ⟨u, hold, rfl⟩

end Added

theorem AddsToXmax.invariant (h : s.Invariant) (ha : s.AddsToXmax s' b context xid isUpdate)
    (hl : s'.lockers = xid :: s.lockers)
    (hu : s'.updaters = if isUpdate then xid :: s.updaters else s.updaters) : s'.Invariant := by
  have hadded := ha.added h
  have hassigned : s.phase xid ≠ .unassigned := by
    rw [ha.running]
    simp
  constructor
  case truthful         => exact hadded.truthful h ha
  case assigned_xmin    => rw [hadded.xmin, hadded.phase]; exact h.assigned_xmin
  case locked           => exact hadded.locked
  case assigned_xmax    =>
    intro u hx
    rw [hadded.phase]
    obtain rfl | hx := hadded.no_more u hx
    · exact hassigned
    · exact h.assigned_xmax u hx
  case assigned_lockers =>
    rw [hl, hadded.phase]
    intro u hx
    cases hx
    case head    => exact hassigned
    case tail hx => exact h.assigned_lockers u hx
  case lockers          =>
    rw [hl, hadded.phase]
    intro u hx hp
    cases hx
    case head    => exact hadded.added
    case tail hx => exact hadded.kept u (h.lockers u hx hp) hp
  case updaters         =>
    rw [hu, hadded.phase]
    intro u hx hn
    cases hup : isUpdate <;> subst hup
    case false => exact hadded.stays u Bool.false_ne_true (h.updaters u hx hn) hn
    case true  =>
      cases hx
      case head    => exact hadded.updated rfl
      case tail hx =>
        -- The transactions that have updated the tuple before have all been aborted.
        have hold := h.updaters u hx hn
        have hd := updatable_deletion (h.truthful b context) (ha.updates rfl) ((s.view b context).fate u) (by
          rw [deletion, deletionFate]
          exact Option.map_eq_some_iff.mpr ⟨u, hold, rfl⟩)
        exact absurd hd (view_fate_ne_aborted hn (updateXid_assigned h.assigned_xmax hold))

end RowVersion
