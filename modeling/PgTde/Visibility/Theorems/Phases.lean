import PgTde.Visibility.Theorems.RowVersion

open XactStatus

namespace RowVersion

variable {s s' : RowVersion} {b b' : Nat} {context context' : TestContext} {xid : Nat} {tup tup' : List UInt8}
variable {isUpdate : Bool} {new : NewXmax} {mode : TupleLock}

-- Each test, and each wait, sets hints that are true.
theorem Tests.hinted {x : XactStatus} (h : x.Truthful tup) (ht : Tests x tup tup') : x.Hinted tup tup' := by
  cases ht
  case self              =>
    obtain ⟨_, hh, he⟩ := heapTupleSatisfiesSelf_eq h
    rwa [he]
  case dirty             =>
    obtain ⟨_, hh, he⟩ := heapTupleSatisfiesDirty_eq h
    rwa [he]
  case mvcc snapshot     =>
    obtain ⟨_, hh, he⟩ := snapshot.heapTupleSatisfiesMVCC_eq h
    rwa [he]
  case update curcid tSelf =>
    obtain ⟨_, hh, he⟩ := heapTupleSatisfiesUpdate_eq curcid tSelf h
    rwa [he]
  case vacuum            =>
    obtain ⟨_, hh, he⟩ := heapTupleSatisfiesVacuumHorizon_eq h
    rwa [he]
  case toast             =>
    rw [heapTupleSatisfiesToast, heapTupleHas_movedOff h.not_moved, heapTupleHas_movedIn h.not_moved]
    split
    · exact h.hinted_self
    · split <;> exact h.hinted_self
  case waited hm hp      =>
    simp only [updateXmaxHintBits]
    split
    case isTrue  => exact h.hinted_self
    case isFalse =>
      split
      case isTrue hd  => exact h.hinted_xmaxCommitted hd.left hm (fate_committed_iff.mpr ⟨hp, hd.right⟩)
      case isFalse hd => exact h.hinted_goneXmax hm hp (by simpa [or_iff_not_imp_left] using hd)

-- What the backends find out about a transaction.
def phaseFate (b : Nat) : XactPhase → Fate
  | .unassigned | .aborted => .aborted
  | .running b'            => if b' = b then .own else .running
  | .committing _          => .running
  | .committed             => .committed

theorem view_fate : (s.view b context).fate xid = phaseFate b (s.phase xid) := by
  have hc : (s.view b context).isCurrent xid = decide (s.phase xid = .running b) := rfl
  have hp : (s.view b context).inProgress xid = (s.phase xid).inProgress := rfl
  have hd : (s.view b context).didCommit xid = (s.phase xid).didCommit := rfl
  rw [XactStatus.fate, fateOf, hc, hp, hd]
  generalize s.phase xid = p
  cases p <;> simp [XactPhase.inProgress, XactPhase.didCommit, phaseFate]

theorem view_agrees : (s.view b context).Agrees (s.view b' context') where
  inProgress := rfl
  didCommit  := rfl
  updater    := rfl
  isRunning  := rfl

theorem view_own_iff : (s.view b context).fate xid = .own ↔ s.phase xid = .running b := by
  rw [fate_own_iff]
  exact decide_eq_true_iff

theorem updater_congr (hm : s'.members = s.members) : s'.updater = s.updater := by
  funext multi
  rw [updater, updater, hm]

-- What holds of the version in the course of the transactions.
structure Invariant (s : RowVersion) : Prop where
  truthful         : ∀ b context, (s.view b context).Truthful s.tup
  assigned_xmin    : s.phase (heapTupleHeaderGetRawXmin s.tup) ≠ .unassigned
  assigned_xmax    : ∀ u ∈ xmaxXids s.members s.tup, s.phase u ≠ .unassigned
  assigned_lockers : ∀ u ∈ s.lockers, s.phase u ≠ .unassigned
  locked           : WellLocked s.members s.tup
  updaters         : ∀ u ∈ s.updaters, s.phase u ≠ .aborted →
    updateXid s.updater s.tup = some u
  lockers          : ∀ u ∈ s.lockers, (s.phase u).inProgress → u ∈ xmaxXids s.members s.tup

-- The transaction that has updated the tuple is among those in t_xmax.
theorem updateXid_assigned (ha : ∀ u ∈ xmaxXids s.members s.tup, s.phase u ≠ .unassigned)
    (h : updateXid s.updater s.tup = some xid) :
    s.phase xid ≠ .unassigned := by
  rw [updateXid] at h
  split at h
  case isTrue  => cases h
  case isFalse =>
    simp only [xmaxXids] at ha
    split at h
    case isTrue hm  =>
      rw [if_pos hm] at ha
      cases h
      rw [updater, multiXactIdGetUpdateXid]
      cases hf : (s.members (heapTupleHeaderGetRawXmax s.tup)).find? (·.status.isUpdate)
      case none   => rw [s.invalid]; decide
      case some m => exact ha _ (List.mem_map_of_mem (List.mem_of_find?_eq_some hf))
    case isFalse hm =>
      rw [if_neg hm] at ha
      cases h
      exact ha _ (List.mem_singleton_self _)

section Advance

-- Transactions are started, and get finished for good.
structure Advances (s s' : RowVersion) : Prop where
  row       : SameRow s s'
  committed : ∀ xid, s.phase xid = .committed → s'.phase xid = .committed
  aborted   : ∀ xid, s.phase xid = .aborted → s'.phase xid = .aborted
  assigned  : ∀ xid, s.phase xid ≠ .unassigned → s'.phase xid ≠ .unassigned
  finished  : ∀ xid, s.phase xid ≠ .unassigned → (s'.phase xid).inProgress → (s.phase xid).inProgress
  running   : ∀ b xid, s.phase xid ≠ .unassigned → s'.phase xid = .running b → s.phase xid = .running b
  together  : ∀ b xid xid', s.phase xid = .running b → s'.phase xid = .running b → s.phase xid' = .running b →
    s'.phase xid' = .running b ∨ s'.phase xid' = .aborted

theorem Advances.fate_committed (ha : Advances s s') (hx : s.phase xid ≠ .unassigned)
    (hf : (s.view b context).fate xid = .committed) : (s'.view b context').fate xid = .committed := by
  rw [view_fate] at hf ⊢
  cases hp : s.phase xid <;> rw [hp, phaseFate] at hf
  case committed    => rw [ha.committed xid hp, phaseFate]
  case unassigned   => exact absurd hp hx
  case running b'   => split at hf <;> cases hf
  case committing   => cases hf
  case aborted      => cases hf

theorem Advances.fate_aborted (ha : Advances s s') (hx : s.phase xid ≠ .unassigned)
    (hf : (s.view b context).fate xid = .aborted) : (s'.view b context').fate xid = .aborted := by
  rw [view_fate] at hf ⊢
  cases hp : s.phase xid <;> rw [hp, phaseFate] at hf
  case aborted    => rw [ha.aborted xid hp, phaseFate]
  case unassigned => exact absurd hp hx
  case running b' => split at hf <;> cases hf
  case committing => cases hf
  case committed  => cases hf

-- Hints that are true stay so when transactions get finished.
theorem Advances.truthful (ha : Advances s s') (h : s.Invariant) (b : Nat) (context : TestContext) :
    (s'.view b context).Truthful s'.tup := by
  have ht := h.truthful b context
  have hu (u) (hx : updateXid (s.view b context).updater s.tup = some u) : s.phase u ≠ .unassigned :=
    updateXid_assigned h.assigned_xmax hx
  have hupdater : (s'.view b context).updater = (s.view b context).updater := updater_congr ha.row.members
  -- The fate of a deletion that has been aborted.
  have hdel (hd : ∀ fate ∈ (s.view b context).deletion s.tup, fate = .aborted) :
      ∀ fate ∈ (s'.view b context).deletion s.tup, fate = .aborted := by
    intro fate hf
    rw [deletion, deletionFate] at hd hf
    rw [hupdater] at hf
    cases hx : updateXid (s.view b context).updater s.tup
    case none   => rw [hx] at hf; cases hf
    case some u =>
      rw [hx] at hd hf
      cases hf
      exact ha.fate_aborted (hu u hx) (hd _ rfl)
  have hruns (hr : ¬(s.view b context).xmaxRuns s.tup) : ¬(s'.view b context).xmaxRuns s.tup := by
    have hassigned := h.assigned_xmax
    simp only [xmaxXids] at hassigned
    simp only [xmaxRuns] at hr ⊢
    split
    case isTrue hm  =>
      rw [if_pos hm] at hr hassigned
      intro hany
      simp only [view, ha.row.members] at hany
      obtain ⟨m, hm', hp⟩ := List.any_eq_true.mp hany
      exact hr (List.any_eq_true.mpr ⟨m, hm', ha.finished _ (hassigned _ (List.mem_map_of_mem hm')) hp⟩)
    case isFalse hm =>
      rw [if_neg hm] at hr hassigned
      exact fun hp => hr (ha.finished _ (hassigned _ (List.mem_singleton_self _)) hp)
  rw [ha.row.tup]
  constructor
  case header        => exact ht.header
  case not_moved     => exact ht.not_moved
  case upgraded      => exact fun hup => hruns (ht.upgraded hup)
  case xmaxInvalid   => exact fun hi => ⟨hruns (ht.xmaxInvalid hi).left, hdel (ht.xmaxInvalid hi).right⟩
  case xmaxCommitted =>
    intro hc
    obtain ⟨hl, hm, hf⟩ := ht.xmaxCommitted hc
    exact ⟨hl, hm, ha.fate_committed (hu _ (updateXid_single hl hm)) hf⟩
  case xminCommitted =>
    intro hc
    have hi := ht.xminCommitted hc
    rw [insertion, insertionFate] at hi ⊢
    split
    case isTrue     => rfl
    case isFalse hf =>
      rw [if_neg hf] at hi
      exact ha.fate_committed h.assigned_xmin hi
  case xminInvalid   =>
    intro hx
    have hi := ht.xminInvalid hx
    rw [insertion, insertionFate] at hi ⊢
    split
    case isTrue hf  =>
      rw [if_pos hf] at hi
      cases hi
    case isFalse hf =>
      rw [if_neg hf] at hi
      exact ha.fate_aborted h.assigned_xmin hi
  case own           =>
    intro hi fate hf
    have hi' : (s.view b context).insertion s.tup = .own ∧
        s'.phase (heapTupleHeaderGetRawXmin s.tup) = .running b := by
      rw [insertion, insertionFate] at hi ⊢
      split at hi
      case isTrue      => cases hi
      case isFalse hfr =>
        rw [view_own_iff] at hi
        rw [if_neg hfr, view_own_iff]
        exact ⟨ha.running b _ h.assigned_xmin hi, hi⟩
    have hrun : s.phase (heapTupleHeaderGetRawXmin s.tup) = .running b := ha.running b _ h.assigned_xmin hi'.right
    have hown := ht.own hi'.left
    rw [deletion, deletionFate] at hown hf
    rw [hupdater] at hf
    cases hx : updateXid (s.view b context).updater s.tup
    case none   => rw [hx] at hf; cases hf
    case some u =>
      rw [hx] at hown hf
      cases hf
      obtain ho | ho := hown _ rfl
      case inl =>
        rw [view_own_iff] at ho
        obtain hr | hr := ha.together b _ u hrun hi'.right ho
        · exact .inl (view_own_iff.mpr hr)
        · exact .inr (by rw [view_fate, hr, phaseFate])
      case inr => exact .inr (ha.fate_aborted (hu u hx) ho)

theorem Advances.invariant (ha : Advances s s') (h : s.Invariant) : s'.Invariant where
  truthful         := ha.truthful h
  assigned_xmin    := by
    rw [ha.row.tup]
    exact ha.assigned _ h.assigned_xmin
  assigned_xmax    := by
    rw [ha.row.members, ha.row.tup]
    exact fun u hu => ha.assigned _ (h.assigned_xmax u hu)
  assigned_lockers := by
    rw [ha.row.lockers]
    exact fun u hu => ha.assigned _ (h.assigned_lockers u hu)
  locked           := by
    rw [ha.row.members, ha.row.tup]
    exact h.locked
  updaters         := by
    rw [updater_congr ha.row.members, ha.row.tup, ha.row.updaters]
    exact fun u hu hn => h.updaters u hu fun hab => hn (ha.aborted u hab)
  lockers          := by
    rw [ha.row.members, ha.row.tup, ha.row.lockers]
    exact fun u hu hp => h.lockers u hu (ha.finished u (h.assigned_lockers u hu) hp)

-- The steps that only concern transactions.
theorem advances_start (hx : s.phase xid = .unassigned) (hr : SameRow s s')
    (hp : s'.phase = Function.update s.phase xid (.running b)) : Advances s s' := by
  have hne {u} (hu : s.phase u ≠ .unassigned) : s'.phase u = s.phase u := by
    rw [hp, Function.update_of_ne]
    rintro rfl
    exact hu hx
  constructor
  case row       => exact hr
  case committed => exact fun u hu => (hne (by rw [hu]; decide)).trans hu
  case aborted   => exact fun u hu => (hne (by rw [hu]; decide)).trans hu
  case assigned  => exact fun u hu => by rwa [hne hu]
  case finished  => exact fun u hu hpr => by rwa [hne hu] at hpr
  case running   => exact fun b' u hu hr' => by rwa [hne hu] at hr'
  case together  => exact fun b' u u' _ _ hu' => .inl ((hne (by rw [hu']; simp)).trans hu')

theorem advances_commit (hr : SameRow s s') (hp : s'.phase = fun xid => commit b (s.phase xid)) : Advances s s' := by
  constructor
  case row       => exact hr
  case committed => exact fun u hu => by simp only [hp, hu, commit]
  case aborted   => exact fun u hu => by simp only [hp, hu, commit]
  case assigned  =>
    intro u hu
    simp only [hp, commit]
    split
    · split <;> simp
    · exact hu
  case finished  =>
    intro u _ hpr
    simp only [hp] at hpr
    cases hu : s.phase u <;> rw [hu] at hpr
    case running    => rfl
    case committing => rfl
    all_goals cases hpr
  case running   =>
    intro b' u _ hr'
    simp only [hp] at hr'
    cases hu : s.phase u <;> simp only [hu, commit] at hr'
    case running =>
      split at hr'
      · cases hr'
      · exact hr'
    all_goals cases hr'
  case together  =>
    intro b' u u' hu hu' hx
    simp only [hp, hu, commit] at hu'
    split at hu'
    · cases hu'
    · simp only [hp, hx, commit, if_neg ‹_›, true_or]

theorem advances_finish (hr : SameRow s s') (hp : s'.phase = fun xid => finish b (s.phase xid)) : Advances s s' := by
  constructor
  case row       => exact hr
  case committed => exact fun u hu => by simp only [hp, hu, finish]
  case aborted   => exact fun u hu => by simp only [hp, hu, finish]
  case together  => exact fun b' u u' _ _ hx => by simp only [hp, hx, finish, true_or]
  case assigned  =>
    intro u hu
    simp only [hp, finish]
    split
    · split <;> simp
    · exact hu
  case finished  =>
    intro u _ hpr
    simp only [hp] at hpr
    cases hu : s.phase u <;> rw [hu] at hpr
    case running    => rfl
    case committing => rfl
    all_goals cases hpr
  case running   =>
    intro b' u _ hr'
    simp only [hp] at hr'
    cases hu : s.phase u <;> simp only [hu, finish] at hr'
    case running    => exact hr'
    case committing => split at hr' <;> cases hr'
    all_goals cases hr'

theorem advances_abort {xids : List Nat} (hx : ∀ xid ∈ xids, s.phase xid = .running b) (hr : SameRow s s')
    (hp : s'.phase = fun xid => if xid ∈ xids then .aborted else s.phase xid) : Advances s s' := by
  constructor
  case row       => exact hr
  case aborted   => exact fun u hu => by simp only [hp, hu, ite_self]
  case committed =>
    intro u hu
    have hn : u ∉ xids := fun hn => by rw [hx u hn] at hu; cases hu
    simp only [hp, if_neg hn, hu]
  case assigned  =>
    intro u hu
    simp only [hp]
    split
    · simp
    · exact hu
  case finished  =>
    intro u _ hpr
    simp only [hp] at hpr
    split at hpr
    · cases hpr
    · exact hpr
  case running   =>
    intro b' u _ hr'
    simp only [hp] at hr'
    split at hr'
    · cases hr'
    · exact hr'
  case together  =>
    intro b' u u' _ _ hu'
    simp only [hp]
    split
    · exact .inr rfl
    · exact .inl hu'

end Advance

section Hints

variable {x : XactStatus} {members : MultiXactMembers}

theorem oldStatus_hinted (h : x.Hinted tup tup') (hl : 20 ≤ tup.length) : oldStatus tup' = oldStatus tup := by
  obtain ⟨hints, hh, rfl⟩ := h.stored
  rw [oldStatus, oldStatus, oldUpdateStatus, oldUpdateStatus, heapXmaxIsLockedOnly_storeHints hl hh,
    tInfomask_storeHints hl, UInt16.keep_or (UInt16.and_eq_zero_of_subset hh (by decide)), tInfomask2, tInfomask2,
    unsignedAt_storeHints hl (by decide)]

theorem isMulti_hinted (h : x.Hinted tup tup') (hl : 20 ≤ tup.length) :
    heapTupleHas heapXmaxIsMulti tup' = heapTupleHas heapXmaxIsMulti tup := by
  obtain ⟨hints, hh, rfl⟩ := h.stored
  exact heapTupleHas_storeHints_of_subset hl hh (by decide)

theorem rawXmax_hinted (h : x.Hinted tup tup') (hl : 20 ≤ tup.length) :
    heapTupleHeaderGetRawXmax tup' = heapTupleHeaderGetRawXmax tup := by
  obtain ⟨hints, hh, rfl⟩ := h.stored
  exact unsignedAt_storeHints hl (by decide)

theorem rawXmin_hinted (h : x.Hinted tup tup') (hl : 20 ≤ tup.length) :
    heapTupleHeaderGetRawXmin tup' = heapTupleHeaderGetRawXmin tup := by
  obtain ⟨hints, hh, rfl⟩ := h.stored
  exact unsignedAt_storeHints hl (by decide)

theorem lockedOnly_hinted (h : x.Hinted tup tup') (hl : 20 ≤ tup.length) :
    heapXmaxIsLockedOnly tup' = heapXmaxIsLockedOnly tup := by
  obtain ⟨hints, hh, rfl⟩ := h.stored
  exact heapXmaxIsLockedOnly_storeHints hl hh

theorem xmaxXids_hinted (h : x.Hinted tup tup') (hl : 20 ≤ tup.length) :
    xmaxXids members tup' = xmaxXids members tup := by
  rw [xmaxXids, xmaxXids, isMulti_hinted h hl, rawXmax_hinted h hl]

theorem wellLocked_hinted (h : x.Hinted tup tup') (hl : 20 ≤ tup.length) (hw : WellLocked members tup) :
    WellLocked members tup' := by
  constructor
  case lock_only => rw [isMulti_hinted h hl, lockedOnly_hinted h hl, rawXmax_hinted h hl]; exact hw.lock_only
  case nonempty  => rw [isMulti_hinted h hl, rawXmax_hinted h hl]; exact hw.nonempty
  case unique    => rw [isMulti_hinted h hl, rawXmax_hinted h hl]; exact hw.unique
  case lock_bits => rw [isMulti_hinted h hl, oldStatus_hinted h hl]; exact hw.lock_bits

theorem view_congr (hp : s'.phase = s.phase) (hm : s'.members = s.members) :
    (s.view b context).Agrees (s'.view b' context') := by
  constructor
  case inProgress => simp only [view, hp]
  case didCommit  => simp only [view, hp]
  case updater    => exact updater_congr hm
  case isRunning  => simp only [view, hp, hm]

theorem fate_congr (hp : s'.phase = s.phase) :
    (s'.view b context').fate = (s.view b context).fate := by
  funext xid
  rw [view_fate, view_fate, hp]

-- A test, or a wait.
theorem invariant_hinted (h : s.Invariant) (hp : s'.phase = s.phase) (hm : s'.members = s.members)
    (hu : s'.updaters = s.updaters) (hl : s'.lockers = s.lockers)
    (hh : (s.view b context).Hinted s.tup s'.tup) : s'.Invariant := by
  have hlen : 20 ≤ s.tup.length := by
    have := (h.truthful b context).length_ge
    omega
  constructor
  case truthful         =>
    intro b' context'
    have hup : (s'.view b' context').updater = (s.view b' context').updater := (view_congr hp hm).updater
    refine hh.truthful.transfer (view_congr hp hm) ?_
    rw [insertion, deletion, hh.insertionFate_eq hlen, hh.deletionFate_eq hlen, fate_congr hp, hup]
    exact (h.truthful b' context').own
  case assigned_xmin    => rw [rawXmin_hinted hh hlen, hp]; exact h.assigned_xmin
  case assigned_xmax    => rw [xmaxXids_hinted hh hlen, hp, hm]; exact h.assigned_xmax
  case assigned_lockers => rw [hl, hp]; exact h.assigned_lockers
  case locked           => rw [hm]; exact wellLocked_hinted hh hlen h.locked
  case updaters         => rw [hu, hp, updater_congr hm, hh.updateXid_eq hlen]; exact h.updaters
  case lockers          => rw [hl, hp, hm, xmaxXids_hinted hh hlen]; exact h.lockers

end Hints

end RowVersion
