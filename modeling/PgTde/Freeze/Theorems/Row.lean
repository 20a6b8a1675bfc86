import PgTde.Freeze.Row
import PgTde.Freeze.Theorems.Frozen
import PgTde.Visibility.Theorems.RowHistory

open XactStatus

namespace RowVersion

variable {s s' : RowVersion} {b : Nat} {context : TestContext}

section Members

-- Multixacts are created, but none that the version knows of.
variable (h : s.Invariant) (hp : s'.phase = s.phase)
variable (hk : ∀ multi, s.members multi ≠ [] → s'.members multi = s.members multi)

include h hk

theorem members_eq (hm : heapTupleHas heapXmaxIsMulti s.tup) :
    s'.members (heapTupleHeaderGetRawXmax s.tup) = s.members (heapTupleHeaderGetRawXmax s.tup) :=
  hk _ (h.locked.nonempty hm)

theorem xmaxXids_members : xmaxXids s'.members s.tup = xmaxXids s.members s.tup := by
  rw [xmaxXids, xmaxXids]
  split
  case isTrue hm  => rw [members_eq h hk hm]
  case isFalse hm => rfl

theorem updateXid_members : updateXid s'.updater s.tup = updateXid s.updater s.tup := by
  rw [updateXid, updateXid]
  split
  case isTrue  => rfl
  case isFalse =>
    split
    case isTrue hm  => rw [updater, updater, members_eq h hk hm]
    case isFalse hm => rfl

theorem wellLocked_members : WellLocked s'.members s.tup where
  lock_only hm := by
    rw [members_eq h hk hm]
    exact h.locked.lock_only hm
  nonempty hm  := by
    rw [members_eq h hk hm]
    exact h.locked.nonempty hm
  unique hm    := by
    rw [members_eq h hk hm]
    exact h.locked.unique hm
  lock_bits    := h.locked.lock_bits

include hp

theorem truthful_members (b : Nat) (context : TestContext) : (s'.view b context).Truthful s.tup := by
  have ht := h.truthful b context
  have hfate : (s'.view b context).fate = (s.view b context).fate := fate_congr hp
  have hins : (s'.view b context).insertion s.tup = (s.view b context).insertion s.tup := by
    rw [insertion, insertion, hfate]
  have hdel : (s'.view b context).deletion s.tup = (s.view b context).deletion s.tup := by
    have hu : updateXid (s'.view b context).updater s.tup = updateXid (s.view b context).updater s.tup :=
      updateXid_members h hk
    rw [deletion, deletion, deletionFate, deletionFate, hfate, hu]
  have hruns : (s'.view b context).xmaxRuns s.tup = (s.view b context).xmaxRuns s.tup := by
    simp only [xmaxRuns]
    split
    case isTrue hm  => simp only [view, hp, members_eq h hk hm]
    case isFalse hm => simp only [view, hp]
  constructor
  case header        => exact ht.header
  case not_moved     => exact ht.not_moved
  case xminCommitted => rw [hins]; exact ht.xminCommitted
  case xminInvalid   => rw [hins]; exact ht.xminInvalid
  case xmaxCommitted => rw [hfate]; exact ht.xmaxCommitted
  case xmaxInvalid   => rw [hruns, hdel]; exact ht.xmaxInvalid
  case own           => rw [hins, hdel]; exact ht.own
  case upgraded      => rw [hruns]; exact ht.upgraded

end Members

theorem gone_phase {xid : Nat} (h : FreezeEnv.Gone (s.view b context) xid) (ha : s.phase xid ≠ .unassigned) :
    s.phase xid = .aborted := by
  have hf := FreezeEnv.gone_iff.mpr h
  rw [view_fate] at hf
  cases hp : s.phase xid <;> rw [hp, phaseFate] at hf
  case unassigned => exact absurd hp ha
  case running    => split at hf <;> cases hf
  case committing => cases hf
  case committed  => cases hf

theorem Freezes.invariant (h : s.Invariant) (hf : s.Freezes s') : s'.Invariant := by
  obtain ⟨hp, hu, hl, hk, b, context, env, frz, pagefrz, pagefrz', hm, hprep, hexec⟩ := hf
  have ht := truthful_members h hp hk
  have hw : WellLocked env.members s.tup := hm ▸ wellLocked_members h hk
  obtain ⟨plan, planned, hprepared⟩ := FreezeEnv.prepared (ht b context) hw hprep
  have hx := hprepared.executed _ hexec
  have hkept := hx.xmaxKept (ht b context) hw
  have hxids : xmaxXids env.members s.tup = xmaxXids s.members s.tup := by rw [hm, xmaxXids_members h hk]
  constructor
  case truthful         => exact fun b' context' => hx.truthful view_agrees hkept (ht b' context')
  case assigned_xmin    => rw [hx.xmin, hp]; exact h.assigned_xmin
  case assigned_lockers => rw [hl, hp]; exact h.assigned_lockers
  case locked           => exact hm ▸ hkept.locked
  case assigned_xmax    =>
    intro u hmem
    rw [hp]
    obtain rfl | hmem := hkept.no_more u (hm ▸ hmem)
    · rw [s.invalid]
      decide
    · exact h.assigned_xmax u (hxids ▸ hmem)
  case updaters         =>
    rw [hu, hp]
    intro u hmem hn
    have hold : updateXid s'.updater s.tup = some u := (updateXid_members h hk).trans (h.updaters u hmem hn)
    obtain he | hgone := hkept.updates
    · exact he.trans hold
    · have ha := updateXid_assigned h.assigned_xmax (h.updaters u hmem hn)
      have hab := gone_phase (hgone.left u hold) (by rwa [hp])
      rw [hp] at hab
      exact absurd hab hn
  case lockers          =>
    rw [hl, hp]
    intro u hmem hpr
    rw [←hm]
    refine hkept.running u (hxids ▸ h.lockers u hmem hpr) ?_
    have hprog : (s'.view b context).inProgress u = (s'.phase u).inProgress := rfl
    rwa [hprog, hp]

theorem freezingSystem_invariant : freezingSystem.Invariant Invariant where
  initial _ h       := Initial.invariant h
  step _ a _ h hs := by
    cases a
    case none   => exact Freezes.invariant h hs
    case some a => exact Step.invariant h hs

section Example

def committing (b : Nat) (s : RowVersion) : RowVersion where
  phase xid  := commit b (s.phase xid)
  members    := s.members
  tup        := s.tup
  updaters   := s.updaters
  lockers    := s.lockers
  invalid    := by rw [s.invalid]; rfl
  no_members := s.no_members

def finished (b : Nat) (s : RowVersion) : RowVersion where
  phase xid  := finish b (s.phase xid)
  members    := s.members
  tup        := s.tup
  updaters   := s.updaters
  lockers    := s.lockers
  invalid    := by rw [s.invalid]; rfl
  no_members := s.no_members

def committedRow : RowVersion :=
  finished 0 (committing 0 (insertedRow false))

-- A transaction is about to delete a row that another one has inserted and committed.
def beingDeleted : RowVersion :=
  deletedBy 4 committedRow

theorem reachable_beingDeleted : freezingSystem.Reachable beingDeleted := by
  have h₀ : freezingSystem.Reachable (insertedRow false) := .initial ⟨rfl, rfl, .inserted 3 0 false ⟨0, rfl⟩ (by decide)⟩
  have h₁ : freezingSystem.Step (insertedRow false) (some (.commit 0)) (committing 0 (insertedRow false)) :=
    ⟨⟨rfl, rfl, rfl, rfl⟩, rfl⟩
  have h₂ : freezingSystem.Step (committing 0 (insertedRow false)) (some (.finish 0)) committedRow :=
    ⟨⟨rfl, rfl, rfl, rfl⟩, rfl⟩
  have h₃ : freezingSystem.Step committedRow (some (.update 1 4)) beingDeleted :=
    step_deletedBy _ 1 4 rfl (by decide) (by decide)
  exact ((h₀.step h₁).step h₂).step h₃

def deletedFreezePlan : FreezePlan where
  xmax               := 4
  xvac               := none
  infomask           := heapXminFrozen
  infomask2          := heapKeysUpdated
  checkXminCommitted := true
  checkXmaxAborted   := false
  totallyFrozen      := false
  usable             := true

def frozenBeingDeleted : RowVersion where
  phase      := beingDeleted.phase
  members    := beingDeleted.members
  tup        := deletedFreezePlan.pgTdeExecuteFreezeTuple beingDeleted.tup
  updaters   := beingDeleted.updaters
  lockers    := beingDeleted.lockers
  invalid    := beingDeleted.invalid
  no_members := beingDeleted.no_members

theorem beingDeleted_oldest (xid : Nat) (h : transactionIdPrecedes xid 4) :
    ¬(frozenBeingDeleted.view 2 exampleContext).inProgress xid := by
  intro hp
  have hp : (finish 0 (commit 0 ((insertedRow false).phase xid))).inProgress := hp
  simp only [insertedRow] at hp
  by_cases h4 : xid = 4
  case pos =>
    rw [h4] at h
    exact absurd h (by decide)
  case neg =>
    by_cases h5 : xid = 5
    case pos =>
      rw [h5] at h
      exact absurd h (by decide)
    case neg =>
      rw [if_neg h4, if_neg h5] at hp
      split at hp
      · cases hp
      · split at hp <;> cases hp

def beingDeletedEnv : FreezeEnv (frozenBeingDeleted.view 2 exampleContext) where
  cutoffs       := ⟨3, 1, 4, 1, 3, 1⟩
  members       := frozenBeingDeleted.members
  create _      := .error (.error "database is not accepting commands that generate new MultiXactIds")
  skips _       := false
  invalid       := rfl
  updater _     := rfl
  running _ _   := rfl
  small _ _ h   := nomatch h
  created _ _ h := nomatch h
  skipped _ h   := (Bool.false_ne_true h).elim
  oldest        := beingDeleted_oldest

theorem reachable_frozenBeingDeleted : freezingSystem.Reachable frozenBeingDeleted := by
  have hf : beingDeleted.Freezes frozenBeingDeleted :=
    ⟨rfl, rfl, rfl, fun _ _ => rfl, 2, exampleContext, beingDeletedEnv, deletedFreezePlan, ⟨false, 4, 1, 4, 1⟩,
      ⟨false, 4, 1, 3, 1⟩, rfl, rfl, rfl⟩
  have hs : freezingSystem.Step beingDeleted none frozenBeingDeleted := hf
  exact reachable_beingDeleted.step hs

end Example

-- Freezing, at whatever time it happens, takes nothing from the transactions that have locked or updated the version.
theorem freezing_keeps (h : freezingSystem.Reachable s) :
    (∀ b context, (s.view b context).Truthful s.tup) ∧
    (∀ u ∈ s.updaters, ∀ v ∈ s.updaters, s.phase u ≠ .aborted → s.phase v ≠ .aborted → u = v) ∧
    (∀ u ∈ s.updaters, s.phase u ≠ .aborted → updateXid s.updater s.tup = some u) ∧
    ∀ u ∈ s.lockers, (s.phase u).inProgress → u ∈ xmaxXids s.members s.tup := by
  have hi := freezingSystem_invariant.reachable h
  refine ⟨hi.truthful, fun u hu v hv hnu hnv => ?_, hi.updaters, hi.lockers⟩
  exact Option.some.inj ((hi.updaters u hu hnu).symm.trans (hi.updaters v hv hnv))

theorem freezing_keeps_frozenBeingDeleted : heapTupleHeaderXminFrozen frozenBeingDeleted.tup ∧
    updateXid frozenBeingDeleted.updater frozenBeingDeleted.tup = some 4 :=
  ⟨by decide, (freezing_keeps reachable_frozenBeingDeleted).right.right.left 4 (List.mem_singleton_self 4) (by decide)⟩

end RowVersion
