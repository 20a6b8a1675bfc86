import PgTde.Visibility.Theorems.NewTuple

namespace RowVersion

variable {s s' : RowVersion} {a : RowAction} {b : Nat} {context : TestContext}

theorem Step.invariant (h : s.Invariant) (hs : Step s a s') : s'.Invariant := by
  cases a
  case start b xid  => exact (advances_start hs.left hs.right.left hs.right.right).invariant h
  case commit b     => exact (advances_commit hs.left hs.right).invariant h
  case finish b     => exact (advances_finish hs.left hs.right).invariant h
  case abort b xids => exact (advances_abort hs.left hs.right.left hs.right.right).invariant h
  case test b       =>
    obtain ⟨hp, hm, hu, hl, context, ht⟩ := hs
    exact invariant_hinted h hp hm hu hl (ht.hinted (h.truthful b context))
  case lock b xid   =>
    obtain ⟨hu, hl, context, ha⟩ := hs
    exact ha.invariant h hl (by rwa [if_neg Bool.false_ne_true])
  case update b xid =>
    obtain ⟨hu, hl, context, ha⟩ := hs
    exact ha.invariant h hl (by rwa [if_pos rfl])

theorem system_invariant : system.Invariant Invariant where
  initial _ h       := Initial.invariant h
  step _ _ _ h hs := Step.invariant h hs

section Example

-- Two transactions delete a row that a third one has inserted frozen, the first of which is aborted.
def insertedRow (frozen : Bool) : RowVersion where
  phase xid  := if xid = 0 then .aborted else if xid = 3 then .running 0 else if xid = 4 then .running 1
    else if xid = 5 then .running 2 else .unassigned
  members _  := []
  tup        := pgTdePrepareInsert 3 0 frozen (List.replicate 24 0)
  updaters   := []
  lockers    := []
  invalid    := rfl
  no_members := rfl

def deletedBy (xid : UInt32) (s : RowVersion) : RowVersion where
  phase      := s.phase
  members    := s.members
  tup        := storeXmax ⟨xid, 0, heapKeysUpdated, rfl, rfl⟩ 0 false (List.replicate 6 0) s.tup
  updaters   := xid.toNat :: s.updaters
  lockers    := xid.toNat :: s.lockers
  invalid    := s.invalid
  no_members := s.no_members

def aborted (xid : Nat) (s : RowVersion) : RowVersion where
  phase u    := if u ∈ [xid] then .aborted else s.phase u
  members    := s.members
  tup        := s.tup
  updaters   := s.updaters
  lockers    := s.lockers
  invalid    := by
    split
    · rfl
    · exact s.invalid
  no_members := s.no_members

def deletedTwice : RowVersion :=
  deletedBy 5 (aborted 4 (deletedBy 4 (insertedRow true)))

def exampleContext : TestContext :=
  ⟨fun _ => false, id, id⟩

-- No multixact is created or expanded.
def keptMultis (s : RowVersion) (b : Nat) (context : TestContext) : MultiXacts (s.view b context) where
  members          := s.members
  members'         := s.members
  create _ _       := .error (.error "database is not accepting commands that generate new MultiXactIds")
  expand _ _       := .error (.error "database is not accepting commands that generate new MultiXactIds")
  updater _        := rfl
  running _ _      := rfl
  kept _ _         := rfl
  created _ _ _ h  := nomatch h
  expanded _ _ _ h := nomatch h

theorem step_deletedBy (s : RowVersion) (b : Nat) (xid : UInt32) (hr : s.phase xid.toNat = .running b)
    (hu : ((s.view b exampleContext).heapTupleSatisfiesUpdate 1 ⟨0, 1⟩ s.tup).1 = .ok)
    (hn : (keptMultis s b exampleContext).computeNewXmaxInfomask s.tup xid.toNat .exclusive true =
      .ok (newLocker xid.toNat .exclusive true)) :
    system.Step s (.update b xid.toNat) (deletedBy xid s) := by
  refine ⟨rfl, rfl, exampleContext, hr, rfl, ⟨1, ⟨0, 1⟩, by rw [hu]; decide⟩, fun _ => ⟨1, ⟨0, 1⟩, .inl hu⟩, ?_⟩
  exact ⟨keptMultis s b exampleContext, .exclusive, _, rfl, rfl, hn, .delete rfl rfl⟩

theorem reachable_insertedRow (frozen : Bool) : system.Reachable (insertedRow frozen) :=
  .initial ⟨rfl, rfl, .inserted 3 0 frozen ⟨0, rfl⟩ (by decide)⟩

theorem step_aborted (s : RowVersion) (b xid : Nat) (h : s.phase xid = .running b) :
    system.Step s (.abort b [xid]) (aborted xid s) := by
  refine ⟨fun u hu => ?_, ⟨rfl, rfl, rfl, rfl⟩, rfl⟩
  rwa [List.mem_singleton.mp hu]

theorem reachable_deletedTwice : system.Reachable deletedTwice :=
  (((reachable_insertedRow true).step (step_deletedBy _ 1 4 rfl (by decide) (by decide))).step
    (step_aborted _ 1 4 rfl)).step (step_deletedBy _ 2 5 rfl (by decide) (by decide))

end Example

-- Whatever has become of the version and of the transactions, no backend is misled by a hint.
theorem hints_never_mislead (h : system.Reachable s) (b : Nat) (context : TestContext) :
    (s.view b context).Truthful s.tup ∧ (s.view b context).SameResults (unhinted s.tup) s.tup := by
  have ht := (system_invariant.reachable h).truthful b context
  obtain ⟨hself, hdirty, hmvcc, hupdate, hvacuum⟩ :=
    (XactStatus.hinted_unhinted ht).sameResults (XactStatus.truthful_unhinted ht)
  exact ⟨ht, hself.symm, hdirty.symm, fun snapshot => (hmvcc snapshot).symm,
    fun curcid tSelf => (hupdate curcid tSelf).symm, hvacuum.symm⟩

theorem hints_never_mislead_deletedTwice :
    (deletedTwice.view 2 exampleContext).Truthful deletedTwice.tup ∧
    (deletedTwice.view 2 exampleContext).SameResults (unhinted deletedTwice.tup)
      deletedTwice.tup :=
  hints_never_mislead reachable_deletedTwice 2 exampleContext

-- The transactions that have updated or deleted the version have all been aborted, but for one.
theorem first_updater_wins (h : system.Reachable s) :
    ∀ u ∈ s.updaters, ∀ v ∈ s.updaters, s.phase u ≠ .aborted → s.phase v ≠ .aborted → u = v := by
  have hi := system_invariant.reachable h
  intro u hu v hv hnu hnv
  exact Option.some.inj ((hi.updaters u hu hnu).symm.trans (hi.updaters v hv hnv))

theorem first_updater_wins_deletedTwice :
    deletedTwice.updaters = [5, 4] ∧
    ∀ u ∈ deletedTwice.updaters, ∀ v ∈ deletedTwice.updaters,
      deletedTwice.phase u ≠ .aborted → deletedTwice.phase v ≠ .aborted → u = v :=
  ⟨rfl, first_updater_wins reachable_deletedTwice⟩

-- A transaction that has locked the version is in its xmax for as long as it is running.
theorem lockers_kept (h : system.Reachable s) :
    ∀ u ∈ s.lockers, (s.phase u).inProgress → u ∈ xmaxXids s.members s.tup :=
  (system_invariant.reachable h).lockers

theorem lockers_kept_deletedTwice :
    5 ∈ xmaxXids deletedTwice.members deletedTwice.tup :=
  lockers_kept reachable_deletedTwice 5 (by decide) (by decide)

end RowVersion
