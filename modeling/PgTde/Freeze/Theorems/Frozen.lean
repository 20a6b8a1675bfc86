import PgTde.Freeze.Theorems.Xmax
import PgTde.Visibility.Theorems.Agreement

open XactStatus

namespace FreezeEnv

variable {x x' : XactStatus} {env : FreezeEnv x} {tup tup' : List UInt8} {plan : XmaxPlan} {frz : FreezePlan}
variable {pagefrz pagefrz' : HeapPageFreeze} {freezeXmin : Bool}

-- What a backend finds in a tuple that has been frozen.
structure Preserves (x' : XactStatus) (env : FreezeEnv x) (tup tup' : List UInt8) : Prop where
  truthful : x'.Truthful tup'
  locked   : WellLocked env.members tup'
  -- No transaction loses its lock, or its update.
  running  : ∀ u ∈ xmaxXids env.members tup, x.inProgress u → u ∈ xmaxXids env.members tup'
  visible  : ∀ snapshot : MvccSnapshot x', snapshot.Respects (transactionIdPrecedes · env.cutoffs.oldestXmin) →
    (snapshot.Visible tup' ↔ snapshot.Visible tup)

-- The xmin is frozen if it is from before the horizon.
def freezesXmin (env : FreezeEnv x) (tup : List UInt8) : Bool :=
  transactionIdIsNormal (heapTupleHeaderGetXmin tup) &&
    transactionIdPrecedes (heapTupleHeaderGetXmin tup) env.cutoffs.oldestXmin

theorem of_freezesXmin (h : env.freezesXmin tup) :
    transactionIdPrecedes (heapTupleHeaderGetRawXmin tup) env.cutoffs.oldestXmin := by
  obtain ⟨hn, hprec⟩ := (Bool.and_eq_true _ _).mp h
  have hraw : heapTupleHeaderGetXmin tup = heapTupleHeaderGetRawXmin tup := by
    rw [heapTupleHeaderGetXmin] at hn
    split at hn
    case isTrue       => cases hn
    case isFalse hraw => exact if_neg hraw
  exact hraw ▸ hprec

theorem of_not_freezesXmin (h : ¬env.freezesXmin tup) (hf : ¬heapTupleHeaderXminFrozen tup)
    (hn : transactionIdIsNormal (heapTupleHeaderGetRawXmin tup)) :
    ¬transactionIdPrecedes (heapTupleHeaderGetRawXmin tup) env.cutoffs.oldestXmin := by
  intro hprec
  have hraw : heapTupleHeaderGetXmin tup = heapTupleHeaderGetRawXmin tup := if_neg hf
  exact h ((Bool.and_eq_true _ _).mpr ⟨hraw ▸ hn, hraw ▸ hprec⟩)

-- A freeze plan, with the plan for t_xmax that it contains, and the trackers after it.
structure Prepared (env : FreezeEnv x) (tup : List UInt8) (pagefrz pagefrz' : HeapPageFreeze) (frz : FreezePlan)
    (plan : XmaxPlan) (planned : HeapPageFreeze) : Prop where
  plans    : env.planXmax tup pagefrz = .ok (plan, planned)
  trackers : pagefrz' =
    if ¬planned.freezeRequired ∧ ¬(!transactionIdIsNormal (heapTupleHeaderGetXmin tup) ∧
        (!heapTupleHas heapXmaxIsMulti tup && heapTupleHeaderGetRawXmax tup = invalidTransactionId))
    then { (env.pgTdeTupleShouldFreeze tup planned).2 with freezeRequired := (env.pgTdeTupleShouldFreeze tup planned).1 }
    else planned
  executed : ∀ tup', env.pgTdeFreezeExecutePrepared tup frz = .ok tup' →
    Executed env tup tup' (env.freezesXmin tup) plan
  unusable : ¬frz.usable → Executed env tup tup (env.freezesXmin tup) plan

theorem prepared (ht : x.Truthful tup) (hw : WellLocked env.members tup)
    (hp : env.pgTdePrepareFreezeTuple tup pagefrz = .ok (frz, pagefrz')) :
    ∃ plan planned, Prepared env tup pagefrz pagefrz' frz plan planned := by
  have hl : 22 ≤ tup.length := by
    have := ht.length_ge
    omega
  have hv : heapTupleHeaderGetXvac tup = invalidTransactionId := if_neg ht.not_moved
  have hvn : transactionIdIsNormal (heapTupleHeaderGetXvac tup) = false := by
    rw [hv]
    rfl
  simp only [pgTdePrepareFreezeTuple, hvn, Bool.false_eq_true, if_false] at hp
  split at hp
  case isTrue  => cases hp
  case isFalse =>
    obtain ⟨⟨plan, planned⟩, hplan, hp⟩ := Outcome.bind_eq_ok_iff.mp hp
    have hplans := planXmax_plans ht hw hplan
    cases hp
    refine ⟨plan, planned, hplan, rfl, fun tup' he => ?_, fun hu => ?_⟩
    case refine_1 =>
      simp only [pgTdeFreezeExecutePrepared] at he
      split at he
      case isTrue        => cases he
      case isFalse hxmin =>
        split at he
        case isTrue        => cases he
        case isFalse hxmax =>
          cases he
          constructor
          case length    => exact (HeapTupleFreeze.pgTdeExecuteFreezeTuple_reheaded hl).length
          case xmin      => exact HeapTupleFreeze.rawXmin_pgTdeExecuteFreezeTuple hl
          case commandId => exact HeapTupleFreeze.rawCommandId_pgTdeExecuteFreezeTuple hl rfl
          case infomask  => exact HeapTupleFreeze.tInfomask_pgTdeExecuteFreezeTuple hl
          case infomask2 => exact HeapTupleFreeze.tInfomask2_pgTdeExecuteFreezeTuple hl
          case recent    => exact of_not_freezesXmin
          case plans     => exact hplans
          case xmax      =>
            rw [HeapTupleFreeze.rawXmax_pgTdeExecuteFreezeTuple hl]
            exact UInt32.toNat_ofNat_of_lt' hplans.xmax_lt
          case frozen    => exact fun hf => ⟨not_not.mp fun hd => hxmin ⟨hf, hd⟩, of_freezesXmin hf⟩
          case aborted   =>
            intro hf hm hlock hd
            refine hxmax ⟨?_, hd⟩
            simp [hf, hm, hlock]
    case refine_2 =>
      have hx : env.freezesXmin tup = false ∧ plan.isKept := by
        have hu : ¬(env.freezesXmin tup || false || !plan.isKept) := hu
        rw [Bool.not_eq_true, Bool.or_false, Bool.or_eq_false_iff, Bool.not_eq_false'] at hu
        exact hu
      cases plan
      case replaced => cases hx.right
      case frozen   => cases hx.right
      case kept     =>
        constructor
        case length    => rfl
        case xmin      => rfl
        case commandId => rfl
        case xmax      => rfl
        case infomask  => rw [hx.left]; rfl
        case infomask2 => rfl
        case recent    => exact of_not_freezesXmin
        case plans     => exact hplans
        case frozen    => exact fun hf => absurd (hx.left.symm.trans hf) Bool.false_ne_true
        case aborted   => exact fun hf => (Bool.false_ne_true hf).elim

section Reader

variable (ha : x.Agrees x') (h : Executed env tup tup' freezeXmin plan) (hx : XmaxKept env plan tup tup')
variable (ht : x'.Truthful tup)

include h in
theorem Executed.insertionFate_eq {fate : Nat → Fate} (hf : ¬freezeXmin) :
    insertionFate fate tup' = insertionFate fate tup := by
  rw [Bool.not_eq_true] at hf
  rw [insertionFate, insertionFate, h.frozen_eq, hf, Bool.false_or, h.xmin]

include h in
theorem Executed.combocid_eq : heapTupleHas heapCombocid tup' = heapTupleHas heapCombocid tup := by
  rw [heapTupleHas, heapTupleHas, h.others (by decide) (by decide) (by decide)]

include ha in
theorem xmaxRuns_agrees : x'.xmaxRuns tup' = x.xmaxRuns tup' := by
  rw [xmaxRuns, xmaxRuns, ha.isRunning, ha.inProgress]

include ha hx in
-- The updates that are of interest are the same.
theorem XmaxKept.updateXid_cases : updateXid x'.updater tup' = updateXid x'.updater tup ∨
    (∀ u, updateXid x'.updater tup = some u → x'.fate u = .aborted) ∧
      ∀ u, updateXid x'.updater tup' = some u → x'.fate u = .aborted := by
  rw [ha.updater]
  exact hx.updates.imp_right fun hu => ⟨fun u he => ha.fate_aborted (gone_iff.mpr (hu.left u he)),
    fun u he => ha.fate_aborted (gone_iff.mpr (hu.right u he))⟩

include h in
theorem Executed.fate_frozen (hf : freezeXmin) : x.fate (heapTupleHeaderGetRawXmin tup) = .committed :=
  fate_committed_iff.mpr ⟨env.oldest _ (h.frozen hf).right, (h.frozen hf).left⟩

include ha h hx ht

theorem Executed.truthful : x'.Truthful tup' := by
  constructor
  case header        => rw [h.length]; exact ht.header
  case not_moved     =>
    rw [heapTupleHas, h.others (by decide) (by decide) (by decide)]
    exact ht.not_moved
  case xminCommitted =>
    by_cases hf : freezeXmin
    case pos => exact fun _ => insertionFate_of_frozen (by rw [h.frozen_eq, hf, Bool.true_or])
    case neg =>
      have hc := ht.xminCommitted
      rw [heapTupleHeaderXminCommitted, heapTupleHas, insertion] at hc ⊢
      rwa [h.xminHints (by decide) (by decide) (by decide), if_neg hf, h.insertionFate_eq hf]
  case xminInvalid   =>
    rw [heapTupleHeaderXminInvalid, h.xminHints (by decide) (by decide) (by decide)]
    by_cases hf : freezeXmin
    case pos =>
      rw [if_pos hf]
      exact fun hi => absurd hi (by decide)
    case neg =>
      rw [if_neg hf, insertion, h.insertionFate_eq hf]
      exact ht.xminInvalid
  case xmaxCommitted =>
    intro hc
    obtain ⟨hl, hm, hfate⟩ := hx.committed hc
    exact ⟨hl, hm, ha.fate_committed hfate⟩
  case xmaxInvalid   =>
    intro hi
    obtain ⟨hr, hgone⟩ := hx.invalid hi
    refine ⟨by rwa [xmaxRuns_agrees ha], fun fate hd => ?_⟩
    obtain ⟨u, hu, rfl⟩ := Option.map_eq_some_iff.mp hd
    rw [ha.updater] at hu
    exact ha.fate_aborted (gone_iff.mpr (hgone u hu))
  case own           =>
    intro ho fate hd
    obtain ⟨u, hu, rfl⟩ := Option.map_eq_some_iff.mp hd
    by_cases hf : freezeXmin
    case pos =>
      rw [insertion, insertionFate_of_frozen (by rw [h.frozen_eq, hf, Bool.true_or])] at ho
      cases ho
    case neg =>
      rw [insertion, h.insertionFate_eq hf] at ho
      obtain he | he := hx.updateXid_cases ha
      · exact ht.own ho _ (Option.map_eq_some_iff.mpr ⟨u, he ▸ hu, rfl⟩)
      · exact .inr (he.right u hu)
  case upgraded      => rw [xmaxRuns_agrees ha]; exact hx.upgraded

variable {snapshot : MvccSnapshot x'}

omit hx ht in
theorem Executed.seesInsertion_iff (hs : snapshot.Respects (transactionIdPrecedes · env.cutoffs.oldestXmin)) :
    snapshot.SeesInsertion tup' ↔ snapshot.SeesInsertion tup := by
  by_cases hf : freezeXmin
  case pos =>
    have hfate : insertionFate snapshot.fate tup = .committed := by
      rw [insertionFate]
      split
      · rfl
      · rw [MvccSnapshot.fate_eq (hs _ (h.frozen hf).right), ha.fate_committed (h.fate_frozen hf)]
    have hfrozen : insertionFate snapshot.fate tup' = .committed :=
      insertionFate_of_frozen (by rw [h.frozen_eq, hf, Bool.true_or])
    exact ⟨fun _ => .inl hfate, fun _ => .inl hfrozen⟩
  case neg =>
    rw [MvccSnapshot.SeesInsertion, MvccSnapshot.SeesInsertion, h.insertionFate_eq hf, heapTupleHeaderGetCmin,
      heapTupleHeaderGetCmin, h.combocid_eq, h.commandId]

omit ht in
theorem Executed.seesDeletion_iff : snapshot.SeesDeletion tup' ↔ snapshot.SeesDeletion tup := by
  have hnot {tup₀ : List UInt8} (ha : ∀ u, updateXid x'.updater tup₀ = some u → x'.fate u = .aborted) :
      ¬snapshot.SeesDeletion tup₀ := by
    rintro ⟨fate, hd, hs⟩
    obtain ⟨u, hu, -⟩ := Option.map_eq_some_iff.mp hd
    exact MvccSnapshot.not_seesDeletion_aborted hu (ha u hu) ⟨fate, hd, hs⟩
  obtain he | he := hx.updateXid_cases ha
  · rw [MvccSnapshot.SeesDeletion, MvccSnapshot.SeesDeletion, deletionFate, deletionFate, he, heapTupleHeaderGetCmax,
      heapTupleHeaderGetCmax, h.combocid_eq, h.commandId]
  · exact iff_of_false (hnot he.right) (hnot he.left)

end Reader

-- A tuple that is frozen keeps its locks and updates, and every backend finds out the same about it as before, with
-- a snapshot that is not older than the horizon.
theorem pgTdePrepareFreezeTuple_preserves (ha : x.Agrees x') (ht : x.Truthful tup) (ht' : x'.Truthful tup)
    (hw : WellLocked env.members tup) (hp : env.pgTdePrepareFreezeTuple tup pagefrz = .ok (frz, pagefrz'))
    (he : env.pgTdeFreezeExecutePrepared tup frz = .ok tup') : Preserves x' env tup tup' := by
  obtain ⟨plan, planned, hprep⟩ := prepared ht hw hp
  have h := hprep.executed tup' he
  have hx := h.xmaxKept ht hw
  constructor
  case truthful => exact h.truthful ha hx ht'
  case locked   => exact hx.locked
  case running  => exact hx.running
  case visible  =>
    intro snapshot hs
    rw [MvccSnapshot.Visible, MvccSnapshot.Visible, h.seesInsertion_iff ha hs, h.seesDeletion_iff ha hx]

-- What may be left in a tuple that has been frozen: transactions that are not from before the horizon, or a
-- multixact that has stayed as it is. None is added.
structure Leaves (env : FreezeEnv x) (tup tup' : List UInt8) : Prop where
  xmin    : ¬heapTupleHeaderXminFrozen tup' → transactionIdIsNormal (heapTupleHeaderGetRawXmin tup') →
    ¬transactionIdPrecedes (heapTupleHeaderGetRawXmin tup') env.cutoffs.oldestXmin
  xmax    : (∀ u ∈ xmaxXids env.members tup',
      transactionIdIsNormal u → ¬transactionIdPrecedes u env.cutoffs.oldestXmin) ∨
    heapTupleHas heapXmaxIsMulti tup' ∧ Retained env tup'
  no_more : ∀ u ∈ xmaxXids env.members tup', u = invalidTransactionId ∨ u ∈ xmaxXids env.members tup

theorem Executed.leaves (h : Executed env tup tup' freezeXmin plan) (hx : XmaxKept env plan tup tup') :
    Leaves env tup tup' where
  xmin hf hn := by
    rw [h.frozen_eq, Bool.or_eq_true, not_or] at hf
    rw [h.xmin] at hn ⊢
    exact h.recent hf.left hf.right hn
  xmax       := hx.recent.imp_right And.right
  no_more    := hx.no_more

theorem pgTdePrepareFreezeTuple_leaves (ht : x.Truthful tup) (hw : WellLocked env.members tup)
    (hp : env.pgTdePrepareFreezeTuple tup pagefrz = .ok (frz, pagefrz'))
    (he : env.pgTdeFreezeExecutePrepared tup frz = .ok tup') : Leaves env tup tup' := by
  obtain ⟨plan, planned, hprep⟩ := prepared ht hw hp
  have h := hprep.executed tup' he
  exact h.leaves (h.xmaxKept ht hw)

section Locked

-- A multixact with an update that has been aborted and a running locker, and one with the locker alone.
def lockedMembers : MultiXactMembers
  | 1 => [⟨7, .noKeyUpdate⟩, ⟨20, .forKeyShare⟩]
  | 2 => [⟨20, .forKeyShare⟩]
  | _ => []

def lockerRuns (xid : Nat) : Bool :=
  xid = 20

def lockedUpdater (multi : Nat) : Nat :=
  multiXactIdGetUpdateXid (lockedMembers multi)

theorem lockedMembers_cases (P : Nat → List MultiXactMember → Prop) (multi : Nat)
    (h₁ : P 1 [⟨7, .noKeyUpdate⟩, ⟨20, .forKeyShare⟩]) (h₂ : P 2 [⟨20, .forKeyShare⟩]) (h₀ : ∀ multi, P multi []) :
    P multi (lockedMembers multi) :=
  match multi with
  | 0     => h₀ 0
  | 1     => h₁
  | 2     => h₂
  | n + 3 => h₀ (n + 3)

theorem lockedUpdater_finished (multi : Nat) : ¬lockerRuns (lockedUpdater multi) :=
  lockedMembers_cases (fun _ members => ¬lockerRuns (multiXactIdGetUpdateXid members)) multi (by decide) (by decide)
    fun _ => by decide

theorem lockedMembers_small (multi : Nat) : ∀ m ∈ lockedMembers multi, m.xid < 2 ^ 32 :=
  lockedMembers_cases (fun _ members => ∀ m ∈ members, m.xid < 2 ^ 32) multi (by decide) (by decide) fun _ => by decide

def lockedStatus : XactStatus where
  isCurrent _        := false
  inProgress         := lockerRuns
  didCommit xid      := xid = 5
  updater            := lockedUpdater
  isRunning multi _  := (lockedMembers multi).any (lockerRuns ·.xid)
  unflushed _        := false
  realCmin           := id
  realCmax           := id
  current _ h        := (Bool.false_ne_true h).elim
  invalid            := by decide
  no_members         := rfl
  runs_updater multi := fun h => absurd h (lockedUpdater_finished multi)

def createLocked (ms : List MultiXactMember) : Outcome Nat :=
  if ms = [⟨20, .forKeyShare⟩] then .ok 2 else .error (.error "unexpected members")

theorem createLocked_ok (ms : List MultiXactMember) (multi : Nat) (h : createLocked ms = .ok multi) :
    multi < 2 ^ 32 ∧ (lockedMembers multi).Perm ms := by
  rw [createLocked] at h
  split at h
  case isTrue hms =>
    cases h
    exact ⟨by decide, by rw [hms]; rfl⟩
  case isFalse    => cases h

theorem locker_recent (xid : Nat) (h : transactionIdPrecedes xid 10) : ¬lockerRuns xid := by
  intro hr
  obtain rfl : xid = 20 := of_decide_eq_true hr
  exact absurd h (by decide)

def lockedEnv : FreezeEnv lockedStatus where
  cutoffs      := ⟨3, 1, 10, 1, 4, 2⟩
  members      := lockedMembers
  create       := createLocked
  skips _      := false
  invalid      := rfl
  updater _    := rfl
  running _ _  := rfl
  small        := lockedMembers_small
  created      := createLocked_ok
  skipped _ h  := (Bool.false_ne_true h).elim
  oldest       := locker_recent

-- It has been inserted by a transaction that is committed, and its t_xmax is the first multixact.
def lockedRow : List UInt8 :=
  toLittleEndian 4 5 ++ toLittleEndian 4 1 ++ toLittleEndian 4 0 ++ [0, 0, 0, 0, 1, 0] ++
    toLittleEndian 2 1 ++ toLittleEndian 2 (heapXminCommitted ||| heapXmaxIsMulti ||| heapXmaxExclLock).toNat ++ [24, 0]

theorem lockedRow_truthful : lockedStatus.Truthful lockedRow where
  header        := by decide
  not_moved     := by decide
  xminCommitted := by decide
  xminInvalid   := by decide
  xmaxCommitted := by decide
  xmaxInvalid   := by decide
  own           := by decide
  upgraded      := by decide

theorem lockedRow_locked : WellLocked lockedMembers lockedRow where
  lock_only := by decide
  nonempty  := by decide
  unique    := by decide
  lock_bits := by decide

def lockedTrackers : HeapPageFreeze :=
  ⟨false, 10, 2, 10, 2⟩

def lockedPlan : FreezePlan where
  xmax               := 2
  xvac               := none
  infomask           := heapXminFrozen ||| heapXmaxIsMulti ||| heapXmaxKeyshrLock ||| heapXmaxLockOnly
  infomask2          := 1
  checkXminCommitted := true
  checkXmaxAborted   := false
  totallyFrozen      := false
  usable             := true

def frozenRow : List UInt8 :=
  toLittleEndian 4 5 ++ toLittleEndian 4 2 ++ toLittleEndian 4 0 ++ [0, 0, 0, 0, 1, 0] ++
    toLittleEndian 2 1 ++ toLittleEndian 2 lockedPlan.infomask.toNat ++ [24, 0]

theorem lockedRow_prepared : lockedEnv.pgTdePrepareFreezeTuple lockedRow lockedTrackers =
    .ok (lockedPlan, { lockedTrackers with freezeRequired := true }) :=
  rfl

theorem lockedRow_executed : lockedEnv.pgTdeFreezeExecutePrepared lockedRow lockedPlan = .ok frozenRow :=
  rfl

theorem lockedRow_preserved : Preserves lockedStatus lockedEnv lockedRow frozenRow :=
  pgTdePrepareFreezeTuple_preserves ⟨rfl, rfl, rfl, rfl⟩ lockedRow_truthful lockedRow_truthful lockedRow_locked
    lockedRow_prepared lockedRow_executed

theorem lockedRow_leaves : Leaves lockedEnv lockedRow frozenRow :=
  pgTdePrepareFreezeTuple_leaves lockedRow_truthful lockedRow_locked lockedRow_prepared lockedRow_executed

end Locked

end FreezeEnv
