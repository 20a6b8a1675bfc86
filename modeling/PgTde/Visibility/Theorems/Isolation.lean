import PgTde.Visibility.Isolation
import PgTde.Visibility.Theorems.RowHistory

open XactStatus

section Stores

variable {tup tup' ctid : List UInt8} {new : NewXmax}

theorem rawCommandId_storeLock (hl : 22 ≤ tup.length) :
    heapTupleHeaderGetRawCommandId (storeLock new ctid tup) = heapTupleHeaderGetRawCommandId tup := by
  have ht : (tup.take 4 ++ toLittleEndian 4 new.xmax).length = 8 := by
    simp only [List.length_append, List.length_take, length_toLittleEndian]
    omega
  have hc : ((tup.drop 8).take 4).length = 4 := by
    rw [List.length_take, List.length_drop]
    omega
  simp only [heapTupleHeaderGetRawCommandId, unsignedAt, storeLock, List.append_assoc]
  rw [←List.append_assoc, List.drop_left' ht, List.take_left' hc]

theorem tInfomask_storeLock (hl : 22 ≤ tup.length) (hct : ctid.length = 6) :
    tInfomask (storeLock new ctid tup) = tInfomask tup &&& ~~~heapXmaxBits ||| new.infomask := by
  have ht : ((tup.drop 12).take 6).length = 6 := by
    rw [List.length_take, List.length_drop]
    omega
  simp only [storeLock]
  refine tInfomask_append ?_
  simp only [List.length_append, List.length_take, length_toLittleEndian, List.length_drop]
  split
  · omega
  · rw [ht]
    omega

-- A lock leaves the command id alone, and what kind of one it is.
theorem RowVersion.Stores.commandId (h : RowVersion.Stores new tup false tup') (hl : 22 ≤ tup.length)
    (hn : new.infomask &&& ~~~heapXmaxBits = 0) :
    heapTupleHeaderGetRawCommandId tup' = heapTupleHeaderGetRawCommandId tup ∧
    heapTupleHas heapCombocid tup' = heapTupleHas heapCombocid tup := by
  cases h
  case lock ctid hx hct =>
    refine ⟨rawCommandId_storeLock hl, ?_⟩
    rw [heapTupleHas, heapTupleHas, tInfomask_storeLock hl hct,
      UInt16.keep_or (UInt16.and_eq_zero_of_subset hn (by decide)), UInt16.keep_and (by decide)]

end Stores

namespace RowVersion

variable {s s' s'' : RowVersion} {a : RowAction} {b b' xid : Nat} {context context' : TestContext} {isUpdate : Bool}

-- What the backend `b` cannot tell apart with a snapshot that it has taken in the former state.
structure Unchanged (b : Nat) (s s' : RowVersion) : Prop where
  own       : ∀ xid, s'.phase xid = .running b ↔ s.phase xid = .running b
  committed : ∀ xid, s.phase xid = .committed → s'.phase xid = .committed
  aborted   : ∀ xid, s.phase xid = .aborted → s'.phase xid = .aborted
  xmin      : heapTupleHeaderGetRawXmin s'.tup = heapTupleHeaderGetRawXmin s.tup
  frozen    : heapTupleHeaderXminFrozen s'.tup = heapTupleHeaderXminFrozen s.tup
  deleted   : ∀ xid, s.phase xid = .committed ∨ s.phase xid = .running b →
    (updateXid s'.updater s'.tup = some xid ↔ updateXid s.updater s.tup = some xid)
  cid       : s.phase (heapTupleHeaderGetRawXmin s.tup) = .running b ∧ ¬heapTupleHeaderXminFrozen s.tup ∨
      (∃ xid, updateXid s.updater s.tup = some xid ∧ s.phase xid = .running b) →
    heapTupleHeaderGetRawCommandId s'.tup = heapTupleHeaderGetRawCommandId s.tup ∧
    heapTupleHas heapCombocid s'.tup = heapTupleHas heapCombocid s.tup

theorem Unchanged.refl (b : Nat) (s : RowVersion) : Unchanged b s s where
  own _       := Iff.rfl
  committed _ := id
  aborted _   := id
  xmin        := rfl
  frozen      := rfl
  deleted _ _ := Iff.rfl
  cid _       := ⟨rfl, rfl⟩

theorem Unchanged.trans (h : Unchanged b s s') (h' : Unchanged b s' s'') : Unchanged b s s'' where
  own xid       := (h'.own xid).trans (h.own xid)
  committed xid := h'.committed xid ∘ h.committed xid
  aborted xid   := h'.aborted xid ∘ h.aborted xid
  xmin          := h'.xmin.trans h.xmin
  frozen        := h'.frozen.trans h.frozen
  deleted xid hx := (h'.deleted xid (hx.imp (h.committed xid) (h.own xid).mpr)).trans (h.deleted xid hx)
  cid hx        := by
    have hc := h.cid hx
    have hc' := h'.cid (by
      rw [h.xmin, h.frozen, h.own]
      refine hx.imp id fun ⟨xid, hu, hr⟩ => ⟨xid, (h.deleted xid (.inr hr)).mpr hu, (h.own xid).mpr hr⟩)
    exact ⟨hc'.left.trans hc.left, hc'.right.trans hc.right⟩

theorem commit_eq_running_iff {p : XactPhase} (hb : b' ≠ b) : commit b' p = .running b ↔ p = .running b := by
  cases p
  case running b₁ =>
    rw [commit]
    split
    case isTrue he  => subst he; simpa using hb
    case isFalse he => rfl
  all_goals simp [commit]

theorem finish_eq_running_iff {p : XactPhase} : finish b' p = .running b ↔ p = .running b := by
  cases p
  case committing b₁ =>
    rw [finish]
    split <;> simp
  all_goals simp [finish]

-- Only the phases of transactions of other backends change.
theorem SameRow.unchanged (h : SameRow s s') (ho : ∀ xid, s'.phase xid = .running b ↔ s.phase xid = .running b)
    (hc : ∀ xid, s.phase xid = .committed → s'.phase xid = .committed)
    (ha : ∀ xid, s.phase xid = .aborted → s'.phase xid = .aborted) : Unchanged b s s' where
  own         := ho
  committed   := hc
  aborted     := ha
  xmin        := by rw [h.tup]
  frozen      := by rw [h.tup]
  deleted _ _ := by rw [h.tup, updater_congr h.members]
  cid _       := by rw [h.tup]; exact ⟨rfl, rfl⟩

theorem unchanged_hinted (h : s.Invariant) (hp : s'.phase = s.phase) (hm : s'.members = s.members)
    (hh : (s.view b' context).Hinted s.tup s'.tup) : Unchanged b s s' := by
  have hl : 20 ≤ s.tup.length := by
    have := (h.truthful b' context).length_ge
    omega
  obtain ⟨hints, hs, he⟩ := hh.stored
  constructor
  case own       => rw [hp]; exact fun _ => Iff.rfl
  case committed => rw [hp]; exact fun _ => id
  case aborted   => rw [hp]; exact fun _ => id
  case xmin      => exact rawXmin_hinted hh hl
  case frozen    => exact hh.frozen
  case deleted   => rw [updater_congr hm, hh.updateXid_eq hl]; exact fun _ _ => Iff.rfl
  case cid       =>
    rw [he]
    exact fun _ => ⟨unsignedAt_storeHints hl (by decide), heapTupleHas_storeHints_of_subset hl hs (by decide)⟩

-- Another backend that updates or deletes the version does not find a deletion that is not aborted.
theorem AddsToXmax.unchanged (h : s.Invariant) (ha : s.AddsToXmax s' b' context xid isUpdate)
    (hb : isUpdate → b' ≠ b) : Unchanged b s s' := by
  have hx := h.truthful b' context
  have hl := hx.length_ge
  have hadded := ha.added h
  have hdel (hup : isUpdate) (u) (hu : updateXid s.updater s.tup = some u) : s.phase u = .aborted := by
    by_contra hn
    have hd := updatable_deletion hx (ha.updates hup) ((s.view b' context).fate u) (by
      rw [deletion, deletionFate]
      exact Option.map_eq_some_iff.mpr ⟨u, hu, rfl⟩)
    exact absurd hd (view_fate_ne_aborted hn (updateXid_assigned h.assigned_xmax hu))
  constructor
  case own       => rw [hadded.phase]; exact fun _ => Iff.rfl
  case committed => rw [hadded.phase]; exact fun _ => id
  case aborted   => rw [hadded.phase]; exact fun _ => id
  case xmin      => exact hadded.xmin
  case frozen    => exact hadded.frozen_eq
  case deleted   =>
    intro u hp
    have hna : s.phase u ≠ .aborted := by
      obtain hp | hp := hp <;> rw [hp] <;> simp
    constructor
    case mp  =>
      intro hu
      obtain ⟨hup, rfl⟩ | ⟨-, hold⟩ := hadded.only u hu
      · rw [ha.running] at hp
        obtain hp | hp := hp
        · cases hp
        · exact absurd (XactPhase.running.inj hp) (hb hup)
      · exact hold
    case mpr =>
      intro hu
      by_cases hup : isUpdate
      case pos => exact absurd (hdel hup u hu) hna
      case neg => exact hadded.stays u hup hu hna
  case cid       =>
    obtain ⟨multis, mode, new, hm, hm', he, hstores⟩ := ha.stores
    have hadds := MultiXacts.computeNewXmaxInfomask_adds hx (by rw [hm]; exact h.locked)
      (decide_eq_true ha.running) (lockable_cases hx ha.locks).right
      (fun hup => updatable_deletion hx (ha.updates hup)) he
    cases hup : isUpdate
    case false =>
      rw [hup] at hstores
      exact fun _ => hstores.commandId (by omega) hadds.infomask
    case true  =>
      -- The own transaction has neither inserted nor deleted the version.
      rintro (⟨hr, hf⟩ | ⟨u, hu, hr⟩)
      case inl =>
        have hc := (lockable_cases hx ha.locks).left
        rw [insertion, insertionFate, if_neg hf, view_fate, hr, phaseFate, if_neg (hb hup).symm] at hc
        obtain hc | hc := hc <;> cases hc
      case inr =>
        rw [hdel hup u hu] at hr
        cases hr

theorem Step.unchanged (h : s.Invariant) (hs : Step s a s') (hf : a.Foreign b) : Unchanged b s s' := by
  cases a
  case start b' xid  =>
    obtain ⟨hx, hr, hp⟩ := hs
    have hne {u} (hu : s.phase u ≠ .unassigned) : s'.phase u = s.phase u := by
      rw [hp, Function.update_of_ne]
      rintro rfl
      exact hu hx
    refine hr.unchanged (fun u => ?_) (fun u hu => ?_) fun u hu => ?_
    case refine_1 =>
      by_cases hu : u = xid
      case pos =>
        subst hu
        rw [hp, Function.update_self, hx]
        simpa using show b' ≠ b from hf
      case neg => rw [hp, Function.update_of_ne hu]
    case refine_2 => rwa [hne (by rw [hu]; decide)]
    case refine_3 => rwa [hne (by rw [hu]; decide)]
  case commit b'     =>
    obtain ⟨hr, hp⟩ := hs
    refine hr.unchanged (fun u => ?_) (fun u hu => ?_) fun u hu => ?_
    case refine_1 => rw [hp]; exact commit_eq_running_iff hf
    case refine_2 => simp only [hp, hu, commit]
    case refine_3 => simp only [hp, hu, commit]
  case finish b'     =>
    obtain ⟨hr, hp⟩ := hs
    refine hr.unchanged (fun u => ?_) (fun u hu => ?_) fun u hu => ?_
    case refine_1 => rw [hp]; exact finish_eq_running_iff
    case refine_2 => simp only [hp, hu, finish]
    case refine_3 => simp only [hp, hu, finish]
  case abort b' xids =>
    obtain ⟨hx, hr, hp⟩ := hs
    refine hr.unchanged (fun u => ?_) (fun u hu => ?_) fun u hu => ?_
    case refine_1 =>
      simp only [hp]
      split
      case isTrue hu  => rw [hx u hu]; simpa using show b' ≠ b from hf
      case isFalse hu => rfl
    case refine_2 =>
      have hn : u ∉ xids := fun hn => by rw [hx u hn] at hu; cases hu
      simp only [hp, if_neg hn, hu]
    case refine_3 => simp only [hp, hu, ite_self]
  case test b'       =>
    obtain ⟨hp, hm, -, -, context, ht⟩ := hs
    exact unchanged_hinted h hp hm (ht.hinted (h.truthful b' context))
  case lock b' xid   =>
    obtain ⟨-, -, context, ha⟩ := hs
    exact ha.unchanged h fun hup => absurd hup Bool.false_ne_true
  case update b' xid =>
    obtain ⟨-, -, context, ha⟩ := hs
    exact ha.unchanged h fun _ => hf

theorem unchanged_run (h : system.Reachable s) (hr : (system.runsFrom s fun _ a => a.Foreign b).Reachable s') :
    Unchanged b s s' :=
  System.runsFrom_rel (Unchanged.refl b) (fun _ _ _ => Unchanged.trans)
    (fun _ _ _ hs hf h => Step.unchanged (system_invariant.reachable hs) h hf) h hr

section Snapshot

variable {snapshot : MvccSnapshot (s.view b context)} {snapshot' : MvccSnapshot (s'.view b context')}

-- A snapshot judges transactions as in the state in which it has been taken.
theorem Unchanged.fate_eq (h : Unchanged b s s') (ht : s.TakenAt b snapshot) (ht' : s.TakenAt b snapshot') :
    snapshot'.fate = snapshot.fate := by
  funext xid
  have hcur : (s.view b context).isCurrent xid = decide (s.phase xid = .running b) := rfl
  have hcur' : (s'.view b context').isCurrent xid = decide (s.phase xid = .running b) :=
    decide_eq_decide.mpr (h.own xid)
  rw [MvccSnapshot.fate, MvccSnapshot.fate, fateOf, fateOf, hcur, hcur']
  by_cases hr : s.phase xid = .running b
  case pos => rw [if_pos (decide_eq_true hr), if_pos (decide_eq_true hr)]
  case neg =>
    rw [decide_eq_false hr, if_neg Bool.false_ne_true, if_neg Bool.false_ne_true, ht xid hr, ht' xid hr]
    split
    case isTrue       => rfl
    case isFalse hfin =>
      have hd : (s'.view b context').didCommit xid = (s.view b context).didCommit xid := by
        have hsame : s'.phase xid = s.phase xid := by
          rw [unfinished, decide_eq_true_iff, not_and_or, not_not, not_not] at hfin
          obtain hc | ha := hfin
          · rw [hc, h.committed xid hc]
          · rw [ha, h.aborted xid ha]
        simp only [view, hsame]
      rw [hd]

theorem fate_own_phase {xid : Nat} (h : snapshot.fate xid = .own) : s.phase xid = .running b :=
  of_decide_eq_true (MvccSnapshot.fate_own_iff.mp h)

-- The transaction that has deleted the version, if the snapshot may see that.
theorem Unchanged.seesDeletion_iff (h : Unchanged b s s') (ht : s.TakenAt b snapshot)
    (ht' : s.TakenAt b snapshot') (hcid : snapshot'.curcid = snapshot.curcid)
    (hreal : context'.realCmax = context.realCmax) :
    snapshot'.SeesDeletion s'.tup ↔ snapshot.SeesDeletion s.tup := by
  have hfate := h.fate_eq ht ht'
  have hcmax (u) (hu : updateXid s.updater s.tup = some u) (ho : snapshot.fate u = .own) :
      (s'.view b context').heapTupleHeaderGetCmax s'.tup = (s.view b context).heapTupleHeaderGetCmax s.tup := by
    obtain ⟨hc, hcombo⟩ := h.cid (.inr ⟨u, hu, fate_own_phase ho⟩)
    rw [heapTupleHeaderGetCmax, heapTupleHeaderGetCmax, hc, hcombo, view, view, hreal]
  -- A transaction that the snapshot does not count as running or aborted.
  have hseen {u} (hf : snapshot.fate u = .committed ∨ snapshot.fate u = .own) :
      s.phase u = .committed ∨ s.phase u = .running b := by
    obtain hf | hf := hf
    case inr => exact .inr (fate_own_phase hf)
    case inl =>
      have hx := @MvccSnapshot.fate_eq_or _ snapshot u
      rw [hf] at hx
      obtain hx | hx := hx
      · cases hx
      · rw [view_fate] at hx
        cases hp : s.phase u <;> rw [hp, phaseFate] at hx
        case committed => exact .inl rfl
        case running   => split at hx <;> cases hx
        all_goals cases hx
  rw [MvccSnapshot.SeesDeletion, MvccSnapshot.SeesDeletion, deletionFate, deletionFate, hfate, hcid]
  simp only [Option.mem_def, Option.map_eq_some_iff]
  constructor
  case mp  =>
    rintro ⟨fate, ⟨u, hu, rfl⟩, hs⟩
    have hold := (h.deleted u (hseen (hs.imp id (·.left)))).mp hu
    refine ⟨_, ⟨u, hold, rfl⟩, hs.imp id fun ho => ⟨ho.left, ?_⟩⟩
    rw [←hcmax u hold ho.left]
    exact ho.right
  case mpr =>
    rintro ⟨fate, ⟨u, hu, rfl⟩, hs⟩
    refine ⟨_, ⟨u, (h.deleted u (hseen (hs.imp id (·.left)))).mpr hu, rfl⟩, hs.imp id fun ho => ⟨ho.left, ?_⟩⟩
    rw [hcmax u hu ho.left]
    exact ho.right

theorem Unchanged.seesInsertion_iff (h : Unchanged b s s') (ht : s.TakenAt b snapshot)
    (ht' : s.TakenAt b snapshot') (hcid : snapshot'.curcid = snapshot.curcid)
    (hreal : context'.realCmin = context.realCmin) :
    snapshot'.SeesInsertion s'.tup ↔ snapshot.SeesInsertion s.tup := by
  have hins : insertionFate snapshot'.fate s'.tup = insertionFate snapshot.fate s.tup := by
    rw [insertionFate, insertionFate, h.frozen, h.xmin, h.fate_eq ht ht']
  have hcmin (ho : insertionFate snapshot.fate s.tup = .own) :
      (s'.view b context').heapTupleHeaderGetCmin s'.tup = (s.view b context).heapTupleHeaderGetCmin s.tup := by
    rw [insertionFate] at ho
    split at ho
    case isTrue     => cases ho
    case isFalse hf =>
      obtain ⟨hc, hcombo⟩ := h.cid (.inl ⟨fate_own_phase ho, hf⟩)
      rw [heapTupleHeaderGetCmin, heapTupleHeaderGetCmin, hc, hcombo, view, view, hreal]
  rw [MvccSnapshot.SeesInsertion, MvccSnapshot.SeesInsertion, hins, hcid]
  refine or_congr Iff.rfl (and_congr_right fun ho => ?_)
  rw [hcmin ho]

end Snapshot

-- A snapshot yields the same for the version for as long as it is kept, whatever other transactions do to it.
theorem repeatable_read {snapshot : MvccSnapshot (s.view b context)} {snapshot' : MvccSnapshot (s'.view b context')}
    (h : system.Reachable s) (hr : (system.runsFrom s fun _ a => a.Foreign b).Reachable s')
    (ht : s.TakenAt b snapshot) (ht' : s.TakenAt b snapshot') (hcid : snapshot'.curcid = snapshot.curcid)
    (hmin : context'.realCmin = context.realCmin) (hmax : context'.realCmax = context.realCmax) :
    (snapshot'.heapTupleSatisfiesMVCC s'.tup).1 = (snapshot.heapTupleSatisfiesMVCC s.tup).1 := by
  have hu := unchanged_run h hr
  have hi := (system_invariant.reachable h).truthful b context
  have hi' := (system_invariant.reachable (h.runsFrom hr)).truthful b context'
  obtain ⟨_, -, he⟩ := snapshot.heapTupleSatisfiesMVCC_eq hi
  obtain ⟨_, -, he'⟩ := snapshot'.heapTupleSatisfiesMVCC_eq hi'
  rw [he, he']
  exact decide_eq_decide.mpr (and_congr (hu.seesInsertion_iff ht ht' hcid hmin)
    (not_congr (hu.seesDeletion_iff ht ht' hcid hmax)))

theorem repeatable_read_deletedBy :
    (((deletedBy 4 (insertedRow true)).takeSnapshot 2 exampleContext 0).heapTupleSatisfiesMVCC
      (deletedBy 4 (insertedRow true)).tup).1 =
    (((insertedRow true).takeSnapshot 2 exampleContext 0).heapTupleSatisfiesMVCC (insertedRow true).tup).1 :=
  repeatable_read (reachable_insertedRow true)
    (.step (a := .update 1 4) (.initial rfl)
      ⟨show (1 : Nat) ≠ 2 by decide, step_deletedBy (insertedRow true) 1 4 rfl (by decide) (by decide)⟩)
    (fun _ _ => rfl) (fun _ _ => rfl) rfl rfl rfl

-- What does not change any more, whatever the transactions do.
structure Settled (s s' : RowVersion) : Prop where
  committed : ∀ xid, s.phase xid = .committed → s'.phase xid = .committed
  aborted   : ∀ xid, s.phase xid = .aborted → s'.phase xid = .aborted
  xmin      : heapTupleHeaderGetRawXmin s'.tup = heapTupleHeaderGetRawXmin s.tup
  frozen    : heapTupleHeaderXminFrozen s'.tup = heapTupleHeaderXminFrozen s.tup
  deleted   : ∀ xid, s.phase xid = .committed → updateXid s.updater s.tup = some xid →
    updateXid s'.updater s'.tup = some xid

theorem Settled.refl (s : RowVersion) : Settled s s where
  committed _ := id
  aborted _   := id
  xmin        := rfl
  frozen      := rfl
  deleted _ _ := id

theorem Settled.trans (h : Settled s s') (h' : Settled s' s'') : Settled s s'' where
  committed xid  := h'.committed xid ∘ h.committed xid
  aborted xid    := h'.aborted xid ∘ h.aborted xid
  xmin           := h'.xmin.trans h.xmin
  frozen         := h'.frozen.trans h.frozen
  deleted xid hc := h'.deleted xid (h.committed xid hc) ∘ h.deleted xid hc

-- Each step is one of other backends than some.
theorem RowAction.exists_foreign (a : RowAction) : ∃ b, a.Foreign b := by
  cases a
  case finish => exact ⟨0, trivial⟩
  case test   => exact ⟨0, trivial⟩
  case lock   => exact ⟨0, trivial⟩
  case start b' _  => exact ⟨b' + 1, (Nat.succ_ne_self b').symm⟩
  case commit b'   => exact ⟨b' + 1, (Nat.succ_ne_self b').symm⟩
  case abort b' _  => exact ⟨b' + 1, (Nat.succ_ne_self b').symm⟩
  case update b' _ => exact ⟨b' + 1, (Nat.succ_ne_self b').symm⟩

theorem Step.settled (h : s.Invariant) (hs : Step s a s') : Settled s s' := by
  obtain ⟨b, hb⟩ := RowAction.exists_foreign a
  have hu := Step.unchanged h hs hb
  exact ⟨hu.committed, hu.aborted, hu.xmin, hu.frozen, fun xid hc => (hu.deleted xid (.inl hc)).mpr⟩

theorem settled_run (h : system.Reachable s) (hr : (system.runsFrom s fun _ _ => True).Reachable s') :
    Settled s s' :=
  System.runsFrom_rel Settled.refl (fun _ _ _ => Settled.trans)
    (fun _ _ _ hs _ h => Step.settled (system_invariant.reachable hs) h) h hr

theorem view_fate_settled {f : Fate} (h : Settled s s') (hf : (s.view b context).fate xid = f)
    (ha : s.phase xid ≠ .unassigned) (hc : f = .committed ∨ f = .aborted) :
    (s'.view b' context').fate xid = f := by
  rw [view_fate] at hf ⊢
  cases hp : s.phase xid <;> rw [hp, phaseFate] at hf <;> subst hf
  case unassigned => exact absurd hp ha
  case running    => split at hc <;> simp at hc
  case committing => simp at hc
  case committed  => rw [h.committed xid hp, phaseFate]
  case aborted    => rw [h.aborted xid hp, phaseFate]

-- A version that is dead stays so, for each backend.
theorem Settled.dead {removable : Nat → Bool} (h : Settled s s') (hi : s.Invariant)
    (hd : (s.view b context).Dead removable s.tup) : (s'.view b' context').Dead removable s'.tup := by
  obtain ha | ⟨xid, hx, hf, hrem⟩ := hd
  case inl =>
    refine .inl ?_
    rw [insertion, insertionFate] at ha ⊢
    rw [h.frozen, h.xmin]
    split at ha
    case isTrue     => cases ha
    case isFalse hf =>
      rw [if_neg hf]
      exact view_fate_settled h ha hi.assigned_xmin (.inr rfl)
  case inr =>
    have ha := updateXid_assigned hi.assigned_xmax hx
    have hc : s.phase xid = .committed := by
      rw [view_fate] at hf
      cases hp : s.phase xid <;> rw [hp, phaseFate] at hf
      case running => split at hf <;> cases hf
      all_goals first | rfl | cases hf
    exact .inr ⟨xid, h.deleted xid hc hx, view_fate_settled h hf ha (.inl rfl), hrem⟩

-- What a vacuum finds to be dead is never visible again to a snapshot that respects its horizon, in whatever state
-- and by whatever backend the snapshot is used. Nor is what hints alone tell to be dead.
theorem dead_stays_invisible {removable : Nat → Bool} {snapshot : MvccSnapshot (s'.view b' context')}
    (h : system.Reachable s) (hr : (system.runsFrom s fun _ _ => True).Reachable s')
    (hv : heapTupleIsSurelyDead removable s.tup ∨
      ((s.view b context).heapTupleSatisfiesNonVacuumable removable s.tup).1 = false)
    (hs : snapshot.Respects removable) : (snapshot.heapTupleSatisfiesMVCC s'.tup).1 = false := by
  have hi := system_invariant.reachable h
  have hi' := system_invariant.reachable (h.runsFrom hr)
  have hv' := hv.elim (vacuumable_of_isSurelyDead (hi.truthful b context)) id
  have hd : (s'.view b' context').Dead removable s'.tup :=
    (settled_run h hr).dead hi (dead_of_vacuumable (hi.truthful b context) hv')
  obtain ⟨_, -, he⟩ := snapshot.heapTupleSatisfiesMVCC_eq (hi'.truthful b' context')
  rw [he]
  exact decide_eq_false (Dead.not_visible hd hs)

theorem dead_stays_invisible_aborted :
    (((aborted 3 (insertedRow false)).takeSnapshot 1 exampleContext 0).heapTupleSatisfiesMVCC
      (aborted 3 (insertedRow false)).tup).1 = false :=
  dead_stays_invisible (s := aborted 3 (insertedRow false)) (b := 2)
    ((reachable_insertedRow false).step (step_aborted _ 0 3 rfl)) (.initial rfl)
    (.inr (by decide : (((aborted 3 (insertedRow false)).view 2 exampleContext).heapTupleSatisfiesNonVacuumable
      (fun _ => false) _).1 = false)) fun _ h => nomatch h

end RowVersion
