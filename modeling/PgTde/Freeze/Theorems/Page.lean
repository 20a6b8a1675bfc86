import PgTde.Freeze.Theorems.Trackers

open XactStatus Circular Ratchet

namespace FreezeEnv

variable {x : XactStatus} {env : FreezeEnv x} {tup tup' : List UInt8} {plan : XmaxPlan} {frz : FreezePlan}
variable {pagefrz pagefrz' planned : HeapPageFreeze} {base tracker tracker' : Nat} {freezeXmin : Bool}
variable {members : MultiXactMembers} {tups : List (List UInt8)} {plans : List (List UInt8 × FreezePlan)}

theorem Tracked.mono (h : Tracked members base tracker tup) (hle : ahead base tracker' ≤ ahead base tracker) :
    Tracked members base tracker' tup :=
  fun u hu hn => (h u hu hn).imp_right hle.trans

section Tuple

variable (ho : Recent base env.cutoffs.oldestXmin)

include ho

-- What is not from before the horizon is not from before a tracker that is not ahead of it.
theorem le_of_not_precedes {u : Nat} (hb : Below (ahead base) (Recent base) tracker env.cutoffs.oldestXmin)
    (hu : Recent base u) (hge : ¬transactionIdPrecedes u env.cutoffs.oldestXmin) :
    InHalf base u ∧ ahead base tracker ≤ ahead base u :=
  ⟨hu.right, hb.le.trans (not_lt.mp (mt (transactionIdPrecedes_iff _ _ hu ho).mpr hge))⟩

theorem Executed.tracked (h : Executed env tup tup' freezeXmin plan) (hx : XmaxKept env plan tup tup')
    (hu : InUse env base tup)
    (ht : Tracks env base tup pagefrz planned (plan = .kept ∧ heapTupleHas heapXmaxIsMulti tup))
    (hb : Below (ahead base) (Recent base) pagefrz.freezePageRelfrozenXid env.cutoffs.oldestXmin) :
    Tracked env.members base planned.freezePageRelfrozenXid tup' := by
  have hb := ht.below.trans hb
  have hl := h.leaves hx
  intro u hmem hn
  obtain hmem | hmem := List.mem_append.mp hmem
  case inl =>
    split at hmem
    case isTrue      => cases hmem
    case isFalse hf  =>
      obtain rfl := List.mem_singleton.mp hmem
      have hge := hl.xmin hf hn
      rw [h.frozen_eq, Bool.or_eq_true, not_or] at hf
      rw [h.xmin] at hn hge ⊢
      exact le_of_not_precedes ho hb ⟨hn, hu.xmin hf.right hn⟩ hge
  case inr =>
    obtain hge | ⟨rfl, hm, -⟩ := hx.recent
    case inl =>
      obtain rfl | hold := hl.no_more u hmem
      · cases hn
      · exact le_of_not_precedes ho hb (hu.xmax u hold (.inr hn)) (hge u hmem hn)
    case inr =>
      have hm' : heapTupleHas heapXmaxIsMulti tup := by
        rw [heapTupleHas, h.bits (by decide)] at hm
        exact hm
      have hraw : heapTupleHeaderGetRawXmax tup' = heapTupleHeaderGetRawXmax tup := h.xmax
      rw [xmaxXids, if_pos hm, hraw] at hmem
      obtain ⟨m, hmember, rfl⟩ := List.mem_map.mp hmem
      exact ⟨(hu.xmax _ ((mem_xmaxXids hm').mpr ⟨m, hmember, rfl⟩) (.inl hm')).right, ht.members ⟨rfl, hm'⟩ m hmember⟩

end Tuple

-- What is to be known of a tuple before it is considered for freezing.
structure Freezable (env : FreezeEnv x) (base : Nat) (tup : List UInt8) : Prop where
  truthful : x.Truthful tup
  locked   : WellLocked env.members tup
  inUse    : InUse env base tup

-- What is so of the trackers after a tuple has been considered.
structure Advances (base : Nat) (pagefrz pagefrz' : HeapPageFreeze) : Prop where
  freeze   : Below (ahead base) (Recent base) pagefrz'.freezePageRelfrozenXid pagefrz.freezePageRelfrozenXid
  noFreeze : Below (ahead base) (Recent base) pagefrz'.noFreezePageRelfrozenXid pagefrz.noFreezePageRelfrozenXid
  required : pagefrz.freezeRequired → pagefrz'.freezeRequired

theorem Advances.trans {pagefrz'' : HeapPageFreeze} (h : Advances base pagefrz pagefrz')
    (h' : Advances base pagefrz' pagefrz'') : Advances base pagefrz pagefrz'' where
  freeze      := h'.freeze.trans h.freeze
  noFreeze    := h'.noFreeze.trans h.noFreeze
  required hr := h'.required (h.required hr)

-- A tuple has been considered, along with others. The page will be frozen or not.
structure Considered (env : FreezeEnv x) (base : Nat) (pagefrz : HeapPageFreeze) (plan : List UInt8 × FreezePlan) :
    Prop where
  frozen   : ∀ tup', (if plan.2.usable then env.pgTdeFreezeExecutePrepared plan.1 plan.2 else .ok plan.1) = .ok tup' →
    Tracked env.members base pagefrz.freezePageRelfrozenXid tup'
  unfrozen : ¬pagefrz.freezeRequired → Tracked env.members base pagefrz.noFreezePageRelfrozenXid plan.1

theorem Considered.advance {p : List UInt8 × FreezePlan} (h : Considered env base pagefrz p)
    (ha : Advances base pagefrz pagefrz') : Considered env base pagefrz' p where
  frozen tup' he := (h.frozen tup' he).mono ha.freeze.le
  unfrozen hr    := (h.unfrozen (mt ha.required hr)).mono ha.noFreeze.le

theorem pgTdePrepareFreezeTuple_considered (hf : Freezable env base tup) (ho : Recent base env.cutoffs.oldestXmin)
    (hb : Below (ahead base) (Recent base) pagefrz.freezePageRelfrozenXid env.cutoffs.oldestXmin)
    (hn : Recent base pagefrz.noFreezePageRelfrozenXid)
    (hp : env.pgTdePrepareFreezeTuple tup pagefrz = .ok (frz, pagefrz')) :
    Advances base pagefrz pagefrz' ∧ Considered env base pagefrz' (tup, frz) := by
  obtain ⟨ht, hw, hu⟩ := hf
  obtain ⟨plan, planned, hprep⟩ := prepared ht hw hp
  have htr := planXmax_tracks hu hb.within hprep.plans
  have htracked {tup' : List UInt8} (h : Executed env tup tup' (env.freezesXmin tup) plan) :
      Tracked env.members base planned.freezePageRelfrozenXid tup' :=
    h.tracked ho (h.xmaxKept ht hw) hu htr hb
  -- Either all transactions are noted, or the tuple is frozen already, or the page has to be frozen.
  have hcases : pagefrz'.freezePageRelfrozenXid = planned.freezePageRelfrozenXid ∧
      Below (ahead base) (Recent base) pagefrz'.noFreezePageRelfrozenXid pagefrz.noFreezePageRelfrozenXid ∧
      (pagefrz.freezeRequired → pagefrz'.freezeRequired) ∧
      (¬pagefrz'.freezeRequired → Tracked env.members base pagefrz'.noFreezePageRelfrozenXid tup) := by
    rw [hprep.trackers]
    split
    case isTrue h  =>
      have hc := @pgTdeTupleShouldFreeze_covers _ env _ planned _ hu ht.not_moved (htr.noFreeze ▸ hn)
        (htr.unrequired h.left)
      refine ⟨hc.freeze, htr.noFreeze ▸ hc.below, fun hr => absurd (htr.required hr) h.left, fun _ u hmem hnormal => ?_⟩
      exact ⟨(hu.recent hmem hnormal).right, hc.noted u ⟨hmem, hnormal⟩⟩
    case isFalse h =>
      refine ⟨rfl, ⟨htr.noFreeze ▸ hn, htr.noFreeze ▸ le_rfl⟩, htr.required, fun hr u hmem hnormal => ?_⟩
      rw [not_and, not_not] at h
      obtain ⟨hxmin, hxmax⟩ := h hr
      rw [Bool.and_eq_true, Bool.not_eq_true', decide_eq_true_iff] at hxmax
      obtain rfl | hx := mem_remainingXids hmem
      · rw [hnormal] at hxmin
        cases hxmin
      · rw [xmaxXids, hxmax.left, if_neg Bool.false_ne_true, hxmax.right, List.mem_singleton] at hx
        subst hx
        cases hnormal
  obtain ⟨hfreeze, hno, hreq, hun⟩ := hcases
  refine ⟨⟨hfreeze ▸ htr.below, hno, hreq⟩, fun tup' he => ?_, hun⟩
  rw [hfreeze]
  split at he
  case isTrue          => exact htracked (hprep.executed tup' he)
  case isFalse hunused =>
    cases he
    exact htracked (hprep.unusable hunused)

theorem prepareAll_considered (hf : ∀ tup ∈ tups, Freezable env base tup) (ho : Recent base env.cutoffs.oldestXmin)
    (hb : Below (ahead base) (Recent base) pagefrz.freezePageRelfrozenXid env.cutoffs.oldestXmin)
    (hn : Recent base pagefrz.noFreezePageRelfrozenXid)
    (hp : env.prepareAll tups pagefrz = .ok (plans, pagefrz')) :
    Advances base pagefrz pagefrz' ∧ plans.map (·.1) = tups ∧ ∀ plan ∈ plans, Considered env base pagefrz' plan := by
  induction tups generalizing pagefrz plans
  case nil              =>
    cases hp
    exact ⟨⟨⟨hb.within, le_rfl⟩, ⟨hn, le_rfl⟩, id⟩, rfl, List.forall_mem_nil _⟩
  case cons tup tups hi =>
    obtain ⟨hf, hfs⟩ := List.forall_mem_cons.mp hf
    obtain ⟨⟨frz, pagefrz₁⟩, h₁, hp⟩ := Outcome.bind_eq_ok_iff.mp hp
    obtain ⟨⟨plans', pagefrz₂⟩, h₂, hp⟩ := Outcome.bind_eq_ok_iff.mp hp
    cases hp
    obtain ⟨ha, hc⟩ := pgTdePrepareFreezeTuple_considered hf ho hb hn h₁
    obtain ⟨ha', hmap, hall⟩ := hi hfs (ha.freeze.trans hb) ha.noFreeze.within h₂
    exact ⟨ha.trans ha', by rw [List.map_cons, hmap], List.forall_mem_cons.mpr ⟨hc.advance ha', hall⟩⟩

-- All transactions that are left in a page are noted, be it frozen or not.
theorem lazyScanFreeze_tracked {fpi : Bool} {multi : Nat} {scanned : ScannedPage}
    (hf : ∀ tup ∈ tups, Freezable env base tup) (ho : Recent base env.cutoffs.oldestXmin)
    (hb : Below (ahead base) (Recent base) tracker env.cutoffs.oldestXmin)
    (he : env.lazyScanFreeze fpi tups tracker multi = .ok scanned) :
    Below (ahead base) (Recent base) scanned.newRelfrozenXid tracker ∧
      ∀ tup ∈ scanned.tuples, Tracked env.members base scanned.newRelfrozenXid tup := by
  obtain ⟨⟨plans, pagefrz⟩, hp, he⟩ := Outcome.bind_eq_ok_iff.mp he
  obtain ⟨ha, hmap, hall⟩ := prepareAll_considered hf ho hb hb.within hp
  simp only at he
  split at he
  case isTrue      =>
    obtain ⟨tups', hexec, he⟩ := Outcome.bind_eq_ok_iff.mp he
    cases he
    refine ⟨ha.freeze, fun tup htup => ?_⟩
    obtain ⟨plan, hplan, hf⟩ := Outcome.mapM_mem hexec tup htup
    exact (hall plan hplan).frozen tup hf
  case isFalse hno =>
    cases he
    refine ⟨ha.noFreeze, fun tup htup => ?_⟩
    rw [←hmap] at htup
    obtain ⟨plan, hplan, rfl⟩ := List.mem_map.mp htup
    exact (hall plan hplan).unfrozen (not_or.mp hno).left

end FreezeEnv

section Pages

open FreezeEnv

variable {base oldestXmin tracker tracker' multi multi' : Nat} {members : MultiXactMembers} {pages : List PageToScan}
variable {pages' : List (List (List UInt8))}

-- The pages are scanned by a VACUUM, while other transactions go on.
structure PageToScan.Scannable (base oldestXmin : Nat) (members : MultiXactMembers) (page : PageToScan) : Prop where
  cutoffs : page.env.cutoffs.oldestXmin = oldestXmin
  members : page.env.members = members
  tuples  : ∀ tup ∈ page.tuples, Freezable page.env base tup

theorem lazyScanPages_tracked_of (hs : ∀ page ∈ pages, page.Scannable base oldestXmin members)
    (ho : Recent base oldestXmin) (hb : Below (ahead base) (Recent base) tracker oldestXmin)
    (he : lazyScanPages pages tracker multi = .ok (pages', tracker', multi')) :
    Below (ahead base) (Recent base) tracker' tracker ∧
      ∀ tups ∈ pages', ∀ tup ∈ tups, Tracked members base tracker' tup := by
  induction pages generalizing tracker multi pages'
  case nil                =>
    cases he
    exact ⟨⟨hb.within, le_rfl⟩, List.forall_mem_nil _⟩
  case cons page pages hi =>
    obtain ⟨hpage, hs⟩ := List.forall_mem_cons.mp hs
    obtain ⟨scanned, h₁, he⟩ := Outcome.bind_eq_ok_iff.mp he
    obtain ⟨⟨rest, tracker₂, multi₂⟩, h₂, he⟩ := Outcome.bind_eq_ok_iff.mp he
    cases he
    obtain ⟨hcutoffs, hmembers, htups⟩ := hpage
    obtain ⟨hbelow, htracked⟩ := lazyScanFreeze_tracked htups (hcutoffs ▸ ho) (hcutoffs ▸ hb) h₁
    obtain ⟨hbelow', hrest⟩ := hi hs (hbelow.trans hb) h₂
    refine ⟨hbelow'.trans hbelow, List.forall_mem_cons.mpr ⟨fun tup htup => ?_, hrest⟩⟩
    exact (hmembers ▸ htracked tup htup).mono hbelow'.le

-- The table may be marked as containing no transactions from before the id that VACUUM ends with.
theorem lazyScanPages_tracked (hs : ∀ page ∈ pages, page.Scannable base oldestXmin members)
    (ho : Recent base oldestXmin) (he : lazyScanPages pages oldestXmin multi = .ok (pages', tracker', multi')) :
    ¬transactionIdPrecedes oldestXmin tracker' ∧ ∀ tups ∈ pages', ∀ tup ∈ tups, ∀ u ∈ remainingXids members tup,
      transactionIdIsNormal u → ¬transactionIdPrecedes u tracker' := by
  obtain ⟨hb, htracked⟩ := lazyScanPages_tracked_of hs ho ⟨ho, le_rfl⟩ he
  have hlt {u : Nat} (hu : Recent base u) (hle : ahead base tracker' ≤ ahead base u) :
      ¬transactionIdPrecedes u tracker' :=
    mt (transactionIdPrecedes_iff _ _ hu hb.within).mp (not_lt.mpr hle)
  refine ⟨hlt ho hb.le, fun tups htups tup htup u hu hn => ?_⟩
  obtain ⟨hin, hle⟩ := htracked tups htups tup htup u hu hn
  exact hlt ⟨hn, hin⟩ hle

def lockedPage : PageToScan where
  status := lockedStatus
  env    := lockedEnv
  fpi    := false
  tuples := [lockedRow]

theorem lockedPage_scannable : ∀ page ∈ [lockedPage], page.Scannable 3 10 lockedMembers :=
  List.forall_mem_singleton.mpr {
    cutoffs := rfl
    members := rfl
    tuples  := List.forall_mem_singleton.mpr {
      truthful := lockedRow_truthful
      locked   := lockedRow_locked
      inUse    := {
        xmin := fun _ _ => by rw [InHalf]; decide
        xmax := by
          intro u hu _
          have hx : xmaxXids lockedMembers lockedRow = [7, 20] := by decide
          have hu : u ∈ [7, 20] := hx ▸ hu
          obtain rfl | rfl := List.mem_pair.mp hu
          · exact ⟨by decide, by rw [InHalf]; decide⟩
          · exact ⟨by decide, by rw [InHalf]; decide⟩ } } }

theorem lockedPage_tracked : lazyScanPages [lockedPage] 10 2 = .ok ([[frozenRow]], 10, 2) ∧
    ∀ u ∈ remainingXids lockedMembers frozenRow, transactionIdIsNormal u → ¬transactionIdPrecedes u 10 :=
  ⟨rfl, (lazyScanPages_tracked lockedPage_scannable ⟨by decide, by rw [InHalf]; decide⟩
    (show lazyScanPages [lockedPage] 10 2 = .ok ([[frozenRow]], 10, 2) from rfl)).right [frozenRow]
      (List.mem_singleton_self _) frozenRow (List.mem_singleton_self _)⟩

end Pages
