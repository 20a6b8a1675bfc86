import PgTde.Hot.Tested
import PgTde.Hot.Theorems.HintedLinks
import PgTde.Visibility.Theorems.Agreement

open Relation XactStatus

namespace PruneEnv

variable {env : PruneEnv} {s s' s'' : PruneState} {n : Nat} {tup : List UInt8} {res : HTSVResult}

-- The test of a tuple changes what concerns old snapshots only. Once their limit is used, it stays.
structure Grows (s s' : PruneState) : Prop where
  limit  : s.oldSnapUsed → s'.oldSnapUsed ∧ s'.oldSnapXmin = s.oldSnapXmin
  plan   : s'.plan = s.plan
  marked : s'.marked = s.marked

theorem Grows.refl (s : PruneState) : Grows s s :=
  ⟨fun h => ⟨h, rfl⟩, rfl, rfl⟩

theorem Grows.trans (h : Grows s s') (h' : Grows s' s'') : Grows s s'' where
  limit hu := by
    obtain ⟨hu', he⟩ := h.limit hu
    obtain ⟨hu'', he'⟩ := h'.limit hu'
    exact ⟨hu'', he'.trans he⟩
  plan     := h'.plan.trans h.plan
  marked   := h'.marked.trans h.marked

theorem Grows.removable {xid : Nat} (h : Grows s s') (hr : env.removable s n xid) : env.removable s' n xid := by
  rw [PruneEnv.removable, Bool.or_eq_true, Bool.and_eq_true] at hr ⊢
  refine hr.imp_right fun ⟨hu, hp⟩ => ?_
  obtain ⟨hu', he⟩ := h.limit hu
  exact ⟨hu', he ▸ hp⟩

theorem Grows.tells (h : Grows s s') (ht : env.Tells s n tup res) : env.Tells s' n tup res where
  dead hd := (ht.dead hd).imp_right fun ⟨hi, xid, hx, hf, hr⟩ => ⟨hi, xid, hx, hf, h.removable hr⟩
  recentlyDead := ht.recentlyDead

theorem horizonResult_dead {x : XactStatus} (h : (x.horizonResult tup).1 = .dead) : x.insertion tup = .aborted := by
  rw [horizonResult] at h
  cases hf : x.insertion tup
  case aborted   => rfl
  case running   => simp [hf] at h
  case own       => rw [hf] at h; simp only at h; split at h <;> cases h
  case committed =>
    rw [hf] at h
    simp only [xmaxVacuumResult] at h
    split at h <;> (try split at h) <;> cases h

theorem horizonResult_recentlyDead {x : XactStatus} (h : (x.horizonResult tup).1 = .recentlyDead) :
    x.insertion tup = .committed ∧ updateXid x.updater tup = some (x.horizonResult tup).2 ∧
      x.fate (x.horizonResult tup).2 = .committed := by
  rw [horizonResult] at h ⊢
  cases hf : x.insertion tup
  case aborted   => simp [hf] at h
  case running   => simp [hf] at h
  case own       => rw [hf] at h; simp only at h; split at h <;> cases h
  case committed =>
    rw [hf] at h
    simp only [xmaxVacuumResult] at h ⊢
    cases hx : updateXid x.updater tup
    case none     => simp [hx] at h
    case some xid =>
      cases hfx : x.fate xid <;> simp [hx, hfx] at h ⊢

-- The test sets the hint for an insertion that has been aborted.
theorem xminInvalid_of_aborted {x : XactStatus} (h : x.Truthful tup) (ha : x.insertion tup = .aborted) :
    heapTupleHeaderXminInvalid (x.heapTupleSatisfiesVacuumHorizon tup).2 := by
  have hl := h.header
  have hc : ¬heapTupleHeaderXminCommitted tup := fun hc => by cases ha.symm.trans (h.xminCommitted hc)
  rw [heapTupleSatisfiesVacuumHorizon, checkXmin, if_neg hc]
  by_cases hi : heapTupleHeaderXminInvalid tup
  case pos => rwa [if_pos hi]
  case neg =>
    have hf : ¬heapTupleHeaderXminFrozen tup := fun hf => by cases ha.symm.trans (insertionFate_of_frozen hf)
    rw [insertion, insertionFate, if_neg hf] at ha
    have hown : ¬x.isCurrent (heapTupleHeaderGetRawXmin tup) := fun ho => by cases ha.symm.trans (fate_own_iff.mpr ho)
    obtain ⟨hp, hd⟩ := fate_aborted_iff.mp ha
    rw [if_neg hi, heapTupleHas_movedOff h.not_moved, heapTupleHas_movedIn h.not_moved, if_neg Bool.false_ne_true,
      if_neg Bool.false_ne_true, if_neg hown, if_neg hp, if_neg hd]
    simp only [setHintBits, ne_eq, not_true_eq_false, false_and, if_false]
    rw [heapTupleHeaderXminCommitted, Bool.not_eq_true] at hc
    rw [heapTupleHeaderXminInvalid_eq, heapTupleHas_storeHints (Nat.le_trans (by decide) hl),
      heapTupleHas_storeHints (Nat.le_trans (by decide) hl), hc, Bool.false_or,
      decide_eq_false (by decide : ¬heapXminInvalid &&& heapXminCommitted ≠ 0),
      decide_eq_true (by decide : heapXminInvalid &&& heapXminInvalid ≠ 0), Bool.or_true]
    rfl

theorem heapPruneSatisfiesVacuum_eq (s : PruneState) (ht : (env.status n).Truthful tup) : ∃ res tup' s',
    env.heapPruneSatisfiesVacuum n tup s = (res, tup', s') ∧ (env.status n).Hinted tup tup' ∧ Grows s s' ∧
    s'.htsv = s.htsv ∧ env.Tells s' n tup' res := by
  have hl : 20 ≤ tup.length := Nat.le_trans (by decide) ht.header
  have hinvalid := @xminInvalid_of_aborted tup _ ht
  obtain ⟨tup', hh, he⟩ := heapTupleSatisfiesVacuumHorizon_eq ht
  rw [heapPruneSatisfiesVacuum, he]
  rw [he] at hinvalid
  have hins : (env.status n).insertion tup' = (env.status n).insertion tup := hh.insertionFate_eq hl
  have hdel : (env.status n).deletion tup' = (env.status n).deletion tup := hh.deletionFate_eq hl
  generalize hres : (env.status n).horizonResult tup = r
  obtain ⟨res, deadAfter⟩ := r
  simp only
  split
  case isTrue hne  =>
    refine ⟨res, tup', s, rfl, hh, .refl s, rfl, fun hd => .inl (hinvalid ?_), fun hd => absurd hd hne⟩
    exact horizonResult_dead (by rw [hres, hd])
  case isFalse hrec =>
    obtain rfl := not_not.mp hrec
    obtain ⟨hi, hx, hf⟩ :=
      horizonResult_recentlyDead (by rw [hres] : ((env.status n).horizonResult tup).1 = .recentlyDead)
    rw [hres] at hx hf
    have hkept (s : PruneState) : env.Tells s n tup' .recentlyDead := by
      refine ⟨fun hd => (by cases hd), fun _ => ⟨hins.trans hi, ?_⟩⟩
      rw [hdel, deletion, deletionFate, hx, Option.map_some, hf]
    have hdead {s : PruneState} (hr : env.removable s n deadAfter) : env.Tells s n tup' .dead :=
      ⟨fun _ => .inr ⟨hins.trans hi, deadAfter, (hh.updateXid_eq hl).trans hx, hf, hr⟩, fun hd => by cases hd⟩
    split
    case isTrue hu   =>
      refine ⟨_, tup', s, rfl, hh, .refl s, rfl, ?_⟩
      split
      case isTrue hp  => exact hdead (Bool.or_eq_true_iff.mpr (.inr (Bool.and_eq_true_iff.mpr ⟨hu, hp⟩)))
      case isFalse hp => exact hkept s
    case isFalse hu  =>
      split
      case isTrue hr  => exact ⟨_, tup', s, rfl, hh, .refl s, rfl, hdead (Bool.or_eq_true_iff.mpr (.inl hr))⟩
      case isFalse hr =>
        split
        case isTrue  =>
          generalize hs₁ : (if s.oldSnapXmin = invalidTransactionId then { s with oldSnapXmin := env.limitedXmin }
            else s) = s₁
          have hg : s₁.plan = s.plan ∧ s₁.marked = s.marked ∧ s₁.htsv = s.htsv := by
            rw [←hs₁]
            split <;> exact ⟨rfl, rfl, rfl⟩
          split
          case isTrue hp  =>
            refine ⟨_, tup', _, rfl, hh, ⟨fun hu' => absurd hu' hu, hg.left, hg.right.left⟩, hg.right.right, ?_⟩
            exact hdead (Bool.or_eq_true_iff.mpr (.inr hp.right))
          case isFalse hp =>
            exact ⟨_, tup', s₁, rfl, hh, ⟨fun hu' => absurd hu' hu, hg.left, hg.right.left⟩, hg.right.right,
              hkept s₁⟩
        case isFalse => exact ⟨_, tup', s, rfl, hh, .refl s, rfl, hkept s⟩

end PruneEnv

theorem HeapPage.disjoint_items {page : HeapPage} {n m : Nat} {lp lp' : ItemIdData}
    (hl : page.getItemId n = some lp) (hl' : page.getItemId m = some lp') (hne : n ≠ m) (hs : lp.hasStorage)
    (hs' : lp'.hasStorage) : lp.extent.Disjoint lp'.extent := by
  have hb := Page.exists_getItemId.mp ⟨lp, hl⟩
  have hb' := Page.exists_getItemId.mp ⟨lp', hl'⟩
  rw [Page.getItemId, if_neg (by omega)] at hl hl'
  obtain ⟨hi, rfl⟩ := List.getElem?_eq_some_iff.mp hl
  obtain ⟨hi', rfl⟩ := List.getElem?_eq_some_iff.mp hl'
  have hd := List.pairwise_iff_getElem.mp page.disjoint
  obtain hlt | hlt := Nat.lt_or_gt_of_ne (by omega : n - 1 ≠ m - 1)
  · exact hd _ _ hi hi' hlt hs hs'
  · exact (hd _ _ hi' hi hlt hs' hs).symm

namespace PrunablePage

variable {env : PruneEnv} {page : PrunablePage env} {k n : Nat} {r : Page × PruneState} {lp lp' : ItemIdData}

theorem length_getItem {page : Page} : (page.getItem lp).length = lp.lpLen :=
  Memory.length_read

theorem hasStorage_of_normal (hl : page.getItemId n = some lp) (hn : lp.isNormal) : lp.hasStorage := by
  have hh := (page.truthful n lp hl hn).header
  rw [length_getItem] at hh
  exact decide_eq_true (Nat.ne_of_gt (Nat.lt_of_lt_of_le (by decide) hh))

-- What is so once the tuples behind `k` have been tested.
structure TestedAbove (page : PrunablePage env) (k : Nat) (r : Page × PruneState) : Prop where
  hinted : r.1 = { page.toPage with mem := r.1.mem }
  fresh  : r.2.plan = ⟨[], [], []⟩ ∧ ∀ n, ¬r.2.marked n
  below  : ∀ n ≤ k, ∀ lp, page.getItemId n = some lp → lp.isNormal → r.1.getItem lp = page.getItem lp
  tuples : ∀ n, k < n → ∀ lp, page.getItemId n = some lp → lp.isNormal → ∃ res,
    r.2.htsv n = some res ∧ (env.status n).Hinted (page.getItem lp) (r.1.getItem lp) ∧
    env.Tells r.2 n (r.1.getItem lp) res
  others : ∀ n, n = 0 ∨ k < n → (∀ lp, page.getItemId n = some lp → ¬lp.isNormal) → r.2.htsv n = none

theorem TestedAbove.getItemId (h : page.TestedAbove k r) : r.1.getItemId n = page.getItemId n := by
  rw [h.hinted]
  rfl

theorem getItem_setItem {q : Page} {tup : List UInt8} (hl : tup.length = lp.lpLen) :
    (q.setItem lp tup).getItem lp = tup := by
  rw [Page.setItem, Page.getItem, ←hl]
  exact Memory.read_write

theorem getItem_setItem_disjoint {q : Page} {tup : List UInt8} (hl : tup.length = lp.lpLen)
    (hd : lp.extent.Disjoint lp'.extent) : (q.setItem lp tup).getItem lp' = q.getItem lp' := by
  rw [Page.setItem, Page.getItem, Page.getItem]
  refine Memory.read_write_disjoint ?_
  rw [hl]
  exact hd.symm

-- The test of item `k + 1` leaves what has been found out about the ones behind it.
theorem TestedAbove.rest {q : Page} {s : PruneState} (h : page.TestedAbove (k + 1) r)
    (hq : q = { page.toPage with mem := q.mem }) (hg : PruneEnv.Grows r.2 s)
    (hs : ∀ n ≠ k + 1, s.htsv n = r.2.htsv n)
    (hi : ∀ n ≠ k + 1, ∀ lp, page.getItemId n = some lp → lp.isNormal → q.getItem lp = r.1.getItem lp)
    (ht : ∀ lp, page.getItemId (k + 1) = some lp → lp.isNormal → ∃ res, s.htsv (k + 1) = some res ∧
      (env.status (k + 1)).Hinted (page.getItem lp) (q.getItem lp) ∧ env.Tells s (k + 1) (q.getItem lp) res)
    (ho : (∀ lp, page.getItemId (k + 1) = some lp → ¬lp.isNormal) → s.htsv (k + 1) = none) :
    page.TestedAbove k (q, s) := by
  constructor
  case hinted => exact hq
  case fresh  => exact ⟨hg.plan.trans h.fresh.left, fun n => by rw [hg.marked]; exact h.fresh.right n⟩
  case below  =>
    intro n hn lp hl hnorm
    exact (hi n (by omega) lp hl hnorm).trans (h.below n (by omega) lp hl hnorm)
  case tuples =>
    intro n hn lp hl hnorm
    obtain rfl | hlt := Nat.eq_or_lt_of_le (Nat.succ_le_of_lt hn)
    · exact ht lp hl hnorm
    · obtain ⟨res, hr, hh, htells⟩ := h.tuples n hlt lp hl hnorm
      rw [hi n (by omega) lp hl hnorm]
      exact ⟨res, (hs n (by omega)).trans hr, hh, hg.tells htells⟩
  case others =>
    intro n hn hnone
    by_cases hk : n = k + 1
    case pos =>
      subst hk
      exact ho hnone
    case neg => exact (hs n hk).trans (h.others n (by omega) hnone)

theorem TestedAbove.step (h : page.TestedAbove (k + 1) r) (hk : k + 1 ≤ page.getMaxOffsetNumber) :
    page.TestedAbove k (env.testTuple (k + 1) r) := by
  obtain ⟨lp, hl⟩ := Page.exists_getItemId.mpr ⟨Nat.succ_pos k, hk⟩
  have hline {lp' : ItemIdData} (hl' : page.getItemId (k + 1) = some lp') : lp' = lp :=
    Option.some.inj (hl'.symm.trans hl)
  rw [PruneEnv.testTuple]
  simp only [h.getItemId, hl]
  split
  case isFalse hn =>
    refine h.rest h.hinted ⟨fun hu => ⟨hu, rfl⟩, rfl, rfl⟩ (fun n hne => ?_) (fun _ _ _ _ _ => rfl)
      (fun lp' hl' hn' => ?_) fun _ => ?_
    · exact Function.update_of_ne hne _ _
    · exact absurd hn' (hline hl' ▸ hn)
    · exact Function.update_self _ _ _
  case isTrue hn  =>
    have ht := page.truthful (k + 1) lp hl hn
    rw [h.below (k + 1) (Nat.le_refl _) lp hl hn]
    obtain ⟨res, tup', s', he, hh, hg, hhtsv, htells⟩ := PruneEnv.heapPruneSatisfiesVacuum_eq r.2 ht
    have hlen : tup'.length = lp.lpLen := by
      obtain ⟨hints, -, rfl⟩ := hh.stored
      rw [length_storeHints (Nat.le_trans (by decide) ht.header), length_getItem]
    simp only [he]
    refine h.rest ?_ ⟨hg.limit, hg.plan, hg.marked⟩ (fun n hne => ?_) (fun n hne lp' hl' hn' => ?_)
      (fun lp' hl' hn' => ?_) fun hnone => absurd hn (hnone lp hl)
    · rw [Page.setItem, h.hinted]
    · exact (Function.update_of_ne hne _ _).trans (congrFun hhtsv n)
    · exact getItem_setItem_disjoint hlen (HeapPage.disjoint_items hl hl' hne.symm
        (hasStorage_of_normal hl hn) (hasStorage_of_normal hl' hn'))
    · obtain rfl := hline hl'
      rw [getItem_setItem hlen]
      exact ⟨res, Function.update_self _ _ _, hh, htells.dead, htells.recentlyDead⟩

theorem TestedAbove.run (h : page.TestedAbove k r) (hk : k ≤ page.getMaxOffsetNumber) :
    page.TestedAbove 0 (env.testTuples k r) := by
  induction k generalizing r
  case zero      => exact h
  case succ k ih => exact ih (h.step hk) (Nat.le_of_succ_le hk)

theorem testedAbove_init (page : PrunablePage env) (oldSnapXmin : Nat) :
    page.TestedAbove page.getMaxOffsetNumber (page.toPage, .init oldSnapXmin) where
  hinted              := rfl
  fresh               := ⟨rfl, fun _ => Bool.false_ne_true⟩
  below _ _ _ _ _     := rfl
  tuples _ hn lp hl _ := absurd (Page.exists_getItemId.mp ⟨lp, hl⟩).right (Nat.not_le_of_gt hn)
  others _ _ _        := rfl

variable {m j : Nat}

theorem TestedAbove.hinted_item (h : page.TestedAbove 0 r) (hl : page.getItemId n = some lp) (hn : lp.isNormal) :
    (env.status n).Hinted (page.getItem lp) (r.1.getItem lp) ∧ 24 ≤ (page.getItem lp).length := by
  have hb := Page.exists_getItemId.mp ⟨lp, hl⟩
  obtain ⟨-, -, hh, -⟩ := h.tuples n (by omega) lp hl hn
  exact ⟨hh, (page.truthful n lp hl hn).header⟩

-- The hints may tell that an update has been aborted, and change nothing else about chains.
theorem TestedAbove.linked (h : page.TestedAbove 0 r) (hl : r.1.Linked page.updater n m) :
    page.Linked page.updater n m := by
  obtain ⟨hnext, lp, hm, hnorm, hx⟩ := hl
  rw [h.getItemId] at hm
  obtain ⟨hh, hlen⟩ := h.hinted_item hm hnorm
  rw [hh.getXmin_eq (by omega)] at hx
  cases hn : page.getItemId n
  case none     => simp [Page.nextOffset, h.getItemId, hn] at hnext
  case some lpn =>
    have hn' : r.1.getItemId n = some lpn := h.getItemId.trans hn
    cases hf : lpn.lpFlags
    case unused   => simp [Page.nextOffset, hn', hf] at hnext
    case dead     => simp [Page.nextOffset, hn', hf] at hnext
    case redirect =>
      rw [Page.nextOffset_redirect hn' hf] at hnext
      exact ⟨(Page.nextOffset_redirect hn hf).trans hnext, lp, hm, hnorm,
        fun hne => absurd (Page.nextXmin_redirect hn hf) hne⟩
    case normal   =>
      have hnn : lpn.isNormal := decide_eq_true hf
      obtain ⟨hhn, hlen⟩ := h.hinted_item hn hnn
      rw [Page.nextOffset_normal hn' hnn] at hnext
      rw [Page.nextXmin_normal hn' hnn] at hx
      split at hnext
      case isFalse    => cases hnext
      case isTrue hhot =>
        rw [hhn.ctidOffsetNumber_eq (by omega)] at hnext
        rw [hhn.getUpdateXid_eq (by omega) hhot] at hx
        refine ⟨?_, lp, hm, hnorm, ?_⟩
        · rwa [Page.nextOffset_normal hn hnn, if_pos (hhn.isHotUpdated_of (by omega) hhot)]
        · rwa [Page.nextXmin_normal hn hnn]

theorem TestedAbove.isHeapOnly (h : page.TestedAbove 0 r) (hl : page.getItemId n = some lp) (hn : lp.isNormal) :
    heapTupleHeaderIsHeapOnly (r.1.getItem lp) = heapTupleHeaderIsHeapOnly (page.getItem lp) := by
  obtain ⟨hh, hlen⟩ := h.hinted_item hl hn
  exact hh.isHeapOnly_eq (by omega)

theorem TestedAbove.hasRoot (h : page.TestedAbove 0 r) (hr : r.1.HasRoot page.updater n j) :
    page.HasRoot page.updater n j := by
  have hroot {n : Nat} (ht : r.1.IsRootTuple n) : page.IsRootTuple n := by
    obtain ⟨lp, hl, hn, ho⟩ := ht
    rw [h.getItemId] at hl
    exact ⟨lp, hl, hn, by rwa [←h.isHeapOnly hl hn]⟩
  have hred {n : Nat} (ht : r.1.IsRedirect n) : page.IsRedirect n := by
    obtain ⟨lp, hl, hf⟩ := ht
    exact ⟨lp, h.getItemId ▸ hl, hf⟩
  exact hr.imp (And.imp_right hroot)
    (And.imp (Or.imp hroot hred) (TransGen.mono (fun _ _ hl => h.linked hl) _ _))

theorem TestedAbove.tHoff_eq (h : page.TestedAbove 0 r) (hl : page.getItemId n = some lp) (hn : lp.isNormal) :
    tHoff r.1.mem lp.lpOff = tHoff page.mem lp.lpOff := by
  obtain ⟨hh, hlen⟩ := h.hinted_item hl hn
  rw [length_getItem] at hlen
  have hd := congrArg (·[0]?) (hh.drop_eq (by rw [length_getItem]; omega))
  simp only [List.getElem?_drop, Page.getItem, Memory.getElem?_read (by omega : 22 + 0 < lp.lpLen)] at hd
  rw [tHoff, tHoff]
  exact congrArg UInt8.toNat (Option.some.inj hd)

-- The page with the hints that the tests have set.
def TestedAbove.testedPage (h : page.TestedAbove 0 r) : TestedPage where
  toPage          := { page.toPage with mem := r.1.mem }
  lower_le        := page.lower_le
  upper_le        := page.upper_le
  special_le      := page.special_le
  special_aligned := page.special_aligned
  tuples lp hl hs := by
    have ht := page.tuples lp hl hs
    obtain ⟨i, hi⟩ := List.getElem?_of_mem hl
    have hhoff := h.tHoff_eq (n := i + 1) hi ht.normal
    exact ⟨ht.normal, ht.upper_le, ht.le_special, ht.aligned, hhoff ▸ ht.header, hhoff ▸ ht.hoff_le⟩
  disjoint        := page.disjoint
  updater         := page.updater
  acyclic n ht    := page.acyclic n (TransGen.mono (fun _ _ hl => h.linked (h.hinted ▸ hl)) _ _ ht)
  oneRoot k j j' hr hr' := page.oneRoot k j j' (h.hasRoot (h.hinted ▸ hr)) (h.hasRoot (h.hinted ▸ hr'))
  heapOnly n m hl := by
    obtain ⟨lp, hl, hn, ho⟩ := page.heapOnly n m (h.linked (h.hinted ▸ hl))
    refine ⟨lp, hl, hn, ?_⟩
    have hi := h.isHeapOnly hl hn
    rw [h.hinted] at hi
    exact hi.trans ho
  few             := page.few
  htsv            := r.2.htsv
  tested n lp hl  := by
    have hb := Page.exists_getItemId.mp ⟨lp, hl⟩
    by_cases hn : lp.isNormal
    case pos =>
      obtain ⟨res, hr, -⟩ := h.tuples n (by omega) lp hl hn
      rw [hr, hn]
      rfl
    case neg =>
      have hnone := h.others n (.inr (by omega)) fun lp' hl' => Option.some.inj (hl'.symm.trans hl) ▸ hn
      rw [hnone]
      exact (Bool.not_eq_true _ ▸ hn).symm

end PrunablePage
