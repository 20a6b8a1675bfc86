import PgTde.Index.Theorems.Merge

namespace HeapTable

variable {rel : HeapTable} {satisfies : ItemPointer → Bool} {blkno : Nat} {page : HeapPage}
variable {t u : ScanTuple}

-- A tuple of the table is the item of its block and offset number.
structure Holds (rel : HeapTable) (t : ScanTuple) : Prop where
  block  : rel.blocks[t.tSelf.blkno]? = some t.page
  offnum : t.tSelf.offnum ≠ invalidOffsetNumber
  item   : t.page.getItemId t.tSelf.offnum = some t.lp
  normal : t.lp.isNormal

theorem mem_blockTuples (h : t ∈ blockTuples blkno page) :
    t.tSelf.blkno = blkno ∧ t.tSelf.offnum ≠ invalidOffsetNumber ∧ t.page = page ∧
      page.getItemId t.tSelf.offnum = some t.lp ∧ t.lp.isNormal := by
  obtain ⟨⟨lp, offnum⟩, hm, ht⟩ := List.mem_filterMap.mp h
  obtain ⟨hle, hi⟩ := List.mk_mem_zipIdx_iff_le_and_getElem?_sub.mp hm
  have ho : offnum ≠ 0 := by omega
  by_cases hn : lp.isNormal
  case neg => simp [hn] at ht
  case pos =>
    simp only [hn, if_true, Option.some.injEq] at ht
    subst ht
    exact ⟨rfl, ho, rfl, by rw [Page.getItemId, if_neg ho, hi], hn⟩

theorem holds_of_mem (h : t ∈ rel.heapTuples satisfies) : rel.Holds t := by
  obtain ⟨⟨page, blkno⟩, hm, ht⟩ := List.mem_flatMap.mp (List.mem_of_mem_filter h)
  obtain ⟨rfl, ho, rfl, hi, hn⟩ := mem_blockTuples ht
  exact ⟨List.mk_mem_zipIdx_iff_getElem?.mp hm, ho, hi, hn⟩

theorem Holds.page_eq (ht : rel.Holds t) (hu : rel.Holds u) (h : t.tSelf.blkno = u.tSelf.blkno) :
    t.page = u.page := by
  have hb := ht.block
  rw [h, hu.block] at hb
  exact (Option.some.inj hb).symm

theorem Holds.eq (ht : rel.Holds t) (hu : rel.Holds u) (h : t.tSelf = u.tSelf) : t = u := by
  have hp := ht.page_eq hu (h ▸ rfl)
  have hi := ht.item
  rw [h, hp, hu.item] at hi
  cases t
  cases u
  cases h
  cases hp
  cases hi
  rfl

theorem Holds.mem_blockTuples (h : rel.Holds t) : t ∈ blockTuples t.tSelf.blkno t.page := by
  have hi := h.item
  have ho : t.tSelf.offnum ≠ 0 := h.offnum
  rw [Page.getItemId, if_neg ho] at hi
  refine List.mem_filterMap.mpr ⟨(t.lp, t.tSelf.offnum), ?_, ?_⟩
  · exact List.mk_mem_zipIdx_iff_le_and_getElem?_sub.mpr ⟨Nat.one_le_iff_ne_zero.mpr ho, hi⟩
  · simp only [h.normal, if_true]

theorem mem_heapTuples : t ∈ rel.heapTuples satisfies ↔ rel.Holds t ∧ satisfies t.tSelf := by
  constructor
  case mp  => exact fun h => ⟨holds_of_mem h, (List.mem_filter.mp h).right⟩
  case mpr =>
    rintro ⟨h, hs⟩
    have hb : (t.page, t.tSelf.blkno) ∈ rel.blocks.zipIdx := List.mk_mem_zipIdx_iff_getElem?.mpr h.block
    exact List.mem_filter.mpr ⟨List.mem_flatMap.mpr ⟨_, hb, h.mem_blockTuples⟩, hs⟩

theorem nodup_blockTuples : (blockTuples blkno page).Nodup := by
  have hn : (page.linp.zipIdx 1).Nodup := by
    refine List.Nodup.of_map (·.snd) ?_
    rw [List.zipIdx_map_snd]
    exact List.nodup_range'
  refine hn.filterMap ?_
  rintro ⟨lp, offnum⟩ ⟨lp', offnum'⟩ u hu hu'
  simp only [Option.mem_def, Option.ite_none_right_eq_some, Option.some.injEq] at hu hu'
  obtain ⟨-, rfl⟩ := hu
  obtain ⟨-, hu'⟩ := hu'
  cases hu'
  rfl

-- The scan reads the blocks from zero forward.
theorem pairwise_blkno : (rel.heapTuples satisfies).Pairwise (·.tSelf.blkno ≤ ·.tSelf.blkno) := by
  apply List.Pairwise.filter
  rw [List.pairwise_flatMap]
  constructor
  case left =>
    rintro ⟨page, blkno⟩ -
    refine List.pairwise_of_forall_mem_list ?_
    intro t ht u hu
    rw [(mem_blockTuples ht).left, (mem_blockTuples hu).left]
  case right =>
    have hs : (rel.blocks.zipIdx.map (·.snd)).Pairwise (· < ·) := by
      rw [List.zipIdx_map_snd]
      exact List.pairwise_lt_range'
    refine (List.pairwise_map.mp hs).imp ?_
    intro a b hlt t ht u hu
    rw [(mem_blockTuples ht).left, (mem_blockTuples hu).left]
    exact hlt.le

end HeapTable

variable {α : Type} {rel : HeapTable} {s : ValidateState} {t : ScanTuple} {root : ItemPointer}
variable {tids : List ItemPointer} {indexInfo : IndexInfo α} {updater : Nat → Nat}

-- The state of the scan on the page of `t`.
structure ValidateState.OnPage (tids : List ItemPointer) (updater : Nat → Nat) (s : ValidateState)
    (t : ScanTuple) : Prop where
  rootBlkno   : s.rootBlkno = some t.tSelf.blkno
  rootOffsets : t.page.pgTdeGetRootTuples updater = .ok s.rootOffsets
  passed      : ∃ passed, s.Passed tids t.tSelf.blkno passed

-- The state at the start of the scan, or after a tuple.
inductive ValidateState.Between (rel : HeapTable) (tids : List ItemPointer) (updater : Nat → Nat) :
    ValidateState → Prop
  | start (rootOffsets : RootOffsets) :
    Between rel tids updater { MergeState.init tids with rootBlkno := none, rootOffsets }
  | behind {s : ValidateState} {t : ScanTuple} :
    rel.Holds t → s.OnPage tids updater t → Between rel tids updater s

namespace ValidateState

-- A tuple of the current page or of a page behind.
theorem Between.enterPage (h : s.Between rel tids updater) (ht : rel.Holds t)
    (hb : ∀ b ∈ s.rootBlkno, b ≤ t.tSelf.blkno) :
    match t.page.pgTdeGetRootTuples updater with
    | .error e => s.enterPage updater t = .error e
    | .ok _    => ∃ s', s.enterPage updater t = .ok s' ∧ s'.OnPage tids updater t := by
  by_cases hs : s.rootBlkno = some t.tSelf.blkno
  case pos =>
    cases h
    case start           => cases hs
    case behind u hu h =>
      have hn := Option.some.inj (h.rootBlkno.symm.trans hs)
      have hp := hu.page_eq ht hn
      simp only [←hp, h.rootOffsets, ValidateState.enterPage, hs, ne_eq, not_true_eq_false, if_false]
      exact ⟨s, rfl, hs, hp ▸ h.rootOffsets, hn ▸ h.passed⟩
  case neg =>
    cases hr : t.page.pgTdeGetRootTuples updater
    case error => simp [ValidateState.enterPage, hs, hr]
    case ok r  =>
      refine ⟨_, by simp [ValidateState.enterPage, hs, hr]; rfl, rfl, hr, ?_⟩
      cases h
      case start           => exact ⟨[], MergeState.Passed.init _ _⟩
      case behind u hu h =>
        obtain ⟨passed, hp⟩ := h.passed
        have hle := hb _ h.rootBlkno
        rw [h.rootBlkno] at hs
        refine ⟨passed, hp.clear (lt_of_le_of_ne hle ?_)⟩
        exact fun he => hs (congrArg some he)

end ValidateState

-- The work of the scan on a tuple, without the merge.
def validated (rel : HeapTable) (indexInfo : IndexInfo α) (updater : Nat → Nat) (tids : List ItemPointer)
    (t : ScanTuple) : Validating α PUnit := do
  let rootTuple ← .lift (rel.rootTid updater t)
  if rootTuple ∉ tids then
    insertMissing indexInfo t rootTuple

theorem ValidateState.OnPage.rootTid_eq (h : s.OnPage tids updater t) :
    rel.rootTid updater t =
    if heapTupleHeaderIsHeapOnly t.tData ∧ s.rootOffnum t = invalidOffsetNumber
    then .error (rel.failedToFindParent t)
    else .ok ⟨t.tSelf.blkno, s.rootOffnum t⟩ := by
  rw [HeapTable.rootTid, h.rootOffsets, Outcome.ok_bind, ValidateState.rootOffnum]
  by_cases ho : heapTupleHeaderIsHeapOnly t.tData
  case neg => simp [ho]
  case pos =>
    by_cases hr : s.rootOffsets (t.tSelf.offnum - 1) = invalidOffsetNumber
    case pos => simp [ho, hr]
    case neg => simp [ho, hr]

section

variable (ht : rel.Holds t) (hs : tids.Pairwise (· ≤ ·))
variable (ho : ∀ tid ∈ tids, tid.offnum ≠ invalidOffsetNumber)

include ht hs ho in
theorem validateStep_eq (h : s.Between rel tids updater) (hb : ∀ b ∈ s.rootBlkno, b ≤ t.tSelf.blkno) :
    ∃ s', validateStep rel indexInfo updater s t =
        validated rel indexInfo updater tids t >>= (fun _ => pure s') ∧
      ((∃ root, rel.rootTid updater t = .ok root) → s'.OnPage tids updater t) := by
  have he := h.enterPage ht hb
  cases hr : t.page.pgTdeGetRootTuples updater <;> rw [hr] at he
  case error e =>
    have hroot : rel.rootTid updater t = .error e := by simp [HeapTable.rootTid, hr]
    refine ⟨s, ?_, by simp [hroot]⟩
    simp only [validateStep, validated, he, hroot, Traced.lift_error_bind]
  case ok r =>
    obtain ⟨s₁, he, hp⟩ := he
    obtain ⟨passed, hpassed⟩ := hp.passed
    have hroot := @ValidateState.OnPage.rootTid_eq rel _ _ _ _ hp
    by_cases hn : heapTupleHeaderIsHeapOnly t.tData ∧ s₁.rootOffnum t = invalidOffsetNumber
    case pos =>
      rw [if_pos hn] at hroot
      refine ⟨s, ?_, by simp [hroot]⟩
      simp only [validateStep, validated, he, hroot, Traced.lift_ok, pure_bind, if_pos hn, Traced.lift_error_bind]
    case neg =>
      rw [if_neg hn] at hroot
      have hoff : s₁.rootOffnum t ≠ invalidOffsetNumber := by
        intro hz
        refine hn ⟨?_, hz⟩
        by_contra hh
        rw [ValidateState.rootOffnum, if_neg hh] at hz
        exact ht.offnum hz
      obtain ⟨passed', hpassed', hr⟩ :=
        @MergeState.Passed.merge _ _ _ _ ⟨t.tSelf.blkno, s₁.rootOffnum t⟩ hpassed ho rfl
      have hm := hpassed'.missing_iff hs hr rfl hoff
      let m := s₁.merge t.tSelf.blkno ⟨t.tSelf.blkno, s₁.rootOffnum t⟩ s₁.tuplesort
      refine ⟨{ s₁ with toMergeState := m }, ?_,
        fun _ => ⟨hp.rootBlkno, hp.rootOffsets, passed', hpassed'⟩⟩
      simp only [validateStep, validated, he, hroot, Traced.lift_ok, pure_bind, if_neg hn, hm]
      split
      · rfl
      · rw [pure_bind]

-- The whole scan.
theorem validateScan_eq {ts : List ScanTuple} (h : s.Between rel tids updater)
    (hts : ∀ t ∈ ts, rel.Holds t) (hp : ts.Pairwise (·.tSelf.blkno ≤ ·.tSelf.blkno))
    (hb : ∀ b ∈ s.rootBlkno, ∀ t ∈ ts, b ≤ t.tSelf.blkno)
    (hs : tids.Pairwise (· ≤ ·)) (ho : ∀ tid ∈ tids, tid.offnum ≠ invalidOffsetNumber) :
    ∃ s', ts.foldlM (validateStep rel indexInfo updater) s =
      ts.forM (validated rel indexInfo updater tids) >>= fun _ => pure s' := by
  induction ts generalizing s
  case nil             => exact ⟨s, rfl⟩
  case cons t ts hi =>
    obtain ⟨ht, hts⟩ := List.forall_mem_cons.mp hts
    obtain ⟨hle, hp⟩ := List.pairwise_cons.mp hp
    obtain ⟨s₁, he, hs₁⟩ := @validateStep_eq α rel s t tids indexInfo updater ht hs ho h
      fun b hm => hb b hm t List.mem_cons_self
    simp only [List.foldlM_cons, List.forM, he, bind_assoc, pure_bind]
    cases hr : rel.rootTid updater t
    case error =>
      refine ⟨s, ?_⟩
      simp only [validated, hr, Traced.lift_error_bind]
    case ok root =>
      have hs₁ := hs₁ ⟨root, hr⟩
      have hb : ∀ b ∈ s₁.rootBlkno, ∀ u ∈ ts, b ≤ u.tSelf.blkno := by
        intro b hb u hu
        rw [hs₁.rootBlkno] at hb
        cases hb
        exact hle u hu
      obtain ⟨s', hs'⟩ := hi (.behind ht hs₁) hts hp hb
      refine ⟨s', ?_⟩
      simp only [hs']

end
