import PgTde.Encryption.Theorems.Tuple
import PgTde.Index.Theorems.Scan

variable {α : Type} {rel : HeapTable} {P : Platform} {t : ScanTuple} {indexInfo : IndexInfo α}
variable {updater : Nat → Nat} {timeQual : ScanTuple → Outcome (Option Bool)} {b s₁ : BuildState}
variable {e : IndexEntry α} {alive : Bool}

-- The tuple that is indexed is not changed by its decryption.
def HeapTable.StoredPlain (rel : HeapTable) (P : Platform) (t : ScanTuple) : Prop :=
  rel.relkind = .toastvalue ∨
  ∀ i < t.lp.lpLen - tHoff t.page.mem t.lp.lpOff,
    P.keystream rel.key (offsetInFile t.tSelf.blkno t.lp.lpOff + i) = 0

theorem HeapTable.Holds.tuple (ht : rel.Holds t) : t.lp.Tuple t.page.toPage := by
  have hi := ht.item
  simp only [Page.getItemId] at hi
  rw [if_neg (show t.tSelf.offnum ≠ 0 from ht.offnum)] at hi
  have hm := List.mem_of_getElem? hi
  exact t.page.tuples _ hm (rel.normal _ (List.mem_of_getElem? ht.block) _ hm ht.normal)

theorem HeapTable.Holds.getnextslot_eq (ht : rel.Holds t) :
    rel.getnextslot P t = .ok (
      if rel.relkind = .toastvalue then t.tData
      else
        let hoff := tHoff t.page.mem t.lp.lpOff
        t.tData.take hoff ++
          (P.keystream rel.key).xor (offsetInFile t.tSelf.blkno t.lp.lpOff) (t.tData.drop hoff)) := by
  have h := ht.tuple
  have hs := t.page.special_le
  have hle := h.le_special
  by_cases hr : rel.relkind = .toastvalue
  case pos =>
    simp [getnextslot, Platform.pgTdeExecStoreBufferHeapTuple, Platform.execStoreTuple, hr, ScanTuple.tData,
      Page.getItem]
  case neg =>
    rw [getnextslot, Platform.pgTdeExecStoreBufferHeapTuple, Platform.execStoreTuple, if_pos hr, if_neg hr,
      Platform.pgTdeCryptTuple_eq (by omega) (by omega) h.hoff_le]
    simp [ScanTuple.tData, Page.getItem, Memory.drop_read]

theorem HeapTable.Holds.getnextslot_eq_tData_iff (ht : rel.Holds t) :
    rel.getnextslot P t = .ok t.tData ↔ rel.StoredPlain P t := by
  rw [ht.getnextslot_eq, HeapTable.StoredPlain]
  by_cases hr : rel.relkind = .toastvalue
  case pos => simp [hr]
  case neg =>
    have hl : (t.tData.drop (tHoff t.page.mem t.lp.lpOff)).length =
        t.lp.lpLen - tHoff t.page.mem t.lp.lpOff := by
      simp [ScanTuple.tData, Page.getItem]
    conv => lhs; rhs; rw [←List.take_append_drop (tHoff t.page.mem t.lp.lpOff) t.tData]
    rw [if_neg hr, Except.ok.injEq, List.append_cancel_left_eq, Keystream.xor_eq_self_iff, hl,
      or_iff_right hr]

-- The decryption leaves the header as it is.
theorem HeapTable.Holds.isHeapOnly_eq {slot : List UInt8} (ht : rel.Holds t)
    (hs : rel.getnextslot P t = .ok slot) :
    heapTupleHeaderIsHeapOnly slot = heapTupleHeaderIsHeapOnly t.tData := by
  have h := ht.tuple
  have hh := h.header
  simp only [sizeofHeapTupleHeaderData] at hh
  rw [ht.getnextslot_eq, Except.ok.injEq] at hs
  split at hs
  case isTrue  => rw [hs]
  case isFalse =>
    have hl : 24 ≤ (t.tData.take (tHoff t.page.mem t.lp.lpOff)).length := by
      have hle := h.hoff_le
      simp only [ScanTuple.tData, Page.getItem, List.length_take, Memory.length_read]
      omega
    have hu : unsignedAt 2 slot 18 = unsignedAt 2 t.tData 18 := by
      rw [← hs, unsignedAt, unsignedAt, List.drop_append_of_le_length (by omega),
        List.take_append_of_le_length (by rw [List.length_drop]; omega), List.drop_take, List.take_take,
        Nat.min_eq_left (by omega)]
    rw [heapTupleHeaderIsHeapOnly, heapTupleHeaderIsHeapOnly, tInfomask2, tInfomask2, hu]

-- The state of an index build on the page of `t`.
structure BuildState.OnPage (updater : Nat → Nat) (s : BuildState) (t : ScanTuple) : Prop where
  rootBlkno   : s.rootBlkno = some t.tSelf.blkno
  rootOffsets : t.page.pgTdeGetRootTuples updater = .ok s.rootOffsets

theorem BuildState.OnPage.rootTid_eq (h : s₁.OnPage updater t) :
    rel.rootTid updater t =
    if heapTupleHeaderIsHeapOnly t.tData then
      if s₁.rootOffsets (t.tSelf.offnum - 1) = invalidOffsetNumber
      then .error (rel.failedToFindParent t)
      else .ok ⟨t.tSelf.blkno, s₁.rootOffsets (t.tSelf.offnum - 1)⟩
    else .ok t.tSelf := by
  rw [HeapTable.rootTid, h.rootOffsets, Outcome.ok_bind]
  by_cases hr : s₁.rootOffsets (t.tSelf.offnum - 1) = invalidOffsetNumber <;> simp [hr]

-- The state at the start of an index build, or after a tuple.
inductive BuildState.Between (rel : HeapTable) (updater : Nat → Nat) : BuildState → Prop
  | start (rootOffsets : RootOffsets) : Between rel updater ⟨none, rootOffsets⟩
  | behind {s : BuildState} {t : ScanTuple} :
    rel.Holds t → s.OnPage updater t → Between rel updater s

theorem BuildState.Between.enterPage (h : b.Between rel updater) (ht : rel.Holds t) :
    b.enterPage updater t =
    (t.page.pgTdeGetRootTuples updater).map fun rootOffsets => ⟨some t.tSelf.blkno, rootOffsets⟩ := by
  rw [BuildState.enterPage]
  split
  case isTrue     => cases t.page.pgTdeGetRootTuples updater <;> rfl
  case isFalse hs =>
    rw [ne_eq, not_not] at hs
    cases h
    case start         => cases hs
    case behind u hu h =>
      have hp := hu.page_eq ht (Option.some.inj (h.rootBlkno.symm.trans hs))
      rw [←hp, h.rootOffsets, Except.map, ←hs]

-- What an index build makes of a tuple.
structure Indexed (P : Platform) (rel : HeapTable) (indexInfo : IndexInfo α) (updater : Nat → Nat)
    (t : ScanTuple) (e : IndexEntry α) : Prop where
  tSelf     : e.tSelf = t.tSelf
  tuple     : rel.getnextslot P t = .ok e.tuple
  predicate : indexInfo.iiPredicate e.tuple = .ok true
  values    : indexInfo.formIndexDatum e.tuple = .ok e.values
  tid       : rel.rootTid updater t = .ok e.tid

-- The step of an index build on a tuple of the state's page.
theorem buildRangeStep_eq (ht : rel.Holds t) (he : b.enterPage updater t = .ok s₁)
    (hp : s₁.OnPage updater t) :
    buildRangeStep rel indexInfo updater P timeQual b t = (do
      match ← .lift (timeQual t) with
      | none       => return s₁
      | some alive =>
        let slot ← .lift (rel.getnextslot P t)
        if ← .lift (indexInfo.iiPredicate slot) then
          let values ← .lift (indexInfo.formIndexDatum slot)
          let tid ← .lift (rel.rootTid updater t)
          .perform (⟨t.tSelf, slot, tid, values⟩, alive) (.ok s₁)
        else
          return s₁) := by
  simp only [buildRangeStep, he, Traced.lift_ok, pure_bind]
  congr 1
  funext alive
  cases alive
  case none => rfl
  case some alive =>
    rw [←HeapTable.getnextslot]
    cases hg : rel.getnextslot P t
    case error => simp only [Traced.lift_error_bind]
    case ok slot =>
      simp only [Traced.lift_ok, pure_bind, ht.isHeapOnly_eq hg, hp.rootTid_eq, hp.rootOffsets]
      congr 1
      funext satisfied
      split
      case isFalse => rfl
      case isTrue  =>
        congr 1
        funext values
        by_cases ho : heapTupleHeaderIsHeapOnly t.tData
        case neg => simp only [ho, Bool.false_eq_true, if_false, Traced.lift_ok, pure_bind]
        case pos =>
          by_cases hr : s₁.rootOffsets (t.tSelf.offnum - 1) = invalidOffsetNumber
          case pos => simp only [ho, hr, if_true, Traced.lift_error_bind]
          case neg => simp only [ho, hr, if_true, if_false, Traced.lift_ok, pure_bind]

theorem mem_buildRangeStep_iff (h : b.Between rel updater) (ht : rel.Holds t) :
    (e, alive) ∈ (buildRangeStep rel indexInfo updater P timeQual b t).trace ↔
    Indexed P rel indexInfo updater t e ∧ timeQual t = .ok (some alive) := by
  have he := h.enterPage ht
  cases hr : t.page.pgTdeGetRootTuples updater <;> rw [hr] at he
  case error f =>
    simp only [buildRangeStep, he, Except.map, Traced.lift_error_bind, Traced.lift_trace, List.not_mem_nil,
      false_iff]
    rintro ⟨hi, -⟩
    have hi := hi.tid
    rw [HeapTable.rootTid, hr] at hi
    cases hi
  case ok r =>
    rw [buildRangeStep_eq ht he ⟨rfl, hr⟩, Traced.mem_lift_bind]
    constructor
    case mp =>
      rintro ⟨alive, hq, hm⟩
      cases alive
      case none => cases hm
      case some =>
        obtain ⟨slot, hg, hm⟩ := Traced.mem_lift_bind.mp hm
        obtain ⟨satisfied, hs, hm⟩ := Traced.mem_lift_bind.mp hm
        cases satisfied
        case false => cases hm
        case true  =>
          obtain ⟨values, hv, hm⟩ := Traced.mem_lift_bind.mp hm
          obtain ⟨tid, hr, hm⟩ := Traced.mem_lift_bind.mp hm
          cases Traced.mem_perform.mp hm
          exact ⟨⟨rfl, hg, hs, hv, hr⟩, hq⟩
    case mpr =>
      rintro ⟨hi, hq⟩
      refine ⟨some alive, hq, ?_⟩
      simp only [Traced.mem_lift_bind]
      refine ⟨_, hi.tuple, _, hi.predicate, ?_⟩
      simp only [if_true, Traced.mem_lift_bind]
      exact ⟨_, hi.values, _, hi.tid, Traced.mem_perform.mpr (by rw [←hi.tSelf])⟩

theorem eq_of_buildRangeStep {b' : BuildState} (ht : rel.Holds t) (he : b.enterPage updater t = .ok s₁)
    (hp : s₁.OnPage updater t)
    (hs : (buildRangeStep rel indexInfo updater P timeQual b t).result = .ok b') : b' = s₁ := by
  rw [buildRangeStep_eq ht he hp, Traced.bind_result, Outcome.bind_eq_ok_iff] at hs
  obtain ⟨alive, -, hs⟩ := hs
  cases alive
  case none => exact (Except.ok.inj hs).symm
  case some =>
    simp only [Traced.bind_result, Outcome.bind_eq_ok_iff] at hs
    obtain ⟨slot, -, satisfied, -, hs⟩ := hs
    cases satisfied
    case false => exact (Except.ok.inj hs).symm
    case true  =>
      simp only [if_true, Traced.bind_result, Outcome.bind_eq_ok_iff] at hs
      obtain ⟨values, -, tid, -, hs⟩ := hs
      exact (Except.ok.inj hs).symm

theorem BuildState.Between.of_step (h : b.Between rel updater) (ht : rel.Holds t)
    (hs : (buildRangeStep rel indexInfo updater P timeQual b t).result = .ok s₁) :
    s₁.Between rel updater := by
  have he := h.enterPage ht
  cases hr : t.page.pgTdeGetRootTuples updater <;> rw [hr] at he
  case error =>
    simp only [buildRangeStep, he, Except.map, Traced.lift_error_bind, Traced.lift_result] at hs
    cases hs
  case ok r =>
    cases eq_of_buildRangeStep ht he ⟨rfl, hr⟩ hs
    exact .behind ht ⟨rfl, hr⟩

-- A whole index build, in any order of the tuples.
theorem indexed_of_mem_buildRangeScan {ts : List ScanTuple} (h : b.Between rel updater)
    (hts : ∀ t ∈ ts, rel.Holds t)
    (hm : (e, alive) ∈ (ts.foldlM (buildRangeStep rel indexInfo updater P timeQual) b).trace) :
    ∃ t ∈ ts, Indexed P rel indexInfo updater t e ∧ timeQual t = .ok (some alive) := by
  induction ts generalizing b
  case nil          => cases hm
  case cons t ts hi =>
    obtain ⟨ht, hts⟩ := List.forall_mem_cons.mp hts
    rw [List.foldlM_cons] at hm
    cases hs : (buildRangeStep rel indexInfo updater P timeQual b t).result
    case error =>
      rw [Traced.bind_of_error hs] at hm
      exact ⟨t, List.mem_cons_self, (mem_buildRangeStep_iff h ht).mp hm⟩
    case ok b' =>
      rw [Traced.bind_of_ok hs] at hm
      cases List.mem_append.mp hm
      case inl hm => exact ⟨t, List.mem_cons_self, (mem_buildRangeStep_iff h ht).mp hm⟩
      case inr hm =>
        obtain ⟨u, hu, hi⟩ := hi (h.of_step ht hs) hts hm
        exact ⟨u, List.mem_cons_of_mem _ hu, hi⟩
