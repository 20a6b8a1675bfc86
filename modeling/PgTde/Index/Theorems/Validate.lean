import PgTde.Index.Theorems.Build

namespace ValidateIndex

variable {α : Type} {v : ValidateIndex α} {P : Platform} {t : ScanTuple} {root : ItemPointer}
variable {e : IndexEntry α} {alive : Bool}

theorem mem_built_iff (ht : v.rel.Holds t) :
    (e, alive) ∈ v.built P t ↔ Indexed P v.rel v.indexInfo v.updater t e ∧ alive = true := by
  rw [built, pgTdeamIndexBuildRangeScan, List.foldlM_cons]
  simp only [List.foldlM_nil, bind_pure]
  rw [mem_buildRangeStep_iff (.start _) ht, Except.ok.injEq, Option.some.injEq, eq_comm (b := alive)]

theorem Missing.passes {values : α} (h : v.Missing t root)
    (hv : v.indexInfo.formIndexDatum t.tData = .ok values) : v.Passes t :=
  ⟨root, h.left, fun _ => ⟨true, h.right.right, fun _ => ⟨values, hv⟩⟩⟩

theorem Reaches.mem (h : v.Reaches t) : t ∈ v.tuples := by
  obtain ⟨before, after, hts, -⟩ := h
  simp [hts]

-- The index datums of a missing tuple that the scan gets past.
theorem Reaches.exists_values (h : v.Reaches t) (hm : v.Missing t root) :
    ∃ values, v.indexInfo.formIndexDatum t.tData = .ok values := by
  obtain ⟨-, -, -, -, root', hr, hp⟩ := h
  obtain ⟨hr', hn, hs⟩ := hm
  cases Except.ok.inj (hr.symm.trans hr')
  obtain ⟨b, hb, hv⟩ := hp hn
  cases Except.ok.inj (hb.symm.trans hs)
  exact hv rfl

theorem insertMissing_returns_iff :
    (insertMissing v.indexInfo t root).Returns ↔
    ∃ b, v.indexInfo.iiPredicate t.tData = .ok b ∧
      (b → ∃ values, v.indexInfo.formIndexDatum t.tData = .ok values) := by
  simp only [insertMissing, Traced.Returns, Traced.bind_result, Traced.lift_result, Outcome.bind_eq_ok_iff]
  constructor
  case mp =>
    rintro ⟨_, b, hb, h⟩
    refine ⟨b, hb, fun ht => ?_⟩
    simp only [ht, if_true, Traced.bind_result, Traced.lift_result, Outcome.bind_eq_ok_iff] at h
    obtain ⟨values, hv, -⟩ := h
    exact ⟨values, hv⟩
  case mpr =>
    rintro ⟨b, hb, h⟩
    refine ⟨(), b, hb, ?_⟩
    cases b
    case false => rfl
    case true  =>
      obtain ⟨values, hv⟩ := h rfl
      simp [hv]

theorem mem_insertMissing_iff :
    e ∈ (insertMissing v.indexInfo t root).trace ↔
    v.indexInfo.iiPredicate t.tData = .ok true ∧
      ∃ values, v.indexInfo.formIndexDatum t.tData = .ok values ∧ e = ⟨t.tSelf, t.tData, root, values⟩ := by
  rw [insertMissing, Traced.mem_lift_bind]
  constructor
  case mp =>
    rintro ⟨b, hb, h⟩
    cases b
    case false => cases h
    case true  => exact ⟨hb, by simpa using h⟩
  case mpr =>
    rintro ⟨hb, h⟩
    exact ⟨true, hb, by simpa using h⟩

theorem validated_returns_iff :
    (validated v.rel v.indexInfo v.updater v.tids t).Returns ↔ v.Passes t := by
  rw [Passes, Traced.Returns]
  simp only [validated, Traced.bind_result, Traced.lift_result, Outcome.bind_eq_ok_iff]
  constructor
  case mp =>
    rintro ⟨u, root, hr, h⟩
    refine ⟨root, hr, fun hn => ?_⟩
    rw [if_pos hn] at h
    exact insertMissing_returns_iff.mp ⟨u, h⟩
  case mpr =>
    rintro ⟨root, hr, h⟩
    by_cases hn : root ∉ v.tids
    case neg => exact ⟨⟨⟩, root, hr, by rw [if_neg hn]; rfl⟩
    case pos =>
      obtain ⟨u, hu⟩ := insertMissing_returns_iff.mpr (h hn)
      exact ⟨u, root, hr, by rw [if_pos hn, hu]⟩

theorem mem_validated_iff :
    e ∈ (validated v.rel v.indexInfo v.updater v.tids t).trace ↔
    ∃ root values, v.Missing t root ∧ v.indexInfo.formIndexDatum t.tData = .ok values ∧
      e = ⟨t.tSelf, t.tData, root, values⟩ := by
  rw [validated, Traced.mem_lift_bind]
  constructor
  case mp =>
    rintro ⟨root, hr, h⟩
    split at h
    case isFalse   => cases h
    case isTrue hn =>
      obtain ⟨hp, values, hv, he⟩ := mem_insertMissing_iff.mp h
      exact ⟨root, values, ⟨hr, hn, hp⟩, hv, he⟩
  case mpr =>
    rintro ⟨root, values, ⟨hr, hn, hp⟩, hv, he⟩
    refine ⟨root, hr, ?_⟩
    rw [if_pos hn]
    exact mem_insertMissing_iff.mpr ⟨hp, values, hv, he⟩

-- The entries that the scan inserts are those of the missing tuples that it reaches.
theorem mem_inserted_iff :
    e ∈ v.inserted ↔ ∃ t root values, v.Reaches t ∧ v.Missing t root ∧
      v.indexInfo.formIndexDatum t.tData = .ok values ∧ e = ⟨t.tSelf, t.tData, root, values⟩ := by
  obtain ⟨s', hs⟩ := @validateScan_eq α v.rel _ v.tids v.indexInfo v.updater v.tuples (.start fun _ => 0)
    (fun _ => HeapTable.holds_of_mem) HeapTable.pairwise_blkno (by simp) v.sorted v.offnums
  rw [inserted, pgTdeamIndexValidateScan, hs, Traced.bind_pure_trace, Traced.mem_forM_trace]
  simp only [validated_returns_iff, mem_validated_iff]
  constructor
  case mp =>
    rintro ⟨before, t, after, hts, hb, root, values, hm, hv, he⟩
    exact ⟨t, root, values, ⟨before, after, hts, hb, hm.passes hv⟩, hm, hv, he⟩
  case mpr =>
    rintro ⟨t, root, values, ⟨before, after, hts, hb, -⟩, hm, hv, he⟩
    exact ⟨before, t, after, hts, hb, root, values, hm, hv, he⟩

theorem IndexesAlike.storedPlain (h : v.IndexesAlike P) (hr : v.Reaches t) (hm : v.Missing t root) :
    v.rel.StoredPlain P t := by
  obtain ⟨values, hv⟩ := hr.exists_values hm
  obtain ⟨u, hu, hb, hg⟩ := h _ (mem_inserted_iff.mpr ⟨t, root, values, hr, hm, hv, rfl⟩)
  have ht := HeapTable.holds_of_mem hr.mem
  have hu := HeapTable.holds_of_mem hu
  obtain ⟨hi, -⟩ := (mem_built_iff hu).mp hb
  cases ht.eq hu hi.tSelf
  exact ht.getnextslot_eq_tData_iff.mp hg

theorem indexesAlike_of_storedPlain (h : ∀ t root, v.Reaches t → v.Missing t root → v.rel.StoredPlain P t) :
    v.IndexesAlike P := by
  intro e he
  obtain ⟨t, root, values, hr, hm, hv, rfl⟩ := mem_inserted_iff.mp he
  have ht := HeapTable.holds_of_mem hr.mem
  have hg := ht.getnextslot_eq_tData_iff.mpr (h t root hr hm)
  exact ⟨t, hr.mem, (mem_built_iff ht).mpr ⟨⟨rfl, hg, hm.right.right, hv, hm.left⟩, rfl⟩, hg⟩

-- The scan indexes stored tuples, which are the plaintext only if the encryption leaves them as they are.
theorem indexesAlike_iff (v : ValidateIndex α) (P : Platform) :
    v.IndexesAlike P ↔ ∀ t root, v.Reaches t → v.Missing t root → v.rel.StoredPlain P t where
  mp h _ _ := h.storedPlain
  mpr      := indexesAlike_of_storedPlain

-- AES-128 of the counter block 510 under the all-zero key.
def indexPlatform : Platform := .x86 [
  (510, [0x7C, 0x20, 0x5B, 0x0B, 0x0D, 0xB2, 0xC4, 0x14, 0x39, 0x46, 0xE4, 0x09, 0x29, 0x74, 0xF2, 0xE5])]

-- A page with one tuple, which has one attribute of eight bytes.
def indexedPage : HeapPage where
  pdUpper         := 8160
  pdSpecial       := 8192
  pdHasFreeLines  := false
  linp            := [⟨8160, .normal, 32⟩]
  mem             := Memory.zero.write 8160 (List.replicate 18 0 ++ [1, 0, 0, 8, 24, 0] ++
    (indexPlatform.keystream fun _ => 0).xor 8160 [42, 0, 0, 0, 0, 0, 0, 0])
  lower_le        := by decide
  upper_le        := by decide
  special_le      := emptySpecial_le
  special_aligned := emptySpecial_aligned
  tuples          := by
    simp only [List.forall_mem_cons, List.not_mem_nil, false_imp_iff, implies_true, and_true]
    exact fun _ => by constructor <;> decide
  disjoint        := by decide

-- The index is on the attribute, and has no entries yet.
def concurrentIndex : ValidateIndex (List UInt8) where
  rel              := {
    relname   := "t"
    relkind   := .relation
    key       := fun _ => 0
    blocks    := [indexedPage]
    normal    := by
      simp [indexedPage, ItemIdData.hasStorage]
    length_le := by
      simp [indexedPage, maxHeapTuplesPerPage] }
  indexInfo        := ⟨fun _ => .ok true, fun tuple => .ok (tuple.drop (itemHoff tuple))⟩
  updater          := id
  satisfies _      := true
  tids             := []
  sorted           := .nil
  offnums          := by simp

-- The encrypted attribute is indexed.
theorem not_indexesAlike_concurrentIndex : ¬concurrentIndex.IndexesAlike indexPlatform := by
  intro h
  have hr : concurrentIndex.Reaches ⟨⟨0, 1⟩, indexedPage, ⟨8160, .normal, 32⟩⟩ := by
    refine ⟨[], [], by rfl, by simp, ⟨0, 1⟩, by rfl, fun _ => ⟨true, rfl, fun _ => ⟨_, rfl⟩⟩⟩
  have hm : concurrentIndex.Missing ⟨⟨0, 1⟩, indexedPage, ⟨8160, .normal, 32⟩⟩ ⟨0, 1⟩ := by
    exact ⟨by rfl, List.not_mem_nil, rfl⟩
  cases h.storedPlain hr hm
  case inl h => cases h
  case inr h => exact absurd (h 0 (by decide)) (by decide)

end ValidateIndex
