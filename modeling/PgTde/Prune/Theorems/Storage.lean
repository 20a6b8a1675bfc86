import Mathlib.Algebra.Order.BigOperators.Group.List
import Mathlib.Algebra.Order.Ring.Nat
import PgTde.Prune.Accepted
import PgTde.Prune.Theorems.Loop

namespace ItemIdCompactData

-- The item of the line pointer with the index `i`.
def ofLp (i : Nat) (lp : ItemIdData) : ItemIdCompactData where
  offsetindex := i
  itemoff     := lp.lpOff
  len         := lp.lpLen
  alignedlen  := maxalign lp.lpLen

end ItemIdCompactData

theorem Page.storage_eq {page : Page} : page.storage =
    (page.linp.zipIdx.filter (·.1.hasStorage)).map fun p => .ofLp p.2 p.1 :=
  rfl

theorem Page.mem_storage {page : Page} {item : ItemIdCompactData} : item ∈ page.storage ↔
    ∃ lp i, page.linp[i]? = some lp ∧ lp.hasStorage ∧ item = .ofLp i lp := by
  simp only [storage_eq, List.mem_map, List.mem_filter, List.mem_zipIdx_iff_getElem?, Prod.exists]
  constructor
  case mp  => exact fun ⟨lp, i, ⟨h, hs⟩, he⟩ => ⟨lp, i, h, hs, he.symm⟩
  case mpr => exact fun ⟨lp, i, h, hs, he⟩ => ⟨lp, i, ⟨h, hs⟩, he.symm⟩

theorem Page.storage_length_le {page : Page} : page.storage.length ≤ page.linp.length := by
  rw [storage_eq, List.length_map]
  have hl := List.length_filter_le (·.1.hasStorage) page.linp.zipIdx
  rwa [List.length_zipIdx] at hl

-- The tuples' headers and line pointers alone bound the number of tuples on a page.
theorem Page.storage_length_le_max {page : Page}
    (hh : ∀ item ∈ page.storage, sizeofHeapTupleHeaderData ≤ item.alignedlen)
    (hs : (page.storage.map (·.alignedlen)).sum ≤ blcksz - page.pdLower) :
    page.storage.length ≤ maxHeapTuplesPerPage := by
  have hc : (page.storage.map (·.alignedlen)).length • sizeofHeapTupleHeaderData ≤
      (page.storage.map (·.alignedlen)).sum := by
    apply List.card_nsmul_le_sum
    rwa [List.forall_mem_map]
  have hl := page.storage_length_le
  rw [List.length_map, nsmul_eq_mul] at hc
  simp only [pdLower, sizeOfPageHeaderData, sizeofItemIdData, sizeofHeapTupleHeaderData, maxHeapTuplesPerPage,
    blcksz, Nat.cast_id] at *
  omega

namespace HeapPage

variable {page : HeapPage} {item : ItemIdCompactData}

theorem mem_storage : item ∈ page.storage ↔
    ∃ lp i, page.linp[i]? = some lp ∧ lp.hasStorage ∧ item = .ofLp i lp :=
  Page.mem_storage

theorem tuple_of_getElem? {i : Nat} {lp : ItemIdData} (h : page.linp[i]? = some lp)
    (hs : lp.hasStorage) : lp.Tuple page.toPage :=
  page.tuples lp (List.mem_of_getElem? h) hs

theorem storage_alignedlen (h : item ∈ page.storage) : item.alignedlen = maxalign item.len := by
  obtain ⟨lp, i, hi, hs, he⟩ := mem_storage.mp h
  subst he
  rfl

theorem storage_inside (h : item ∈ page.storage) :
    page.pdUpper ≤ item.itemoff ∧ item.itemoff + item.alignedlen ≤ page.pdSpecial := by
  obtain ⟨lp, i, hi, hs, he⟩ := mem_storage.mp h
  have ht := tuple_of_getElem? hi hs
  subst he
  exact ⟨ht.upper_le, maxalign_le ht.aligned page.special_aligned ht.le_special⟩

theorem storage_header (h : item ∈ page.storage) :
    sizeofHeapTupleHeaderData ≤ tHoff page.mem item.itemoff ∧
    tHoff page.mem item.itemoff ≤ item.len := by
  obtain ⟨lp, i, hi, hs, he⟩ := mem_storage.mp h
  have ht := tuple_of_getElem? hi hs
  subst he
  exact ⟨ht.header, ht.hoff_le⟩

theorem storage_valid (h : item ∈ page.storage) : item.Valid where
  header  := Nat.le_trans (storage_header h).1 (storage_header h).2
  aligned := storage_alignedlen h ▸ le_maxalign _
  fits    := Nat.le_trans (storage_inside h).2 page.special_le

theorem storage_disjoint : (page.storage.map (·.extent)).Pairwise Extent.Disjoint := by
  have hl : (page.linp.zipIdx.map (·.1)).Pairwise fun lp₁ lp₂ =>
      lp₁.hasStorage → lp₂.hasStorage → lp₁.extent.Disjoint lp₂.extent := by
    rw [List.zipIdx_map_fst]
    exact page.disjoint
  rw [Page.storage_eq, List.map_map, List.pairwise_map, List.pairwise_filter]
  refine (List.pairwise_map.mp hl).imp_of_mem ?_
  rintro ⟨lp₁, i⟩ ⟨lp₂, j⟩ h₁ h₂ hd hs₁ hs₂
  have ha₁ := (tuple_of_getElem? (List.mem_zipIdx_iff_getElem?.mp h₁) hs₁).aligned
  have ha₂ := (tuple_of_getElem? (List.mem_zipIdx_iff_getElem?.mp h₂) hs₂).aligned
  exact (hd hs₁ hs₂).imp (maxalign_le ha₁ ha₂) (maxalign_le ha₂ ha₁)

theorem storage_sum_le :
    (page.storage.map (·.alignedlen)).sum ≤ page.pdSpecial - page.pdUpper := by
  have h : ((page.storage.map (·.extent)).map Extent.len).sum ≤ page.pdSpecial - page.pdUpper := by
    apply Extent.sum_len_le page.storage_disjoint
    intro a ha
    obtain ⟨item, hi, he⟩ := List.mem_map.mp ha
    exact he ▸ storage_inside hi
  rwa [List.map_map] at h

theorem storage_offsetindex_nodup : (page.storage.map (·.offsetindex)).Nodup := by
  rw [Page.storage_eq, List.map_map]
  have hs : ((page.linp.zipIdx.filter (·.1.hasStorage)).map (·.2)).Sublist
      (page.linp.zipIdx.map (·.2)) :=
    List.filter_sublist.map _
  apply hs.nodup
  simp [List.zipIdx_map_snd, List.nodup_range']

theorem storage_length_le_max : page.storage.length ≤ maxHeapTuplesPerPage := by
  apply Page.storage_length_le_max
  case hh => exact fun _ hi => Nat.le_trans (storage_valid hi).header (storage_valid hi).aligned
  case hs =>
    have hs := page.storage_sum_le
    have hu := page.lower_le
    have hb := page.special_le
    omega

end HeapPage
