import PgTde.Index.HotChains
import PgTde.Visibility.Theorems.Truthful

open XactStatus

-- What hints do to the links of HOT-chains.

namespace XactStatus.Hinted

variable {x : XactStatus} {tup tup' : List UInt8} {updater : Nat → Nat} {a width : Nat}

theorem unsignedAt_eq (h : x.Hinted tup tup') (hl : 20 ≤ tup.length) (ha : a + width ≤ 20) :
    unsignedAt width tup' a = unsignedAt width tup a := by
  obtain ⟨hints, -, rfl⟩ := h.stored
  exact unsignedAt_storeHints hl ha

-- What is behind the infomask is kept.
theorem drop_eq (h : x.Hinted tup tup') (hl : 20 ≤ tup.length) : tup'.drop 22 = tup.drop 22 := by
  obtain ⟨hints, -, rfl⟩ := h.stored
  refine List.drop_left' ?_
  rw [List.length_append, List.length_take, length_toLittleEndian]
  omega

theorem tInfomask2_eq (h : x.Hinted tup tup') (hl : 20 ≤ tup.length) : tInfomask2 tup' = tInfomask2 tup := by
  rw [tInfomask2, tInfomask2, h.unsignedAt_eq hl (by decide)]

theorem isHeapOnly_eq (h : x.Hinted tup tup') (hl : 20 ≤ tup.length) :
    heapTupleHeaderIsHeapOnly tup' = heapTupleHeaderIsHeapOnly tup := by
  rw [heapTupleHeaderIsHeapOnly, heapTupleHeaderIsHeapOnly, h.tInfomask2_eq hl]

theorem getXmin_eq (h : x.Hinted tup tup') (hl : 20 ≤ tup.length) :
    heapTupleHeaderGetXmin tup' = heapTupleHeaderGetXmin tup := by
  rw [heapTupleHeaderGetXmin, heapTupleHeaderGetXmin, h.frozen, h.unsignedAt_eq hl (by decide)]

theorem ctidOffsetNumber_eq (h : x.Hinted tup tup') (hl : 20 ≤ tup.length) :
    ctidOffsetNumber tup' = ctidOffsetNumber tup := by
  rw [ctidOffsetNumber, ctidOffsetNumber, h.unsignedAt_eq hl (by decide)]

-- Flags are set, and never cleared.
theorem has_mono {f : UInt16} (h : x.Hinted tup tup') (hl : 20 ≤ tup.length) (hf : heapTupleHas f tup) :
    heapTupleHas f tup' := by
  obtain ⟨hints, -, rfl⟩ := h.stored
  rw [heapTupleHas_storeHints hl, hf, Bool.true_or]

theorem xminInvalid_mono (h : x.Hinted tup tup') (hl : 20 ≤ tup.length) (hi : heapTupleHeaderXminInvalid tup) :
    heapTupleHeaderXminInvalid tup' := by
  have hf := h.frozen
  rw [heapTupleHeaderXminInvalid_eq, Bool.and_eq_true, Bool.not_eq_true'] at hi ⊢
  rw [heapTupleHeaderXminFrozen_eq, heapTupleHeaderXminFrozen_eq, hi.left, h.has_mono hl hi.right, Bool.and_true,
    Bool.false_and] at hf
  exact ⟨hf, h.has_mono hl hi.right⟩

-- The tuple has been updated already without the hints.
theorem isHotUpdated_of (h : x.Hinted tup tup') (hl : 20 ≤ tup.length) (hu : heapTupleHeaderIsHotUpdated tup') :
    heapTupleHeaderIsHotUpdated tup := by
  rw [heapTupleHeaderIsHotUpdated, decide_eq_true_iff] at hu ⊢
  obtain ⟨h₂, hi, hx⟩ := hu
  refine ⟨by rwa [h.tInfomask2_eq hl] at h₂, ?_, fun hx' => hx (h.xminInvalid_mono hl hx')⟩
  by_contra hi'
  exact heapTupleHas_eq_true.mp (h.has_mono hl (heapTupleHas_eq_true.mpr hi')) hi

theorem getUpdateXid_eq (h : x.Hinted tup tup') (hl : 20 ≤ tup.length) (hu : heapTupleHeaderIsHotUpdated tup') :
    heapTupleHeaderGetUpdateXid updater tup' = heapTupleHeaderGetUpdateXid updater tup := by
  have hu₀ := h.isHotUpdated_of hl hu
  obtain ⟨hints, hh, rfl⟩ := h.stored
  rw [heapTupleHeaderIsHotUpdated, decide_eq_true_iff] at hu hu₀
  have hm : tInfomask (storeHints hints tup) &&& heapXmaxIsMulti = tInfomask tup &&& heapXmaxIsMulti := by
    rw [tInfomask_storeHints hl, UInt16.keep_or (UInt16.and_eq_zero_of_subset hh (by decide))]
  have hlo : tInfomask (storeHints hints tup) &&& heapXmaxLockOnly = tInfomask tup &&& heapXmaxLockOnly := by
    rw [tInfomask_storeHints hl, UInt16.keep_or (UInt16.and_eq_zero_of_subset hh (by decide))]
  simp only [heapTupleHeaderGetUpdateXid, hm, hlo, hu.right.left, hu₀.right.left,
    @unsignedAt_storeHints tup hints 4 4 hl (by decide)]

end XactStatus.Hinted
