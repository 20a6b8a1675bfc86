import PgTde.Page.Intact

namespace HeapTuple

variable {tup : HeapTuple}

@[simp]
theorem length_tData : tup.tData.length = tup.header.bytes.length + tup.data.length := by
  simp [tData]

theorem itemHoff_tData : itemHoff tup.tData = tup.header.bytes.length := by
  have hs := tup.header.size
  simp only [sizeofHeapTupleHeaderData] at hs
  conv_rhs => rw [←tup.header.hoff]
  rw [itemHoff, itemHoff, tData, List.getElem?_append_left (by omega)]

theorem drop_tData : tup.tData.drop tup.header.bytes.length = tup.data :=
  List.drop_left

end HeapTuple

namespace Page

variable {page q : Page} {tup : HeapTuple} {off i j : Nat} {lp : ItemIdData}
variable {inserted : Nat → List UInt8}

theorem init_intact : init.Intact inserted where
  wellFormed := by
    refine ⟨by decide, ⟨init, by decide, by decide, by decide, by decide, ?_, ?_⟩, rfl⟩
    · simp [init]
    · simp [init]
  data       := by simp [init]

theorem Stored.placed (h : page.Stored tup.tData q off) : page.Placed tup q off where
  space   := h.space
  upper   := h.upper
  lower   := h.lower
  special := h.special
  line    := h.line
  lines   := h.lines
  hoff    := by
    have hs := tup.header.size
    simp only [sizeofHeapTupleHeaderData] at hs
    have hb := congrArg (·[22]?) h.bytes
    simp only [Memory.getElem?_read (show 22 < tup.tData.length by simp; omega)] at hb
    rw [tHoff, ←HeapTuple.itemHoff_tData, itemHoff, ←hb]
    rfl
  data    := by
    have hb := congrArg (·.drop tup.header.bytes.length) h.bytes
    simp only [HeapTuple.length_tData, Memory.read_add, HeapTuple.drop_tData] at hb
    simpa using hb
  above   := by
    intro a ha
    have hu := h.upper
    have hs := h.space
    have hm := le_maxalign tup.tData.length
    exact h.frame a (.inr (by omega))

-- The tuple's place on the page is stored in its header.
theorem Placed.ctid {ctid : List UInt8} (h : page.Placed tup q off) (hl : ctid.length = 6) :
    page.Placed tup { q with mem := q.mem.write (q.pdUpper + 12) ctid } off where
  space   := h.space
  upper   := h.upper
  lower   := h.lower
  special := h.special
  line    := h.line
  lines   := h.lines
  hoff    := by
    rw [←h.hoff, tHoff, tHoff]
    exact congrArg _ <| Memory.write_of_ge (by simp only; omega)
  data    := by
    have hs := tup.header.size
    simp only [sizeofHeapTupleHeaderData] at hs
    conv_rhs => rw [←h.data]
    exact Memory.read_write_disjoint (.inr (by simp only; omega))
  above   := by
    intro a ha
    have hs := tup.header.size
    have hu := h.upper
    have hsp := h.space
    have hm := le_maxalign tup.tData.length
    simp only [sizeofHeapTupleHeaderData, HeapTuple.length_tData] at *
    rw [←h.above a ha]
    exact Memory.write_of_ge (by omega)

theorem Placed.off_pos (h : page.Placed tup q off) : 0 < off := by
  have hl := h.line
  by_contra hz
  simp [getItemId, show off = 0 by omega] at hl

theorem Placed.line_cases (h : page.Placed tup q off) (hl : q.linp[i]? = some lp) :
    (i = off - 1 ∧ lp = ⟨q.pdUpper, .normal, tup.tData.length⟩) ∨
    (i ≠ off - 1 ∧ page.linp[i]? = some lp) := by
  have hp := h.off_pos
  by_cases hi : i = off - 1
  case pos =>
    have hn := h.line
    rw [getItemId, if_neg (by omega), ←hi, hl, Option.some.injEq] at hn
    exact .inl ⟨hi, hn⟩
  case neg =>
    have hn := h.lines (i + 1) (by omega)
    simp only [getItemId, Nat.add_one_ne_zero, if_false, Nat.add_sub_cancel] at hn
    exact .inr ⟨hi, hn ▸ hl⟩

-- The tuples that were there before are left alone.
theorem Placed.tHoff_eq (h : page.Placed tup q off) (ht : lp.Tuple page) :
    tHoff q.mem lp.lpOff = tHoff page.mem lp.lpOff := by
  have hu := ht.upper_le
  rw [tHoff, tHoff, h.above _ (by omega)]

theorem Placed.tupleData_eq (h : page.Placed tup q off) (ht : lp.Tuple page) :
    q.tupleData lp = page.tupleData lp := by
  have hu := ht.upper_le
  simp only [tupleData, h.tHoff_eq ht]
  exact Memory.read_congr fun _ _ => h.above _ (by omega)

theorem Placed.below (h : page.Placed tup q off) :
    q.pdUpper + tup.tData.length ≤ page.pdUpper := by
  have hu := h.upper
  have hs := h.space
  have hm := le_maxalign tup.tData.length
  omega

theorem Placed.upper_aligned (h : page.Placed tup q off) (ha : maxalign page.pdUpper = page.pdUpper) :
    maxalign q.pdUpper = q.pdUpper := by
  have hs := h.space
  rw [h.upper]
  simp only [maxalign] at *
  omega

-- A well-formed page stays so when a tuple is put on it.
def Placed.heapPage {page : HeapPage} (h : page.Placed tup q off)
    (ha : maxalign page.pdUpper = page.pdUpper) : HeapPage where
  toPage          := q
  lower_le        := h.lower
  upper_le        := by
    have hu := page.upper_le
    rw [h.special]
    exact Nat.le_trans (Nat.le_trans (Nat.le_add_right _ _) h.below) hu
  special_le      := h.special ▸ page.special_le
  special_aligned := h.special ▸ page.special_aligned
  tuples          := by
    intro lp hl hs
    obtain ⟨i, hi⟩ := List.mem_iff_getElem?.mp hl
    have hb := h.below
    have hu := page.upper_le
    cases h.line_cases hi
    case inl hc =>
      rw [hc.2]
      constructor
      case normal     => rfl
      case upper_le   => exact Nat.le_refl _
      case le_special => rw [h.special]; exact Nat.le_trans hb hu
      case aligned    => exact h.upper_aligned ha
      case header     => rw [h.hoff]; exact tup.header.size
      case hoff_le    => rw [h.hoff]; simp
    case inr hc =>
      have ht := page.tuples lp (List.mem_of_getElem? hc.2) hs
      have hle := ht.upper_le
      constructor
      case normal     => exact ht.normal
      case upper_le   => omega
      case le_special => rw [h.special]; exact ht.le_special
      case aligned    => exact ht.aligned
      case header     => rw [h.tHoff_eq ht]; exact ht.header
      case hoff_le    => rw [h.tHoff_eq ht]; exact ht.hoff_le
  disjoint        := by
    have hnew {i : Nat} {lp : ItemIdData} (hi : page.linp[i]? = some lp) (hs : lp.hasStorage) :
        (⟨q.pdUpper, tup.tData.length⟩ : Extent).Disjoint lp.extent :=
      .inl <| Nat.le_trans h.below (page.tuples lp (List.mem_of_getElem? hi) hs).upper_le
    rw [List.pairwise_iff_getElem]
    intro i j hi hj hij hs₁ hs₂
    cases h.line_cases (List.getElem?_eq_getElem hi) <;>
      cases h.line_cases (List.getElem?_eq_getElem hj)
    case inl.inl h₁ h₂ => omega
    case inl.inr h₁ h₂ => rw [h₁.2]; exact hnew h₂.2 hs₂
    case inr.inl h₁ h₂ => rw [h₂.2]; exact (hnew h₁.2 hs₁).symm
    case inr.inr h₁ h₂ =>
      obtain ⟨hi', he₁⟩ := List.getElem?_eq_some_iff.mp h₁.2
      obtain ⟨hj', he₂⟩ := List.getElem?_eq_some_iff.mp h₂.2
      have hd := List.pairwise_iff_getElem.mp page.disjoint i j hi' hj' hij
      rw [he₁, he₂] at hd
      exact hd hs₁ hs₂

theorem Intact.placed (hp : page.Intact inserted) (h : page.Placed tup q off) :
    q.Intact fun i => if i = off - 1 then tup.data else inserted i := by
  obtain ⟨ha, page, he⟩ := hp.wellFormed
  subst he
  constructor
  case wellFormed => exact ⟨h.upper_aligned ha, h.heapPage ha, rfl⟩
  case data       =>
    intro i lp hl hs
    cases h.line_cases hl
    case inl hc =>
      rw [if_pos hc.1, hc.2]
      simpa [tupleData, h.hoff] using h.data
    case inr hc =>
      rw [if_neg hc.1, h.tupleData_eq (page.tuples lp (List.mem_of_getElem? hc.2) hs)]
      exact hp.data i lp hc.2 hs

end Page
