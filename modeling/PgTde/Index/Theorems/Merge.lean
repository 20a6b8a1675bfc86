import PgTde.Index.Scan

namespace ItemPointer

theorem lt_iff {p q : ItemPointer} :
    p < q ↔ p.blkno < q.blkno ∨ p.blkno = q.blkno ∧ p.offnum < q.offnum :=
  Prod.Lex.toLex_lt_toLex

theorem blkno_le_of_lt {p q : ItemPointer} (h : p < q) : p.blkno ≤ q.blkno := by
  rcases lt_iff.mp h with h | h
  · exact h.le
  · exact h.left.le

end ItemPointer

namespace MergeState

variable {tids passed : List ItemPointer} {b b' : Nat} {m : MergeState} {rootTuple cursor : ItemPointer}

-- The merge has passed over the TIDs `passed`, none of which is behind the page `b`. Those of the page
-- itself are remembered.
structure Passed (tids : List ItemPointer) (b : Nat) (m : MergeState) (passed : List ItemPointer) : Prop where
  split    : passed ++ m.indexcursor.toList ++ m.tuplesort = tids
  ended    : m.tuplesortEmpty → m.indexcursor = none ∧ m.tuplesort = []
  blkno_le : ∀ tid ∈ passed, tid.blkno ≤ b
  inIndex  : ∀ i, m.inIndex i ↔ ⟨b, i + 1⟩ ∈ passed

-- The merge is not before the root tuple.
def Reached (m : MergeState) (rootTuple : ItemPointer) : Prop :=
  m.tuplesortEmpty ∨ ∃ cursor ∈ m.indexcursor, rootTuple ≤ cursor

@[simp]
theorem remember_tuplesort : (m.remember b).tuplesort = m.tuplesort :=
  rfl

@[simp]
theorem remember_tuplesortEmpty : (m.remember b).tuplesortEmpty = m.tuplesortEmpty :=
  rfl

theorem remember_inIndex_of_none (h : m.indexcursor = none) : (m.remember b).inIndex = m.inIndex := by
  simp [remember, h]

theorem remember_inIndex (hc : m.indexcursor = some cursor) (ho : cursor.offnum ≠ invalidOffsetNumber)
    (i : Nat) :
    (m.remember b).inIndex i ↔ cursor = ⟨b, i + 1⟩ ∨ m.inIndex i := by
  have hi : cursor = ⟨b, i + 1⟩ ↔ cursor.blkno = b ∧ i = cursor.offnum - 1 := by
    cases cursor
    simp only [invalidOffsetNumber] at ho
    simp only [ItemPointer.mk.injEq]
    omega
  simp only [remember, hc, hi]
  by_cases hb : cursor.blkno = b
  case neg => simp [hb]
  case pos =>
    by_cases h : i = cursor.offnum - 1
    case pos => simp [hb, h]
    case neg => simp [hb, h]

namespace Passed

theorem init (tids : List ItemPointer) (b : Nat) : Passed tids b (MergeState.init tids) [] where
  split    := rfl
  ended h  := by cases h
  blkno_le := by simp
  inIndex  := by simp [MergeState.init]

-- Advancing onto a page behind.
theorem clear (h : Passed tids b m passed) (hb : b < b') : Passed tids b' m.clear passed where
  split      := h.split
  ended      := h.ended
  blkno_le   := fun tid ht => (h.blkno_le tid ht).trans hb.le
  inIndex i  := by
    simp only [MergeState.clear, Bool.false_eq_true, false_iff]
    intro hp
    exact absurd (h.blkno_le _ hp) (not_le.mpr hb)

-- The TID that the cursor is at is passed over, if there is one.
theorem remember (h : Passed tids b m passed) (ho : ∀ tid ∈ tids, tid.offnum ≠ invalidOffsetNumber)
    (hc : ∀ cursor ∈ m.indexcursor, cursor < rootTuple) (hb : rootTuple.blkno = b) :
    (∀ tid ∈ passed ++ m.indexcursor.toList, tid.blkno ≤ b) ∧
    ∀ i, (m.remember b).inIndex i ↔ ⟨b, i + 1⟩ ∈ passed ++ m.indexcursor.toList := by
  cases hm : m.indexcursor
  case none => simpa [remember_inIndex_of_none hm] using ⟨h.blkno_le, h.inIndex⟩
  case some cursor =>
    have hlt := ItemPointer.blkno_le_of_lt (hc cursor (hm ▸ rfl))
    have hmem : cursor ∈ tids := by simp [←h.split, hm]
    constructor
    case left =>
      simp only [Option.toList, List.mem_append, List.mem_singleton]
      rintro tid (ht | rfl)
      · exact h.blkno_le tid ht
      · exact hlt.trans hb.le
    case right =>
      intro i
      rw [remember_inIndex hm (ho _ hmem), h.inIndex, Option.toList, List.mem_append, List.mem_singleton,
        or_comm, eq_comm]

theorem merge (h : Passed tids b m passed) (ho : ∀ tid ∈ tids, tid.offnum ≠ invalidOffsetNumber)
    (hb : rootTuple.blkno = b) :
    ∃ passed', Passed tids b (m.merge b rootTuple m.tuplesort) passed' ∧
      (m.merge b rootTuple m.tuplesort).Reached rootTuple := by
  generalize ht : m.tuplesort = tuplesort
  induction tuplesort generalizing m passed
  all_goals
    rw [MergeState.merge]
    split
  case nil.isTrue hc =>
    obtain ⟨hle, hi⟩ := h.remember ho hc.right hb
    refine ⟨passed ++ m.indexcursor.toList, ⟨?_, fun _ => ⟨rfl, ht⟩, hle, hi⟩, .inl rfl⟩
    simp [←h.split, ht]
  case cons.isTrue tid tuplesort hi hc =>
    obtain ⟨hle, hx⟩ := h.remember ho hc.right hb
    refine @hi (passed ++ m.indexcursor.toList) _ ⟨?_, fun he => ?_, hle, hx⟩ rfl
    · simp [←h.split, ht]
    · simp only [remember_tuplesortEmpty] at he
      exact absurd he hc.left
  all_goals
    case _ hc =>
    refine ⟨passed, h, ?_⟩
    simpa [Reached, or_iff_not_imp_left] using hc

-- The merge finds out whether the root tuple is in the index.
theorem missing_iff (h : Passed tids b m passed) (hs : tids.Pairwise (· ≤ ·)) (hr : m.Reached rootTuple)
    (hb : rootTuple.blkno = b) (ho : rootTuple.offnum ≠ invalidOffsetNumber) :
    m.missing rootTuple ↔ rootTuple ∉ tids := by
  have hp : m.inIndex (rootTuple.offnum - 1) ↔ rootTuple ∈ passed := by
    rw [h.inIndex]
    cases rootTuple
    cases hb
    rw [Nat.sub_add_cancel (Nat.pos_of_ne_zero ho)]
  simp only [missing, decide_eq_true_eq, hp, Bool.decide_and, Bool.and_eq_true]
  rcases hr with he | ⟨cursor, hc, hle⟩
  case inl =>
    obtain ⟨hc, ht⟩ := h.ended he
    simp [←h.split, hc, ht, he]
  case inr =>
    have he : m.tuplesortEmpty = false := by
      rw [Bool.eq_false_iff]
      intro he
      rw [(h.ended he).left] at hc
      cases hc
    have hlt : rootTuple < cursor ↔ cursor ≠ rootTuple ∧ rootTuple ∉ m.tuplesort := by
      rw [←h.split, hc, List.append_assoc, List.pairwise_append] at hs
      have hs : ∀ tid ∈ m.tuplesort, cursor ≤ tid := fun _ => List.rel_of_pairwise_cons hs.right.left
      constructor
      case mp  => exact fun hlt => ⟨hlt.ne', fun hm => absurd (hs _ hm) (not_le.mpr hlt)⟩
      case mpr => exact fun hn => lt_of_le_of_ne hle hn.left.symm
    rw [Option.mem_def] at hc
    simp [←h.split, hc, he, hlt]
    tauto

end Passed

end MergeState
