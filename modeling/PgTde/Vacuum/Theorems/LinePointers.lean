import PgTde.Index.Theorems.HotChains
import PgTde.Index.Theorems.Merge
import PgTde.Vacuum.Run

namespace Page

variable {page page' : Page} {n m : Nat} {lp : ItemIdData}

theorem lineUse_some (hl : page.getItemId n = some lp) : page.lineUse n = page.itemUse lp := by
  rw [lineUse, hl, Option.elim_some]

theorem itemUse_eq_dead : page.itemUse lp = .dead ↔ lp.lpFlags = .dead := by
  rw [itemUse]
  cases lp.lpFlags
  case normal => simp only [reduceCtorEq, iff_false]; split <;> simp
  all_goals simp

theorem itemUse_unused (h : ¬lp.isUsed) : page.itemUse lp = .unused := by
  have hf : lp.lpFlags = .unused := by simpa [ItemIdData.isUsed] using h
  rw [itemUse, hf]

theorem lineUse_eq_dead : page.lineUse n = .dead ↔ ∃ lp, page.getItemId n = some lp ∧ lp.lpFlags = .dead := by
  cases hl : page.getItemId n
  case none    => simp [lineUse, hl]
  case some lp => simp [lineUse_some hl, itemUse_eq_dead]

theorem mem_deadOffsets : n ∈ page.deadOffsets ↔ page.lineUse n = .dead := by
  rw [deadOffsets, List.mem_filter, List.mem_range'_1, lineUse_eq_dead]
  constructor
  case mp  =>
    rintro ⟨-, h⟩
    obtain ⟨lp, hl, hf⟩ := (Option.any_eq_true _ _).mp h
    exact ⟨lp, hl, of_decide_eq_true hf⟩
  case mpr =>
    rintro ⟨lp, hl, hf⟩
    have hb := exists_getItemId.mp ⟨lp, hl⟩
    refine ⟨by omega, (Option.any_eq_true _ _).mpr ⟨lp, hl, decide_eq_true hf⟩⟩

theorem pairwise_deadOffsets : page.deadOffsets.Pairwise (· < ·) :=
  List.Pairwise.filter _ List.pairwise_lt_range'

theorem length_deadOffsets : page.deadOffsets.length ≤ page.getMaxOffsetNumber :=
  (List.length_filter_le _ _).trans_eq List.length_range'

theorem lineUse_of_not_used (h : ∀ lp ∈ page.linp, ¬lp.isUsed) : page.lineUse n = .unused := by
  cases hl : page.getItemId n
  case none    => rw [lineUse, hl, Option.elim_none]
  case some lp =>
    rw [lineUse_some hl]
    refine itemUse_unused (h lp ?_)
    rw [getItemId] at hl
    split at hl
    case isTrue  => cases hl
    case isFalse => exact List.mem_of_getElem? hl

-- An item is freed.
theorem lineUse_setUnused (h : page.updateItemId n (·.setUnused) = .ok page') :
    page'.lineUse m = if m = n then .unused else page.lineUse m := by
  rw [updateItemId] at h
  cases hl : page.getItemId n
  case none    => simp [hl] at h
  case some lp =>
    have hb := exists_getItemId.mp ⟨lp, hl⟩
    simp only [hl, Except.ok.injEq] at h
    subst h
    have hitem : (page.modifyItemId n (·.setUnused)).itemUse = page.itemUse := rfl
    by_cases hm : m = n
    case pos =>
      subst hm
      rw [getItemId, if_neg (by omega)] at hl
      rw [lineUse, getItemId, modifyItemId, if_neg (by omega), List.getElem?_modify, hl]
      simp [itemUse, ItemIdData.setUnused]
    case neg =>
      have hget : (page.modifyItemId n (·.setUnused)).getItemId m = page.getItemId m := by
        by_cases hz : m = 0
        case pos => simp [getItemId, hz]
        case neg =>
          have hne : n - 1 ≠ m - 1 := by omega
          simp [getItemId, modifyItemId, hz, hne]
      rw [if_neg hm, lineUse, lineUse, hget, hitem]

end Page

namespace VacuumEnv

variable {env : VacuumEnv} {page page' : Page} {n blkno : Nat} {items rest : List ItemPointer}

-- Unused line pointers at the end of the array are unused also if they are not there any more.
theorem lineUse_truncate : (env.truncateLinePointerArray page).lineUse n = page.lineUse n := by
  obtain ⟨hm, unused, hl, hu⟩ := env.truncates page
  have hitem : (env.truncateLinePointerArray page).itemUse = page.itemUse := by
    funext lp
    rw [Page.itemUse, Page.itemUse, Page.getItem, Page.getItem, hm]
  rw [Page.lineUse, Page.lineUse, hitem, Page.getItemId, Page.getItemId]
  by_cases hz : n = 0
  case pos => rw [if_pos hz, if_pos hz]
  case neg =>
    rw [if_neg hz, if_neg hz, hl]
    by_cases hn : n - 1 < (env.truncateLinePointerArray page).linp.length
    case pos => rw [List.getElem?_append_left hn]
    case neg =>
      rw [List.getElem?_append_right (by omega), List.getElem?_eq_none (by omega)]
      cases hu' : unused[n - 1 - (env.truncateLinePointerArray page).linp.length]?
      case none    => rfl
      case some lp => exact (Page.itemUse_unused (hu lp (List.mem_of_getElem? hu'))).symm

-- What has been freed of a page.
structure Freed (blkno : Nat) (items : List ItemPointer) (page page' : Page) (rest : List ItemPointer) : Prop where
  split  : ∃ freed, items = freed ++ rest ∧ (∀ tid ∈ freed, tid.blkno = blkno) ∧
    ∀ n, page'.lineUse n = if ⟨blkno, n⟩ ∈ freed then .unused else page.lineUse n
  others : ∀ tid ∈ rest.head?, tid.blkno ≠ blkno

theorem freeItems_freed (h : freeItems blkno items page = .ok (page', rest)) : Freed blkno items page page' rest := by
  induction items generalizing page
  case nil            =>
    cases h
    exact ⟨⟨[], rfl, List.forall_mem_nil _, fun n => by simp⟩, by simp⟩
  case cons tid items ih =>
    rw [freeItems] at h
    split at h
    case isTrue hb  =>
      cases h
      exact ⟨⟨[], rfl, List.forall_mem_nil _, fun n => by simp⟩, by simpa using hb⟩
    case isFalse hb =>
      rw [not_not] at hb
      obtain ⟨page₁, hu, hf⟩ := Outcome.bind_eq_ok_iff.mp h
      obtain ⟨⟨freed, hs, hfb, hl⟩, ho⟩ := ih hf
      refine ⟨⟨tid :: freed, by rw [hs]; rfl, List.forall_mem_cons.mpr ⟨hb, hfb⟩, fun n => ?_⟩, ho⟩
      rw [hl, Page.lineUse_setUnused hu]
      have htid : (⟨blkno, n⟩ : ItemPointer) = tid ↔ n = tid.offnum := by
        cases tid
        cases hb
        simp
      simp only [List.mem_cons, htid]
      split_ifs <;> tauto

theorem lazyVacuumPgTdePage_freed (h : env.lazyVacuumPgTdePage blkno items page = .ok (page', rest)) :
    Freed blkno items page page' rest := by
  obtain ⟨⟨page₁, rest₁⟩, hf, he⟩ := Outcome.bind_eq_ok_iff.mp h
  cases he
  obtain ⟨⟨freed, hs, hb, hl⟩, ho⟩ := freeItems_freed hf
  exact ⟨⟨freed, hs, hb, fun n => lineUse_truncate.trans (hl n)⟩, ho⟩

-- The items of the block are freed if the page has them.
theorem freeItems_ok (h : ∀ tid ∈ items, tid.blkno = blkno → ∃ lp, page.getItemId tid.offnum = some lp) :
    ∃ page' rest, freeItems blkno items page = .ok (page', rest) ∧
      page'.getMaxOffsetNumber = page.getMaxOffsetNumber := by
  induction items generalizing page
  case nil            => exact ⟨page, [], rfl, rfl⟩
  case cons tid items ih =>
    rw [freeItems]
    by_cases hb : tid.blkno = blkno
    case neg => exact ⟨page, tid :: items, if_pos hb, rfl⟩
    case pos =>
      obtain ⟨lp, hl⟩ := h tid List.mem_cons_self hb
      have hu : page.updateItemId tid.offnum (·.setUnused) = .ok (page.modifyItemId tid.offnum (·.setUnused)) := by
        rw [Page.updateItemId, hl]
      have hm : (page.modifyItemId tid.offnum (·.setUnused)).getMaxOffsetNumber = page.getMaxOffsetNumber :=
        List.length_modify ..
      rw [if_neg (not_not.mpr hb), hu, Outcome.ok_bind, ← hm]
      refine ih fun tid' ht hb' => Page.exists_getItemId.mpr ?_
      rw [hm]
      exact Page.exists_getItemId.mp (h tid' (List.mem_cons_of_mem _ ht) hb')

variable (env) in
theorem lazyVacuumPgTdePage_ok {page : TablePage}
    (h : ∀ tid ∈ items, tid.blkno = blkno → page.lineUse tid.offnum = .dead) :
    ∃ (page' : TablePage) (rest : List ItemPointer),
      env.lazyVacuumPgTdePage blkno items page.toPage = .ok (page'.toPage, rest) := by
  have hline : ∀ tid ∈ items, tid.blkno = blkno → ∃ lp, page.getItemId tid.offnum = some lp := by
    intro tid ht hb
    obtain ⟨lp, hl, -⟩ := Page.lineUse_eq_dead.mp (h tid ht hb)
    exact ⟨lp, hl⟩
  obtain ⟨page₁, rest, hf, hm⟩ := freeItems_ok hline
  obtain ⟨-, unused, hl, -⟩ := env.truncates page₁
  have hlen : (env.truncateLinePointerArray page₁).getMaxOffsetNumber ≤ page₁.getMaxOffsetNumber := by
    rw [Page.getMaxOffsetNumber, Page.getMaxOffsetNumber, hl, List.length_append]
    exact Nat.le_add_right _ _
  refine ⟨⟨env.truncateLinePointerArray page₁, (hlen.trans_eq hm).trans page.few⟩, rest, ?_⟩
  rw [lazyVacuumPgTdePage, hf]
  rfl

end VacuumEnv
