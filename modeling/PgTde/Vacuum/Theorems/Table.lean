import PgTde.Prune.Theorems.Execute
import PgTde.Vacuum.Theorems.LinePointers

namespace TableState

variable {t t' : TableState} {tid : ItemPointer} {blkno : Nat} {page page' : TablePage} {e : IndexTuple}
variable {i : Nat} {items : List ItemPointer}

-- The entries refer to what they have been made for, also those that are still to be inserted.
structure Consistent (t : TableState) : Prop where
  entries : ∀ es ∈ t.indexes, ∀ e ∈ es, t.Points e
  pending : ∀ p ∈ t.pending, t.use p.2.tid = .root ∧ t.rowOf p.2.tid = p.2.row

-- What remains so for a VACUUM while other backends go on.
structure Evolves (t t' : TableState) : Prop where
  pages   : t.pages.length ≤ t'.pages.length
  indexes : t'.indexes.length = t.indexes.length
  dead    : ∀ tid, t.use tid = .dead → t'.use tid = .dead
  entries : ∀ i items, (∀ tid ∈ items, t.use tid = .dead) → t.Unreferenced i items → t'.Unreferenced i items

-- Line pointers that are in use stay in use for the same row.
structure Retains (t t' : TableState) : Prop where
  root : ∀ tid, t.use tid = .root → t'.use tid = .root ∨ t'.use tid = .dead
  dead : ∀ tid, t.use tid = .dead → t'.use tid = .dead
  row  : ∀ tid, t.use tid ≠ .unused → t'.rowOf tid = t.rowOf tid

theorem Points.in_use (h : t.Points e) : t.use e.tid ≠ .unused := by
  rintro hu
  obtain hr | hd := h.use
  · cases hu.symm.trans hr
  · cases hu.symm.trans hd

theorem Points.retained (h : t.Points e) (hr : t.Retains t') : t'.Points e where
  use := h.use.elim (hr.root e.tid) fun hd => .inr (hr.dead e.tid hd)
  row := (hr.row e.tid h.in_use).trans h.row

theorem use_setPage (h : t.pages[blkno]? = some page) : (t.setPage blkno page').use tid =
    if tid.blkno = blkno then page'.lineUse tid.offnum else t.use tid := by
  have hb := (List.getElem?_eq_some_iff.mp h).choose
  rw [use, use, setPage]
  by_cases ht : tid.blkno = blkno
  case pos => simp [ht, hb]
  case neg => simp [ht, Ne.symm ht]

theorem use_mk {n : Nat} (h : t.pages[blkno]? = some page) : t.use ⟨blkno, n⟩ = page.lineUse n := by
  rw [use, h]

theorem use_page (h : t.pages[tid.blkno]? = some page) : t.use tid = page.lineUse tid.offnum := by
  rw [use, h]

theorem page_of_use {use : LineUse} (hu : t.use tid = use) (hne : use ≠ .unused) :
    ∃ page, t.pages[tid.blkno]? = some page := by
  cases hp : t.pages[tid.blkno]?
  case none      =>
    rw [TableState.use, hp] at hu
    exact absurd hu.symm hne
  case some page => exact ⟨page, rfl⟩

-- A page is replaced by one whose line pointers stay in use.
theorem retains_setPage (h : t.pages[blkno]? = some page)
    (hr : ∀ n, page.lineUse n = .root → page'.lineUse n = .root ∨ page'.lineUse n = .dead)
    (hd : ∀ n, page.lineUse n = .dead → page'.lineUse n = .dead) : t.Retains (t.setPage blkno page') := by
  constructor
  case root =>
    intro tid hu
    rw [use_setPage h]
    split
    case isTrue hb  => exact hr tid.offnum ((use_page (hb ▸ h)).symm.trans hu)
    case isFalse hb => exact .inl hu
  case dead =>
    intro tid hu
    rw [use_setPage h]
    split
    case isTrue hb  => exact hd tid.offnum ((use_page (hb ▸ h)).symm.trans hu)
    case isFalse hb => exact hu
  case row  => exact fun _ _ => rfl

theorem Consistent.retained (h : t.Consistent) (hr : t.Retains t') (hi : t'.indexes = t.indexes)
    (hp : ∀ p ∈ t'.pending, t'.use p.2.tid = .root ∧ t'.rowOf p.2.tid = p.2.row) : t'.Consistent where
  entries := hi ▸ fun es hes e he => (h.entries es hes e he).retained hr
  pending := hp

theorem Retains.evolves (hr : t.Retains t') (hp : t.pages.length ≤ t'.pages.length) (hi : t'.indexes = t.indexes) :
    t.Evolves t' where
  pages               := hp
  indexes             := congrArg List.length hi
  dead                := hr.dead
  entries i items _ h := by
    rw [Unreferenced, hi]
    exact h

theorem length_setPage : (t.setPage blkno page').pages.length = t.pages.length :=
  List.length_set

section TakesLine

variable (hpage : t.pages[tid.blkno]? = some page) {lineUse : LineUse}
  (ht : page.TakesLine page'.toPage tid.offnum lineUse)

include hpage ht

theorem use_unused : t.use tid = .unused :=
  (use_page hpage).trans ht.free

theorem use_taken : (t.setPage tid.blkno page').use tid = lineUse := by
  rw [use_setPage hpage, if_pos rfl, ht.taken]

theorem retains_taken : t.Retains (t.setPage tid.blkno page') := by
  have hsame {n : Nat} {use : LineUse} (hu : page.lineUse n = use) (hne : use ≠ .unused) : page'.lineUse n = use := by
    rw [ht.others n, hu]
    rintro rfl
    exact hne (hu.symm.trans ht.free)
  exact retains_setPage hpage (fun n hu => .inl (hsame hu (by decide))) fun n hu => hsame hu (by decide)

theorem use_taken_of_ne {tid' : ItemPointer} (hu : t.use tid' ≠ .unused) :
    (t.setPage tid.blkno page').use tid' = t.use tid' := by
  rw [use_setPage hpage]
  split
  case isFalse    => rfl
  case isTrue hb  =>
    have hp : t.pages[tid'.blkno]? = some page := hb ▸ hpage
    rw [use_page hp] at hu ⊢
    refine ht.others _ fun hn => hu (hn ▸ ht.free)

end TakesLine

theorem use_change (h : t.pages[blkno]? = some page) (hu : ∀ n, page'.lineUse n = page.lineUse n) :
    (t.setPage blkno page').use tid = t.use tid := by
  rw [use_setPage h]
  split
  case isTrue hb  => rw [hu, use_page (hb ▸ h)]
  case isFalse hb => rfl

theorem use_extend (hu : ∀ n, page.lineUse n = .unused) : { t with pages := t.pages ++ [page] }.use tid = t.use tid := by
  rw [use, use]
  obtain hlt | heq | hgt := Nat.lt_trichotomy tid.blkno t.pages.length
  · rw [List.getElem?_append_left hlt]
  · rw [heq, List.getElem?_concat_length, List.getElem?_eq_none (Nat.le_refl _)]
    exact hu tid.offnum
  · rw [List.getElem?_eq_none (by rw [List.length_append, List.length_singleton]; omega),
      List.getElem?_eq_none (by omega)]

theorem retains_of_use (hu : ∀ tid, t'.use tid = t.use tid) (hr : t'.rowOf = t.rowOf) : t.Retains t' where
  root tid h := .inl ((hu tid).trans h)
  dead tid h := (hu tid).trans h
  row tid _  := by rw [hr]

-- Other backends keep the entries of the indexes true.
theorem Step.consistent (h : t.Consistent) (hs : Step t t') : t'.Consistent := by
  have hused {p : Nat × IndexTuple} (hp : p ∈ t.pending) : t.use p.2.tid ≠ .unused := by
    rw [(h.pending p hp).left]
    decide
  cases hs
  case insert page page' tid is hpage ht _       =>
    have hne {tid' : ItemPointer} (hu : t.use tid' ≠ .unused) : tid' ≠ tid := by
      rintro rfl
      exact hu (use_unused hpage ht)
    have hrow {tid' : ItemPointer} (hu : t.use tid' ≠ .unused) :
        Function.update t.rowOf tid t.rows tid' = t.rowOf tid' := Function.update_of_ne (hne hu) _ _
    have hr := retains_taken hpage ht
    refine h.retained ⟨hr.root, hr.dead, fun tid' hu => hrow hu⟩ rfl fun p hp => ?_
    obtain hp | hp := List.mem_append.mp hp
    · exact ⟨(use_taken_of_ne hpage ht (hused hp)).trans (h.pending p hp).left,
        (hrow (hused hp)).trans (h.pending p hp).right⟩
    · obtain ⟨i, -, rfl⟩ := List.mem_map.mp hp
      exact ⟨use_taken hpage ht, Function.update_self _ _ _⟩
  case updateHot page page' tid hpage ht         =>
    refine h.retained (retains_taken hpage ht) rfl fun p hp => ?_
    exact ⟨(use_taken_of_ne hpage ht (hused hp)).trans (h.pending p hp).left, (h.pending p hp).right⟩
  case change page page' blkno hpage hu          =>
    refine h.retained (retains_of_use (fun _ => use_change hpage hu) rfl) rfl fun p hp => ?_
    exact ⟨(use_change hpage hu).trans (h.pending p hp).left, (h.pending p hp).right⟩
  case prune page page' blkno hp                 =>
    refine h.retained (retains_setPage hp.found hp.pruned.root hp.pruned.dead) rfl fun p hmem => ?_
    refine ⟨?_, (h.pending p hmem).right⟩
    rw [use_setPage hp.found]
    split
    case isTrue hb  => exact hp.keeps p hmem hb
    case isFalse hb => exact (h.pending p hmem).left
  case extend page hu                            =>
    refine h.retained (retains_of_use (fun _ => use_extend hu) rfl) rfl fun p hp => ?_
    exact ⟨(use_extend hu).trans (h.pending p hp).left, (h.pending p hp).right⟩
  case insertEntry before behind i e hp          =>
    have hpending {p : Nat × IndexTuple} (hm : p ∈ before ++ behind) : p ∈ t.pending := by
      rw [hp, List.mem_append, List.mem_cons]
      exact (List.mem_append.mp hm).imp_right .inr
    have he := h.pending (i, e) (hp ▸ List.mem_append_right _ List.mem_cons_self)
    refine ⟨fun es hes e' he' => ?_, fun p hm => h.pending p (hpending hm)⟩
    obtain hes | ⟨es₀, hes₀, rfl⟩ := List.mem_modify hes
    · exact ⟨(h.entries es hes e' he').use, (h.entries es hes e' he').row⟩
    · obtain rfl | he' := List.mem_cons.mp he'
      · exact ⟨.inl he.left, he.right⟩
      · exact ⟨(h.entries es₀ hes₀ e' he').use, (h.entries es₀ hes₀ e' he').row⟩
  case abandon pending hp                        =>
    exact ⟨fun es hes e he => ⟨(h.entries es hes e he).use, (h.entries es hes e he).row⟩,
      fun p hm => h.pending p (hp hm)⟩
  case killEntries i es es' hes hsub             =>
    refine ⟨fun es₁ hes₁ e he => ?_, h.pending⟩
    obtain hes₁ | rfl := List.mem_or_eq_of_mem_set hes₁
    · exact ⟨(h.entries es₁ hes₁ e he).use, (h.entries es₁ hes₁ e he).row⟩
    · have hp := h.entries es (List.mem_of_getElem? hes) e (hsub he)
      exact ⟨hp.use, hp.row⟩

-- A VACUUM can rely on line pointers that are dead: they stay so, and no further entry comes to refer to them.
theorem Step.evolves (h : t.Consistent) (hs : Step t t') : t.Evolves t' := by
  cases hs
  case insert page page' tid is hpage ht _       =>
    have hr := retains_taken hpage ht
    exact ⟨length_setPage.ge, rfl, hr.dead, fun _ _ _ hu => hu⟩
  case updateHot page page' tid hpage ht         => exact (retains_taken hpage ht).evolves length_setPage.ge rfl
  case change page page' blkno hpage hu          =>
    exact (retains_of_use (fun _ => use_change hpage hu) rfl).evolves length_setPage.ge rfl
  case prune page page' blkno hp                 =>
    exact (retains_setPage hp.found hp.pruned.root hp.pruned.dead).evolves length_setPage.ge rfl
  case extend page hu                            =>
    refine (retains_of_use (fun _ => use_extend hu) rfl).evolves ?_ rfl
    simp
  case insertEntry before behind i e hp          =>
    refine ⟨Nat.le_refl _, List.length_modify .., fun _ hd => hd, fun j items hd hu es hes e' he' hmem => ?_⟩
    obtain ⟨es₀, hes₀, rfl⟩ := Option.map_eq_some_iff.mp ((List.getElem?_modify ..).symm.trans hes)
    split at he'
    case isFalse => exact hu es₀ hes₀ e' he' hmem
    case isTrue  =>
      obtain rfl | he' := List.mem_cons.mp he'
      · have hroot := (h.pending (i, e') (hp ▸ List.mem_append_right _ List.mem_cons_self)).left
        cases hroot.symm.trans (hd _ hmem)
      · exact hu es₀ hes₀ e' he' hmem
  case abandon pending hp                        => exact ⟨Nat.le_refl _, rfl, fun _ hd => hd, fun _ _ _ hu => hu⟩
  case killEntries i es es' hes hsub             =>
    refine ⟨Nat.le_refl _, List.length_set, fun _ hd => hd, fun j items hd hu es₁ hes₁ e he hmem => ?_⟩
    by_cases hj : i = j
    case pos =>
      subst hj
      rw [List.getElem?_set_self (List.getElem?_eq_some_iff.mp hes).choose] at hes₁
      obtain rfl := Option.some.inj hes₁
      exact hu es hes e (hsub he) hmem
    case neg =>
      rw [List.getElem?_set_ne hj] at hes₁
      exact hu es₁ hes₁ e he hmem

end TableState
