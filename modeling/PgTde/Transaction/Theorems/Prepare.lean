import PgTde.Transaction.Prepare
import PgTde.Transaction.Theorems.Run

namespace Backend

variable {s t : Backend} {isCommit commits survives atCommit : Bool} {nestLevel : Nat} {path : String}
variable {body : Body} {lost : Set String}

-- The files that entries are about.
def files (entries : List (PendingFileDelete Registration)) : Set String :=
  { path | ∃ e ∈ entries, e.path.path = path }

@[simp]
theorem files_append {l r : List (PendingFileDelete Registration)} : files (l ++ r) = files l ∪ files r := by
  ext path
  simp [files, or_and_right, exists_or]

-- The backend `t` is as `s`, except that it has also unlinked the files in `lost`.
structure Lags (lost : Set String) (s t : Backend) : Prop where
  pending    : t.pendingDeletes = s.pendingDeletes
  registered : t.registered = s.registered
  unlinked   : files t.unlinked = files s.unlinked ∪ lost

namespace Lags

theorem register (h : Lags lost s t) :
    Lags lost (s.register path atCommit nestLevel survives) (t.register path atCommit nestLevel survives) where
  pending    := by simp [Backend.register, Deletes.registerFileForDeletion, h.pending, h.registered]
  registered := by simp [Backend.register, h.registered]
  unlinked   := h.unlinked

theorem settle (h : Lags lost s t) : Lags lost (s.settle isCommit nestLevel) (t.settle isCommit nestLevel) where
  pending    := by simp [Backend.settle, Deletes.doPendingDeletes_eq, h.pending]
  registered := h.registered
  unlinked   := by
    simp only [Backend.settle, Deletes.doPendingDeletes_eq, files_append, h.pending, h.unlinked]
    exact Set.union_right_comm ..

theorem run (h : Lags lost s t) : Lags lost (run nestLevel survives body s) (run nestLevel survives body t) := by
  induction body generalizing s t nestLevel survives
  case done              => exact h
  case register hi       => exact hi h.register
  case sub commits _ hi hr =>
    apply hr
    simp only [endSub_eq]
    split
    · exact hi h
    · exact (hi h).settle

theorem xact (h : Lags lost s t) : Lags lost (s.xact body commits) (t.xact body commits) := by
  simp only [Backend.xact, endXact_eq]
  cases commits
  case false => exact h.run.settle
  case true  =>
    have hs : Lags lost ((Backend.run 1 true body s).settle true 1) ((Backend.run 1 true body t).settle true 1) :=
      h.run.settle
    exact ⟨rfl, hs.registered, hs.unlinked⟩

end Lags

theorem files_unlinked_settle : files s.unlinked ⊆ files (s.settle isCommit nestLevel).unlinked := by
  simp [settle, Deletes.doPendingDeletes_eq]

-- Files that are unlinked stay so, and a (sub)transaction only handles files that it registers.
theorem files_unlinked_run : files s.unlinked ⊆ files (run nestLevel survives body s).unlinked := by
  induction body generalizing s nestLevel survives
  case done                       => exact Set.Subset.rfl
  case register path atCommit _ hi => exact @hi (s.register path atCommit nestLevel survives) _ _
  case sub commits _ hi hr        =>
    have hs := @hi s (survives && commits) (nestLevel + 1)
    refine Set.Subset.trans ?_ hr
    rw [endSub_eq]
    split
    · exact hs
    · exact Set.Subset.trans hs files_unlinked_settle

theorem files_settle : files (s.settle isCommit nestLevel).pendingDeletes ∪
    files (s.settle isCommit nestLevel).unlinked ⊆ files s.pendingDeletes ∪ files s.unlinked := by
  rintro path (⟨e, he, hp⟩ | ⟨e, he, hp⟩)
  · exact .inl ⟨e, (mem_settle_pending.mp he).1, hp⟩
  · exact (mem_settle_unlinked.mp he).symm.imp (fun he => ⟨e, he.1, hp⟩) (fun he => ⟨e, he, hp⟩)

theorem files_run : files (run nestLevel survives body s).pendingDeletes ∪
    files (run nestLevel survives body s).unlinked ⊆
    files s.pendingDeletes ∪ files s.unlinked ∪ { path | path ∈ body.paths } := by
  induction body generalizing s nestLevel survives
  case done        => exact Set.subset_union_left
  case register hi =>
    apply Set.Subset.trans hi
    rintro _ ((⟨e, he, rfl⟩ | he) | he)
    · cases List.mem_cons.mp he
      case inl he => exact .inr (he ▸ List.mem_cons_self)
      case inr he => exact .inl (.inl ⟨e, he, rfl⟩)
    · exact .inl (.inr he)
    · exact .inr (List.mem_cons_of_mem _ he)
  case sub inner commits rest hi hr =>
    have hs : files (run (nestLevel + 1) (survives && commits) inner s).pendingDeletes ∪
        files (run (nestLevel + 1) (survives && commits) inner s).unlinked ⊆
        files s.pendingDeletes ∪ files s.unlinked ∪ { path | path ∈ (Body.sub inner commits rest).paths } :=
      Set.Subset.trans hi (Set.union_subset_union_right _ fun _ => List.mem_append_left _)
    apply Set.Subset.trans hr
    apply Set.union_subset
    · rw [endSub_eq]
      split
      · exact hs
      · exact Set.Subset.trans files_settle hs
    · exact fun _ he => .inr (List.mem_append_right _ he)

theorem xact_eq_settle (h : s.pendingDeletes = []) :
    s.xact body commits = (run 1 commits body s).settle commits 1 := by
  apply endXact_eq_settle
  intro e he
  exact ((mem_run_pending he).resolve_left (by simp [h])).1

theorem xact_pending (h : s.pendingDeletes = []) : (s.xact body commits).pendingDeletes = [] := by
  rw [xact_eq_settle h]
  apply settle_pending
  intro e he
  exact ((mem_run_pending he).resolve_left (by simp [h])).1

theorem files_unlinked_xact (h : s.pendingDeletes = []) :
    files s.unlinked ⊆ files (s.xact body commits).unlinked := by
  rw [xact_eq_settle h]
  exact Set.Subset.trans files_unlinked_run files_unlinked_settle

theorem files_xact (h : s.pendingDeletes = []) :
    files (s.xact body commits).unlinked ⊆ files s.unlinked ∪ { path | path ∈ body.paths } := by
  rw [xact_eq_settle h]
  apply Set.Subset.trans Set.subset_union_right
  apply Set.Subset.trans files_settle
  apply Set.Subset.trans files_run
  simp [h, files]

-- The files that are pending for the outcome `commits` at the end of a transaction.
def awaiting (s : Backend) (commits : Bool) : Set String :=
  { path | ∃ e ∈ s.pendingDeletes, e.atCommit = commits ∧ e.path.path = path }

theorem prepareXact_pending : (s.prepareXact body commits).pendingDeletes = [] :=
  rfl

-- Compared to a plain end of the transaction, PREPARE loses the files that are pending for it.
theorem prepareXact_lags (h : s.pendingDeletes = []) :
    Lags ((run 1 commits body s).awaiting commits) (s.prepareXact body commits) (s.xact body commits) where
  pending    := xact_pending h
  registered := by
    rw [xact_eq_settle h]
    rfl
  unlinked   := by
    rw [xact_eq_settle h]
    ext path
    simp only [files, awaiting, prepareXact, Set.mem_union, Set.mem_ofPred_eq, mem_settle_unlinked]
    constructor
    case mp =>
      rintro ⟨e, he | he, hp⟩
      · exact .inl ⟨e, he, hp⟩
      · exact .inr ⟨e, he.1, he.2.2, hp⟩
    case mpr =>
      rintro (⟨e, he, hp⟩ | ⟨e, he, hc, hp⟩)
      · exact ⟨e, .inl he, hp⟩
      · exact ⟨e, .inr ⟨he, ((mem_run_pending he).resolve_left (by simp [h])).1, hc⟩, hp⟩

end Backend

section

open Backend

variable {ι : Type} {s t : ι → Backend} {x : Xact ι} {b : ι} {lost : Set String}

theorem files_subset_unlinkedFiles : files (s b).unlinked ⊆ unlinkedFiles s :=
  fun _ he => ⟨b, he⟩

theorem unlinkedFiles_subset (h : ∀ b, files (s b).unlinked ⊆ lost) : unlinkedFiles s ⊆ lost := by
  rintro path ⟨b, he⟩
  exact h b he

-- All backends but `b` are the same.
structure LagsAt (b : ι) (lost : Set String) (s t : ι → Backend) : Prop where
  lags  : Lags lost (s b) (t b)
  other : ∀ b' ≠ b, t b' = s b'

namespace LagsAt

variable [DecidableEq ι]

theorem finish (h : LagsAt b lost s t) : LagsAt b lost (x.finish s) (x.finish t) := by
  by_cases hb : x.backend = b
  case pos =>
    subst hb
    constructor
    case lags  => simpa [Xact.finish] using h.lags.xact
    case other =>
      intro b' hb
      simp [Xact.finish, hb, h.other b' hb]
  case neg =>
    constructor
    case lags  => simpa [Xact.finish, Ne.symm hb] using h.lags
    case other =>
      intro b' hb'
      by_cases he : b' = x.backend
      case pos => simp [Xact.finish, he, h.other x.backend hb]
      case neg => simp [Xact.finish, he, h.other b' hb']

theorem foldl_finish {xs : List (Xact ι)} (h : LagsAt b lost s t) :
    LagsAt b lost (xs.foldl Xact.finish s) (xs.foldl Xact.finish t) := by
  induction xs generalizing s t
  case nil        => exact h
  case cons x _ hi => exact hi h.finish

theorem unlinkedFiles (h : LagsAt b lost s t) : unlinkedFiles t = unlinkedFiles s ∪ lost := by
  apply Set.Subset.antisymm
  · apply unlinkedFiles_subset
    intro b'
    by_cases hb : b' = b
    case pos =>
      rw [hb, h.lags.unlinked]
      exact Set.union_subset_union_left _ files_subset_unlinkedFiles
    case neg =>
      rw [h.other b' hb]
      exact Set.subset_union_of_subset_left files_subset_unlinkedFiles _
  · apply Set.union_subset
    · apply unlinkedFiles_subset
      intro b'
      by_cases hb : b' = b
      case pos =>
        apply Set.Subset.trans ?_ (@files_subset_unlinkedFiles _ t b)
        rw [h.lags.unlinked, hb]
        exact Set.subset_union_left
      case neg =>
        rw [←h.other b' hb]
        exact files_subset_unlinkedFiles
    · apply Set.Subset.trans ?_ (@files_subset_unlinkedFiles _ t b)
      rw [h.lags.unlinked]
      exact Set.subset_union_right

end LagsAt

-- No transaction is in progress.
def Idle (s : ι → Backend) : Prop :=
  ∀ b, (s b).pendingDeletes = []

section

variable [DecidableEq ι]

theorem Idle.finish (h : Idle s) : Idle (x.finish s) := by
  intro b
  by_cases hb : b = x.backend
  case pos => simpa [Xact.finish, hb] using xact_pending (h x.backend)
  case neg => simpa [Xact.finish, hb] using h b

theorem Idle.unlinkedFiles_mono (h : Idle s) : unlinkedFiles s ⊆ unlinkedFiles (x.finish s) := by
  apply unlinkedFiles_subset
  intro b
  apply Set.Subset.trans ?_ (@files_subset_unlinkedFiles _ (x.finish s) b)
  by_cases hb : b = x.backend
  case pos => simpa [Xact.finish, hb] using files_unlinked_xact (h x.backend)
  case neg => simp [Xact.finish, hb]

theorem Idle.unlinkedFiles_finish (h : Idle s) :
    unlinkedFiles (x.finish s) ⊆ unlinkedFiles s ∪ { path | path ∈ x.body.paths } := by
  apply unlinkedFiles_subset
  intro b
  by_cases hb : b = x.backend
  case pos =>
    simp only [Xact.finish, hb, Function.update_self]
    exact Set.Subset.trans (files_xact (h x.backend))
      (Set.union_subset_union_left _ files_subset_unlinkedFiles)
  case neg =>
    simp only [Xact.finish, Function.update_of_ne hb]
    exact Set.subset_union_of_subset_left files_subset_unlinkedFiles _

-- What transactions do to the files that have been unlinked.
theorem Idle.foldl_finish {xs : List (Xact ι)} (h : Idle s) :
    Idle (xs.foldl Xact.finish s) ∧ unlinkedFiles s ⊆ unlinkedFiles (xs.foldl Xact.finish s) ∧
    unlinkedFiles (xs.foldl Xact.finish s) ⊆
      unlinkedFiles s ∪ { path | ∃ x ∈ xs, path ∈ x.body.paths } := by
  induction xs generalizing s
  case nil         => exact ⟨h, Set.Subset.rfl, Set.subset_union_left⟩
  case cons x _ hi =>
    obtain ⟨hf, hs, hu⟩ := hi (@Idle.finish _ s x _ h)
    refine ⟨hf, Set.Subset.trans h.unlinkedFiles_mono hs, Set.Subset.trans hu ?_⟩
    rintro path (he | ⟨y, hy, he⟩)
    · exact (h.unlinkedFiles_finish he).imp id fun he => ⟨x, List.mem_cons_self, he⟩
    · exact .inr ⟨y, List.mem_cons_of_mem _ hy, he⟩

end

end

namespace PreparedXact

variable {ι : Type} [DecidableEq ι] {s : Backend} {path : String} (x : PreparedXact ι)

theorem followUp_unlinked (h : s.pendingDeletes = []) :
    Backend.files s.unlinked ⊆ unlinkedFiles (x.followUp s) ∧
    unlinkedFiles (x.followUp s) ⊆
      Backend.files s.unlinked ∪ { path | ∃ y ∈ x.between, path ∈ y.body.paths } := by
  have hi : Idle (Function.update (fun _ => .init) x.backend s) := by
    intro b
    by_cases hb : b = x.backend
    case pos => simpa [hb] using h
    case neg => simp [hb, Backend.init]
  have hs : Backend.files s.unlinked = unlinkedFiles (Function.update (fun _ => .init) x.backend s) := by
    apply Set.Subset.antisymm
    · simpa using @files_subset_unlinkedFiles _ (Function.update (fun _ => .init) x.backend s) x.backend
    · apply unlinkedFiles_subset
      intro b
      by_cases hb : b = x.backend
      case pos => simp [hb]
      case neg => simp [hb, Backend.init, Backend.files]
  obtain ⟨hf, hm, hu⟩ := @Idle.foldl_finish _ _ _ x.between hi
  rw [hs]
  refine ⟨Set.Subset.trans hm hf.unlinkedFiles_mono, Set.Subset.trans hf.unlinkedFiles_finish ?_⟩
  apply Set.union_subset hu
  rintro path ⟨⟩

theorem plain_eq_union : unlinkedFiles x.plain =
    unlinkedFiles x.prepared ∪ (Backend.run 1 x.commits x.body .init).awaiting x.commits := by
  apply LagsAt.unlinkedFiles (b := x.backend)
  apply LagsAt.finish
  apply LagsAt.foldl_finish
  constructor
  case lags  => simpa using Backend.prepareXact_lags rfl
  case other =>
    intro b hb
    simp [hb]

-- PREPARE keeps the pending deletes iff each file that is pending for the outcome of the transaction has
-- been unlinked already, by a subtransaction that has aborted.
theorem keepsDeletes_iff : x.KeepsDeletes ↔
    ∀ e ∈ (Backend.run 1 x.commits x.body .init).pendingDeletes, e.atCommit = x.commits →
      ∃ e' ∈ (Backend.run 1 x.commits x.body .init).unlinked, e'.path.path = e.path.path := by
  obtain ⟨hm, hu⟩ := x.followUp_unlinked (@Backend.prepareXact_pending .init x.commits x.body)
  rw [KeepsDeletes, plain_eq_union, eq_comm, Set.union_eq_left]
  constructor
  case mp =>
    intro h e he hc
    cases hu (h ⟨e, he, hc, rfl⟩)
    case inl hu => exact hu
    case inr hu =>
      obtain ⟨y, hy, hp⟩ := hu
      have hb : e.path.path ∈ x.body.paths := by
        simpa [Backend.files, Backend.init] using Backend.files_run (.inl ⟨e, he, rfl⟩)
      exact absurd hb (x.locked y hy _ hp)
  case mpr =>
    rintro h path ⟨e, he, hc, rfl⟩
    exact hm (h e he hc)

end PreparedXact

-- A transaction that creates a key file is prepared and rolled back by another backend.
def createdAndPrepared : PreparedXact Bool where
  backend  := false
  body     := .register "base/5/16384.tde" false .done
  commits  := false
  between  := []
  resolver := true
  locked   := by simp

-- The key file is left behind.
theorem not_keepsDeletes_createdAndPrepared : ¬createdAndPrepared.KeepsDeletes := by
  intro h
  have hf : "base/5/16384.tde" ∈ unlinkedFiles createdAndPrepared.plain :=
    ⟨false, ⟨⟨"base/5/16384.tde", 0, false⟩, false, 1⟩, by decide, rfl⟩
  obtain ⟨b, e, he, -⟩ := h ▸ hf
  revert b e
  decide
