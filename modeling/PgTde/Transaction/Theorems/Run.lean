import PgTde.Transaction.Run

namespace Deletes

variable {α : Type _} {s : Deletes α} {isCommit : Bool} {nestLevel : Nat}

-- Every entry of the level `nestLevel` or of an inner level is removed, and done if it is called for.
theorem doPendingDeletes_eq : s.doPendingDeletes isCommit nestLevel = {
    pendingDeletes := s.pendingDeletes.filter (·.nestLevel < nestLevel)
    unlinked       := s.unlinked ++ s.pendingDeletes.filter
      fun e => ¬e.nestLevel < nestLevel ∧ e.atCommit = isCommit } := by
  have h (ps : List (PendingFileDelete α)) (s : Deletes α) :
      ps.foldl (doPendingDelete isCommit nestLevel) s = {
        pendingDeletes := s.pendingDeletes ++ ps.filter (·.nestLevel < nestLevel)
        unlinked       := s.unlinked ++ ps.filter
          fun e => ¬e.nestLevel < nestLevel ∧ e.atCommit = isCommit } := by
    induction ps generalizing s
    case nil          => simp
    case cons p ps hi =>
      rw [List.foldl_cons, hi, doPendingDelete]
      by_cases hl : p.nestLevel < nestLevel
      case pos => simp [hl, Nat.not_le.mpr hl]
      case neg => by_cases hc : p.atCommit = isCommit <;> simp [List.filter_cons, hl, hc]
  simp [doPendingDeletes, h]

end Deletes

namespace Backend

variable {s : Backend} {isCommit commits survives atCommit : Bool} {nestLevel : Nat} {path : String}
variable {body : Body} {e : PendingFileDelete Registration}

-- The backend after its pending deletes have been taken care of.
def settle (s : Backend) (isCommit : Bool) (nestLevel : Nat) : Backend :=
  { s with toDeletes := s.doPendingDeletes isCommit nestLevel }

theorem mem_settle_pending :
    e ∈ (s.settle isCommit nestLevel).pendingDeletes ↔
    e ∈ s.pendingDeletes ∧ e.nestLevel < nestLevel := by
  simp [settle, Deletes.doPendingDeletes_eq]

theorem mem_settle_unlinked :
    e ∈ (s.settle isCommit nestLevel).unlinked ↔
    e ∈ s.unlinked ∨ e ∈ s.pendingDeletes ∧ nestLevel ≤ e.nestLevel ∧ e.atCommit = isCommit := by
  simp [settle, Deletes.doPendingDeletes_eq]

theorem endSub_eq : s.endSub commits nestLevel = if commits then s else s.settle false nestLevel := by
  cases commits <;> rfl

theorem endXact_eq : s.endXact commits =
    if commits
    then { s.settle true 1 with toDeletes := (s.settle true 1).pendingDeleteCleanup }
    else s.settle false 1 := by
  cases commits <;> rfl

-- Serial numbers count up, and every registration is in at most one place.
structure WellFormed (s : Backend) : Prop where
  serial : ∀ e ∈ s.registered, e.path.serial < s.registered.length
  nodup  : (s.pendingDeletes ++ s.unlinked).Nodup
  own    : ∀ e ∈ s.pendingDeletes ++ s.unlinked, e ∈ s.registered

theorem init_wellFormed : init.WellFormed := by
  constructor <;> simp [init]

theorem WellFormed.register (h : s.WellFormed) :
    (s.register path atCommit nestLevel survives).WellFormed where
  serial := by
    simp only [Backend.register, List.mem_append, List.mem_singleton, List.length_append,
      List.length_singleton]
    rintro e (he | rfl)
    · exact Nat.lt_succ_of_lt (h.serial e he)
    · exact Nat.lt_succ_self _
  nodup  := by
    simp only [Backend.register, Deletes.registerFileForDeletion, List.cons_append, List.nodup_cons]
    refine ⟨fun he => ?_, h.nodup⟩
    exact Nat.lt_irrefl _ (h.serial _ (h.own _ he))
  own    := by
    simp only [Backend.register, Deletes.registerFileForDeletion, List.cons_append, List.mem_cons]
    rintro e (rfl | he)
    · simp
    · simp [h.own e he]

theorem WellFormed.settle (h : s.WellFormed) : (s.settle isCommit nestLevel).WellFormed where
  serial := h.serial
  nodup  := by
    obtain ⟨hp, hu, hd⟩ := List.nodup_append.mp h.nodup
    rw [List.nodup_append]
    refine ⟨?_, ?_, ?_⟩
    · simp only [Backend.settle, Deletes.doPendingDeletes_eq]
      exact hp.filter _
    · simp only [Backend.settle, Deletes.doPendingDeletes_eq]
      refine List.nodup_append.mpr ⟨hu, hp.filter _, fun a ha b hb => ?_⟩
      exact Ne.symm <| hd b (List.mem_filter.mp hb).1 a ha
    · intro a ha b hb
      rw [mem_settle_pending] at ha
      rw [mem_settle_unlinked] at hb
      cases hb
      case inl hb => exact hd a ha.1 b hb
      case inr hb => rintro rfl; omega
  own    := by
    intro e he
    simp only [List.mem_append, mem_settle_pending, mem_settle_unlinked] at he
    refine h.own e (List.mem_append.mpr ?_)
    tauto

-- Every registration that is not pending any more has been treated as it should be.
def Right (s : Backend) : Prop :=
  ∀ e ∈ s.registered, e ∈ s.pendingDeletes ∨ (e ∈ s.unlinked ↔ e.atCommit = e.path.survives)

theorem right_settle_iff (h : s.WellFormed) : (s.settle isCommit nestLevel).Right ↔
    s.Right ∧ ∀ e ∈ s.pendingDeletes, nestLevel ≤ e.nestLevel → e.path.survives = isCommit := by
  have hd := (List.nodup_append.mp h.nodup).2.2
  have hp (e) : e ∈ s.pendingDeletes →
      ((e ∈ (s.settle isCommit nestLevel).pendingDeletes ∨
        (e ∈ (s.settle isCommit nestLevel).unlinked ↔ e.atCommit = e.path.survives)) ↔
      (nestLevel ≤ e.nestLevel → e.path.survives = isCommit)) := by
    intro he
    have hu : e ∉ s.unlinked := fun hu => hd e he e hu rfl
    simp only [mem_settle_pending, mem_settle_unlinked, he, hu, true_and, false_or]
    by_cases hl : e.nestLevel < nestLevel
    case pos => simp [hl, Nat.not_le.mpr hl]
    case neg =>
      have hl' := Nat.not_lt.mp hl
      simp only [hl, hl', false_or, true_and, true_imp_iff]
      cases e.atCommit <;> cases e.path.survives <;> cases isCommit <;> simp
  constructor
  case mp =>
    intro hr
    refine ⟨fun e he => ?_, fun e he => (hp e he).mp (hr e (h.own e (by simp [he])))⟩
    by_cases hm : e ∈ s.pendingDeletes
    case pos => exact .inl hm
    case neg => simpa [mem_settle_pending, mem_settle_unlinked, hm] using hr e he
  case mpr =>
    rintro ⟨hr, hs⟩ e he
    by_cases hm : e ∈ s.pendingDeletes
    case pos => exact (hp e hm).mpr (hs e hm)
    case neg => simpa [mem_settle_pending, mem_settle_unlinked, hm] using hr e he

-- The levels of the pending registrations that survive.
def before (s : Backend) : List Nat :=
  (s.pendingDeletes.filter (·.path.survives)).map (·.nestLevel)

theorem forall_before_lt_iff : (∀ level ∈ s.before, level < nestLevel) ↔
    ∀ e ∈ s.pendingDeletes, nestLevel ≤ e.nestLevel → e.path.survives = false := by
  simp only [before, List.mem_map, List.mem_filter, forall_exists_index, and_imp]
  constructor
  case mp =>
    intro h e he hl
    by_contra hs
    have := h _ e he (by simpa using hs) rfl
    omega
  case mpr =>
    rintro h _ e he hs rfl
    by_contra hl
    simp [h e he (Nat.not_lt.mp hl)] at hs

theorem before_settle (h : ∀ level ∈ s.before, level < nestLevel) :
    (s.settle isCommit nestLevel).before = s.before := by
  rw [forall_before_lt_iff] at h
  simp only [before, settle, Deletes.doPendingDeletes_eq, List.filter_filter]
  congr 1
  refine List.filter_congr fun e he => ?_
  by_cases hs : e.path.survives
  case neg => simp [hs]
  case pos =>
    have hl : e.nestLevel < nestLevel := by
      by_contra hl
      simp [h e he (Nat.not_lt.mp hl)] at hs
    simp [hs, hl]

@[simp]
theorem surviving_false : body.surviving nestLevel false = [] := by
  induction body generalizing nestLevel <;> simp_all [Body.surviving]

theorem register_before : (s.register path atCommit nestLevel survives).before =
    (if survives then [nestLevel] else []) ++ s.before := by
  cases survives <;> simp [before, register, Deletes.registerFileForDeletion]

theorem register_right (h : s.WellFormed) :
    (s.register path atCommit nestLevel survives).Right ↔ s.Right := by
  have hf : ⟨⟨path, s.registered.length, survives⟩, atCommit, nestLevel⟩ ∉ s.registered :=
    fun hr => Nat.lt_irrefl _ (h.serial _ hr)
  simp only [Right, register, Deletes.registerFileForDeletion, List.mem_append, List.mem_cons,
    List.not_mem_nil, or_false]
  constructor
  case mp =>
    intro hr e he
    cases hr e (.inl he)
    case inl hc =>
      cases hc
      case inl heq => subst heq; exact absurd he hf
      case inr hp  => exact .inl hp
    case inr hc => exact .inr hc
  case mpr =>
    rintro hr e (he | he)
    · exact (hr e he).imp .inr id
    · exact .inl (.inl he)

theorem WellFormed.run (h : s.WellFormed) : (run nestLevel survives body s).WellFormed := by
  induction body generalizing s nestLevel survives
  case done          => exact h
  case register hi   => exact hi h.register
  case sub commits _ hi hr =>
    refine hr ?_
    rw [endSub_eq]
    split
    · exact hi h
    · exact (hi h).settle

-- The registrations of a (sub)transaction that are still pending at its end share its fate.
theorem mem_run_pending (h : e ∈ (run nestLevel survives body s).pendingDeletes) :
    e ∈ s.pendingDeletes ∨ nestLevel ≤ e.nestLevel ∧ e.path.survives = survives := by
  induction body generalizing s nestLevel survives
  case done        => exact .inl h
  case register hi =>
    cases hi h
    case inr h => exact .inr h
    case inl h =>
      rw [Backend.register, Deletes.registerFileForDeletion, List.mem_cons] at h
      cases h
      case inl h => subst h; exact .inr ⟨Nat.le_refl _, rfl⟩
      case inr h => exact .inl h
  case sub commits _ hi hr =>
    cases hr h
    case inr h => exact .inr h
    case inl h =>
      rw [endSub_eq] at h
      cases commits
      case true  =>
        cases hi h
        case inl h => exact .inl h
        case inr h => exact .inr ⟨by omega, by simpa using h.2⟩
      case false =>
        obtain ⟨h, hl⟩ := mem_settle_pending.mp h
        cases hi h
        case inl h => exact .inl h
        case inr h => omega

theorem endSub_right_iff (h : s.WellFormed) : (s.endSub commits nestLevel).Right ↔
    s.Right ∧ (commits ∨ ∀ level ∈ s.before, level < nestLevel) := by
  rw [endSub_eq]
  cases commits
  case true  => simp
  case false => simp [right_settle_iff h, forall_before_lt_iff]

theorem endSub_before (h : commits ∨ ∀ level ∈ s.before, level < nestLevel) :
    (s.endSub commits nestLevel).before = s.before := by
  rw [endSub_eq]
  split
  case isTrue     => rfl
  case isFalse hc => exact before_settle (h.resolve_left hc)

theorem WellFormed.endSub (h : s.WellFormed) : (s.endSub commits nestLevel).WellFormed := by
  rw [endSub_eq]
  split
  · exact h
  · exact h.settle

-- A run treats all registrations right iff no subtransaction aborts too late. In this case, all
-- registrations that survive are still pending.
structure RunRight (nestLevel : Nat) (survives : Bool) (body : Body) (s : Backend) : Prop where
  right_iff : (run nestLevel survives body s).Right ↔
    s.Right ∧ body.NoLateAbort nestLevel survives s.before
  before    : (run nestLevel survives body s).Right →
    (run nestLevel survives body s).before = body.surviving nestLevel survives ++ s.before

theorem runRight_register {rest : Body} (h : s.WellFormed)
    (hr : ∀ {s : Backend}, s.WellFormed → RunRight nestLevel survives rest s) :
    RunRight nestLevel survives (.register path atCommit rest) s := by
  have hr := hr <| @WellFormed.register s survives atCommit nestLevel path h
  have hi := hr.right_iff
  have hb := hr.before
  rw [register_right h, register_before] at hi
  rw [register_before] at hb
  exact ⟨hi, by simpa [run, Body.surviving] using hb⟩

theorem runRight_sub {inner rest : Body} (h : s.WellFormed)
    (hi : RunRight (nestLevel + 1) (survives && commits) inner s)
    (hr : ∀ {s : Backend}, s.WellFormed → RunRight nestLevel survives rest s) :
    RunRight nestLevel survives (.sub inner commits rest) s := by
  obtain ⟨hi, hb⟩ := hi
  generalize hs : run (nestLevel + 1) (survives && commits) inner s = s₁ at hi hb
  have hw : s₁.WellFormed := hs ▸ h.run
  have he : run nestLevel survives (.sub inner commits rest) s =
      run nestLevel survives rest (s₁.endSub commits (nestLevel + 1)) := by
    rw [←hs]
    rfl
  -- An aborting subtransaction leaves no surviving registrations of its own.
  have hc : s₁.Right → ((commits ∨ ∀ level ∈ s₁.before, level < nestLevel + 1) ↔
      (commits ∨ ∀ level ∈ s.before, level < nestLevel + 1)) := by
    intro h₁
    rw [hb h₁]
    cases commits <;> simp
  obtain ⟨hr, hbr⟩ := hr <| @WellFormed.endSub s₁ commits (nestLevel + 1) hw
  rw [endSub_right_iff hw] at hr
  constructor
  case right_iff =>
    rw [he, hr, Body.NoLateAbort]
    constructor
    case mp =>
      rintro ⟨⟨h₁, hl⟩, hn⟩
      rw [endSub_before hl, hb h₁] at hn
      exact ⟨(hi.mp h₁).1, (hi.mp h₁).2, (hc h₁).mp hl, hn⟩
    case mpr =>
      rintro ⟨h₀, hin, hl, hn⟩
      have h₁ := hi.mpr ⟨h₀, hin⟩
      have hl := (hc h₁).mpr hl
      refine ⟨⟨h₁, hl⟩, ?_⟩
      rwa [endSub_before hl, hb h₁]
  case before    =>
    rw [he]
    intro hf
    obtain ⟨h₁, hl⟩ := (hr.mp hf).1
    rw [hbr hf, endSub_before hl, hb h₁, Body.surviving, List.append_assoc]

theorem runRight (h : s.WellFormed) : RunRight nestLevel survives body s := by
  induction body generalizing s nestLevel survives
  case done        => exact ⟨by simp [run, Body.NoLateAbort], by simp [run, Body.surviving]⟩
  case register hi => exact runRight_register h hi
  case sub hi hr   => exact runRight_sub h (hi h) hr

theorem followsOutcome_iff (hp : s.pendingDeletes = []) (hw : s.WellFormed) :
    s.FollowsOutcome ↔ s.Right := by
  have hn := hw.nodup
  have ho := hw.own
  simp only [hp, List.nil_append] at hn ho
  constructor
  case mp  => exact fun h e he => .inr (h.right e he)
  case mpr => exact fun h => ⟨hp, hn, fun e he => by simpa [hp] using h e he, ho⟩

-- All pending deletes are at the top level or at inner levels.
theorem settle_pending (h : ∀ e ∈ s.pendingDeletes, nestLevel ≤ e.nestLevel) :
    (s.settle isCommit nestLevel).pendingDeletes = [] := by
  rw [List.eq_nil_iff_forall_not_mem]
  intro e he
  obtain ⟨he, hl⟩ := mem_settle_pending.mp he
  exact Nat.not_lt.mpr (h e he) hl

theorem endXact_eq_settle (h : ∀ e ∈ s.pendingDeletes, 1 ≤ e.nestLevel) :
    s.endXact commits = s.settle commits 1 := by
  have hp := @settle_pending s true 1 h
  rw [endXact_eq]
  cases commits
  case false => rfl
  case true  =>
    rw [if_pos rfl, Deletes.pendingDeleteCleanup, ←hp]

-- The files of a transaction and its subtransactions follow the outcome iff no subtransaction aborts
-- too late.
theorem transaction_followsOutcome_iff (body : Body) (commits : Bool) :
    (transaction body commits).FollowsOutcome ↔ body.NoLateAbort 1 commits [] := by
  have hw : (run 1 commits body init).WellFormed := init_wellFormed.run
  have hr : (run 1 commits body init).Right ↔ init.Right ∧ body.NoLateAbort 1 commits [] :=
    (runRight init_wellFormed).right_iff
  have hp (e) (he : e ∈ (run 1 commits body init).pendingDeletes) :
      1 ≤ e.nestLevel ∧ e.path.survives = commits :=
    (mem_run_pending he).resolve_left (by simp [init])
  have hl := @settle_pending _ commits 1 fun e he => (hp e he).1
  have hi : init.Right := by simp [Right, init]
  rw [transaction, endXact_eq_settle fun e he => (hp e he).1, followsOutcome_iff hl hw.settle,
    right_settle_iff hw, hr]
  simp only [hi, true_and, and_iff_left_iff_imp]
  exact fun _ e he _ => (hp e he).2

end Backend

-- A subtransaction creates a key file and commits. A later one, at the same level, aborts.
def siblingAborts : Body :=
  .sub (.register "base/5/16384.tde" false .done) true <| .sub .done false .done

-- The key file is unlinked although everything that it belongs to has committed.
theorem not_followsOutcome_siblingAborts :
    ¬(Backend.transaction siblingAborts true).FollowsOutcome := by
  intro h
  have hr := h.right ⟨⟨"base/5/16384.tde", 0, true⟩, false, 2⟩ (by decide)
  revert hr
  decide
