import PgTde.Hot.Theorems.Plan

open Relation

namespace TestedPage

variable {page : TestedPage} {env : PruneEnv} {s s' : PruneState} {n m k j nd r t : Nat} {lp : ItemIdData}

theorem Planned.step (h : page.Planned k nd s) (hs : page.PruneStep s k j s') :
    page.Planned (k + 1) (nd + j) s' := by
  cases hs
  case skips hm hp                        => exact h.skips hm hp
  case loose hm hl hp                     => exact h.removesLoose hm hl hp
  case kept hm hr hscan hd hne hp         => exact h.keeps hr hscan hd hne hp
  case removed hm hr hscan he hd hp       => exact h.removes hm hr hscan he hd hp
  case redirected hm hr hscan he hd hb hp => exact h.redirects hm hr hscan he hd hb hp

theorem Planned.run (hu : env.updater = page.updater) (h : page.Planned k nd s) (hk : 1 ≤ k)
    (hj : k + j ≤ page.getMaxOffsetNumber + 1) :
    ∃ nd' s', (List.range' k j).foldlM (env.pruneItem page.toPage) (nd, s) = .ok (nd', s') ∧
      page.Planned (k + j) nd' s' := by
  induction j generalizing k nd s
  case zero      => exact ⟨nd, s, rfl, h⟩
  case succ j ih =>
    obtain ⟨i, s₁, he, hs⟩ := @pruneItem_step page env s k nd hu h.htsv (by omega)
    obtain ⟨nd', s', he', h'⟩ := ih (h.step hs) (by omega) (by omega)
    refine ⟨nd', s', ?_, by rwa [Nat.add_right_comm] at h'⟩
    rw [List.range'_succ, List.foldlM_cons, he]
    exact he'

-- Nothing has been planned yet.
structure Fresh (page : TestedPage) (s : PruneState) : Prop where
  htsv   : s.htsv = page.htsv
  plan   : s.plan = ⟨[], [], []⟩
  marked : ∀ n, ¬s.marked n

theorem Fresh.planned (h : page.Fresh s) : page.Planned 1 0 s := by
  have hroot {r : Nat} (hr : r < 1) : ¬page.IsRoot r := fun h => by
    have hb := h.bounds
    omega
  have hloose {r : Nat} (hr : r < 1) : ¬page.Loose r := by
    rintro ⟨⟨lp, hl, -⟩, -⟩
    have hb := Page.exists_getItemId.mp ⟨lp, hl⟩
    omega
  constructor
  case htsv       => exact h.htsv
  case marked     => simp [h.plan, PrunePlan.offnums, h.marked]
  case once       => simp [h.plan, PrunePlan.offnums]
  case deleted    => simp [h.plan, PrunePlan.offnums]
  case redirected => simp [h.plan]
  case nowdead    => simp [h.plan]
  case nowunused  => simp [h.plan]
  case doomed     => simp [h.plan, PrunePlan.offnums]
  case origin     => exact fun n hm => absurd hm (h.marked n)
  case settled    => exact fun r hr hroot' => absurd hroot' (hroot hr)
  case cleared    => exact fun r hr hroot' => absurd hroot' (hroot hr)
  case loose      => exact fun r hr hl => absurd hl (hloose hr)

-- The planning for a page comes to an end.
theorem planPrune_planned (hu : env.updater = page.updater) (h : page.Fresh s) :
    ∃ nd s', env.planPrune page.toPage s = .ok (nd, s') ∧ page.Planned (page.getMaxOffsetNumber + 1) nd s' := by
  obtain ⟨nd, s', he, hp⟩ := @Planned.run page env s 1 page.getMaxOffsetNumber 0 hu h.planned (Nat.le_refl _)
    (by omega)
  refine ⟨nd, s', ?_, by rwa [Nat.add_comm] at hp⟩
  rw [PruneEnv.planPrune, if_pos page.few, he]

end TestedPage

namespace PrunePlan

variable {plan : PrunePlan}

theorem fst_changes : plan.changes.map (·.1) = plan.offnums := by
  simp [changes, offnums, Function.comp_def]

end PrunePlan

namespace TestedPage

variable {page : TestedPage} {env : PruneEnv} {s s' : PruneState} {n m k j nd r t : Nat} {lp : ItemIdData}

theorem Planned.mem_cases (h : page.Planned k nd s) (hn : n ∈ s.plan.offnums) :
    page.IsRoot n ∨ page.IsHeapOnlyTuple n := by
  obtain ⟨t, hn⟩ | hn | hn := PrunePlan.mem_offnums.mp hn
  · exact .inl (h.redirected n t hn).left
  · exact .inl (h.nowdead n hn)
  · exact .inr (h.nowunused n hn)

theorem heapOnly_bounds (h : page.IsHeapOnlyTuple n) : 1 ≤ n ∧ n ≤ page.getMaxOffsetNumber := by
  obtain ⟨lp, hl, -⟩ := h
  exact Page.exists_getItemId.mp ⟨lp, hl⟩

theorem Planned.valid (h : page.Planned k nd s) : s.plan.Valid page.toPage := by
  intro c hc
  have hmem : c.1 ∈ s.plan.offnums := PrunePlan.fst_changes ▸ List.mem_map_of_mem hc
  exact (h.mem_cases hmem).elim Page.IsRoot.bounds heapOnly_bounds

theorem Planned.wellFormed (h : page.Planned (page.getMaxOffsetNumber + 1) nd s) : s.plan.WellFormed page := by
  constructor
  case valid      => exact h.valid
  case once       => exact h.once
  case redirected =>
    intro r t hrt
    obtain ⟨hr, hne, ho, ht, -⟩ := h.redirected r t hrt
    exact ⟨hr, hne, ho, ht⟩
  case nowdead    => exact h.nowdead
  case nowunused  => exact h.nowunused
  case redirects  =>
    intro n hn hmem
    have hr : page.IsRoot n := .inr hn
    have hb := hr.bounds
    cases h.settled n (by omega) hr
    case kept _ ht _             =>
      obtain ⟨t, hl, ht, -⟩ := ht hn
      exact ⟨t, hl.next, page.heapOnly n t hl, ht⟩
    case removed hdead _ _       => exact absurd (PrunePlan.mem_offnums.mpr (.inr (.inl hdead))) hmem
    case redirected t hred _ _ _ => exact absurd (PrunePlan.mem_offnums.mpr (.inl ⟨t, hred⟩)) hmem

-- A dead tuple that is left is one in the middle of a chain that cannot be pruned up to it.
theorem Planned.left_dead (h : page.Planned (page.getMaxOffsetNumber + 1) nd s) (hl : page.getItemId n = some lp)
    (hn : lp.isNormal) (hd : page.Dead n) (hleft : n ∉ s.plan.offnums) :
    page.IsHeapOnlyTuple n ∧ page.nextOffset n ≠ none ∧ ∀ r, page.IsRoot r → ¬page.PassesTo r n := by
  have hb := Page.exists_getItemId.mp ⟨lp, hl⟩
  have hclear {r : Nat} (hr : page.IsRoot r) (hp : page.PassesTo r n) : False := by
    have hbr := hr.bounds
    exact hleft (h.cleared r (by omega) hr n hp hd)
  have hheap : heapTupleHeaderIsHeapOnly (page.getItem lp) := by
    by_contra hheap
    exact hclear (.inl ⟨lp, hl, hn, hheap⟩) .refl
  refine ⟨⟨lp, hl, hn, hheap⟩, fun hnext => ?_, fun r hr => hclear hr⟩
  exact hleft (h.loose n (by omega) ⟨⟨lp, hl, hn, hheap⟩, hd, hnext⟩)

end TestedPage
