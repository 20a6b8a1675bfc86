import PgTde.Hot.Theorems.Chain

open Relation

namespace PrunePlan

variable {plan plan' : PrunePlan} {n r t : Nat}

theorem mem_offnums :
    n ∈ plan.offnums ↔ (∃ t, (n, t) ∈ plan.redirected) ∨ n ∈ plan.nowdead ∨ n ∈ plan.nowunused := by
  simp [offnums]

end PrunePlan

theorem Page.IsRoot.not_heapOnly {page : Page} {n : Nat} (h : page.IsRoot n) : ¬page.IsHeapOnlyTuple n := by
  rintro ⟨lp, hl, hn, ho⟩
  obtain ⟨lp', hl', -, ho'⟩ | ⟨lp', hl', hf⟩ := h
  · obtain rfl := Option.some.inj (hl'.symm.trans hl)
    exact ho' ho
  · obtain rfl := Option.some.inj (hl'.symm.trans hl)
    rw [ItemIdData.isNormal, hf] at hn
    cases hn

namespace TestedPage

variable {page : TestedPage} {env : PruneEnv} {s s' : PruneState} {plan plan' : PrunePlan} {n m k j nd r r' d : Nat} {ms before : List Nat}

theorem heapOnly_behind (h : TransGen (page.Linked page.updater) n m) : page.IsHeapOnlyTuple m := by
  obtain ⟨k, -, hk⟩ := TransGen.tail'_iff.mp h
  exact page.heapOnly k m hk

-- An item belongs to the chain of one root only.
theorem root_unique (hr : page.IsRoot r) (h : ReflTransGen (page.Linked page.updater) r n) (hr' : page.IsRoot r')
    (h' : ReflTransGen (page.Linked page.updater) r' n) : r = r' := by
  obtain rfl | h := reflTransGen_iff_eq_or_transGen.mp h
  · obtain rfl | h' := reflTransGen_iff_eq_or_transGen.mp h'
    · rfl
    · exact absurd (heapOnly_behind h') hr.not_heapOnly
  · obtain rfl | h' := reflTransGen_iff_eq_or_transGen.mp h'
    · exact absurd (heapOnly_behind h) hr'.not_heapOnly
    · exact page.oneRoot n r r' (.inr ⟨hr, h⟩) (.inr ⟨hr', h'⟩)

theorem root_not_loose (h : page.IsRoot n) : ¬page.Loose n :=
  fun hl => h.not_heapOnly hl.left

theorem Loose.last (h : page.Loose n) (hr : ReflTransGen (page.Linked page.updater) n m) : m = n := by
  obtain rfl | ⟨k, hk, -⟩ := ReflTransGen.cases_head hr
  · rfl
  · cases h.right.right.symm.trans hk.next

-- The item has been marked for the sake of an item before `k`.
def Origin (page : TestedPage) (k n : Nat) : Prop :=
  page.Loose n ∨ ∃ r < k, page.IsRoot r ∧ ReflTransGen (page.Linked page.updater) r n

-- What is so once the items before `k` have been dealt with.
structure Planned (page : TestedPage) (k nd : Nat) (s : PruneState) : Prop where
  htsv       : s.htsv = page.htsv
  marked     : ∀ n, s.marked n ↔ n ∈ s.plan.offnums ∨ ∃ r, (r, n) ∈ s.plan.redirected
  once       : s.plan.offnums.Nodup
  deleted    : nd = s.plan.offnums.countP page.hasTuple
  redirected : ∀ r t, (r, t) ∈ s.plan.redirected → page.IsRoot r ∧ (page.IsRedirect r → page.nextOffset r ≠ some t) ∧
    page.IsHeapOnlyTuple t ∧ t ∉ s.plan.offnums ∧ ¬page.Dead t
  nowdead    : ∀ n ∈ s.plan.nowdead, page.IsRoot n
  nowunused  : ∀ n ∈ s.plan.nowunused, page.IsHeapOnlyTuple n
  doomed     : ∀ n ∈ s.plan.offnums, page.IsRedirect n ∨ page.Doomed n
  origin     : ∀ n, s.marked n → page.Origin k n
  settled    : ∀ r < k, page.IsRoot r → s.plan.Settles page r
  cleared    : ∀ r < k, page.IsRoot r → ∀ m, page.PassesTo r m → page.Dead m → m ∈ s.plan.offnums
  loose      : ∀ n < k, page.Loose n → n ∈ s.plan.offnums

-- The plan has been extended for the sake of item `k`.
structure Extends (page : TestedPage) (k : Nat) (plan plan' : PrunePlan) : Prop where
  redirected : plan.redirected ⊆ plan'.redirected
  nowdead    : plan.nowdead ⊆ plan'.nowdead
  offnums    : plan.offnums ⊆ plan'.offnums
  new        : ∀ n ∈ plan'.offnums, n ∉ plan.offnums → page.Loose n ∨ page.IsRoot k ∧
    ReflTransGen (page.Linked page.updater) k n

theorem Extends.not_new (he : page.Extends k plan plan') (hr : page.IsRoot r) (hk : r ≠ k)
    (hm : ReflTransGen (page.Linked page.updater) r m) (hl : ¬page.Loose m) (h : m ∉ plan.offnums) :
    m ∉ plan'.offnums := by
  intro h'
  obtain hl' | ⟨hrk, hmk⟩ := he.new m h' h
  · exact hl hl'
  · exact hk (root_unique hr hm hrk hmk)

-- What has been settled for a root stays so.
theorem Extends.settles (he : page.Extends k plan plan') (hr : page.IsRoot r) (hk : r ≠ k)
    (h : plan.Settles page r) : plan'.Settles page r := by
  have hloose {m : Nat} (hm : ReflTransGen (page.Linked page.updater) r m)
      (h : m ∈ plan.offnums → page.Loose m) (h' : m ∈ plan'.offnums) : page.Loose m := by
    by_contra hl
    exact he.not_new hr hk hm hl (fun hm => hl (h hm)) h'
  cases h
  case kept hn ht hm         =>
    refine .kept (he.not_new hr hk .refl (root_not_loose hr) hn) (fun hred => ?_)
      fun m hr' => hloose hr'.to_reflTransGen (hm m hr')
    obtain ⟨t, hl, ht, hd⟩ := ht hred
    exact ⟨t, hl, he.not_new hr hk (.single hl) (fun hl => hd hl.right.left) ht, hd⟩
  case removed hn hd hm      => exact .removed (he.nowdead hn) hd hm
  case redirected t hn hl ht hm =>
    exact .redirected (he.redirected hn) hl ht fun m hr' =>
      hloose (ht.trans hr').to_reflTransGen (hm m hr')

-- What the step for item `k` adds to the plan.
structure Adds (page : TestedPage) (k : Nat) (s s' : PruneState) (added : PrunePlan) : Prop where
  plan       : s'.plan = ⟨s.plan.redirected ++ added.redirected, s.plan.nowdead ++ added.nowdead,
    s.plan.nowunused ++ added.nowunused⟩
  htsv       : s'.htsv = s.htsv
  marked     : ∀ n, s'.marked n ↔ s.marked n ∨ n ∈ added.offnums ++ added.redirected.map (·.2)
  once       : (added.offnums ++ added.redirected.map (·.2)).Nodup
  unmarked   : ∀ n ∈ added.offnums ++ added.redirected.map (·.2), ¬s.marked n
  origin     : ∀ n ∈ added.offnums ++ added.redirected.map (·.2), page.Loose n ∨ page.IsRoot k ∧
    ReflTransGen (page.Linked page.updater) k n
  redirected : ∀ r t, (r, t) ∈ added.redirected → page.IsRoot r ∧ (page.IsRedirect r → page.nextOffset r ≠ some t) ∧
    page.IsHeapOnlyTuple t ∧ ¬page.Dead t
  nowdead    : ∀ n ∈ added.nowdead, page.IsRoot n
  nowunused  : ∀ n ∈ added.nowunused, page.IsHeapOnlyTuple n
  doomed     : ∀ n ∈ added.offnums, page.IsRedirect n ∨ page.Doomed n

variable {added : PrunePlan}

theorem Adds.perm (h : page.Adds k s s' added) : s'.plan.offnums.Perm (s.plan.offnums ++ added.offnums) := by
  rw [h.plan]
  simp only [PrunePlan.offnums, List.map_append]
  rw [List.perm_iff_count]
  intro n
  simp only [List.count_append]
  omega

theorem Adds.mem_offnums (h : page.Adds k s s' added) :
    n ∈ s'.plan.offnums ↔ n ∈ s.plan.offnums ∨ n ∈ added.offnums :=
  h.perm.mem_iff.trans List.mem_append

theorem Adds.extends (h : page.Adds k s s' added) : page.Extends k s.plan s'.plan where
  redirected       := h.plan ▸ List.subset_append_left _ _
  nowdead          := h.plan ▸ List.subset_append_left _ _
  offnums _ hn     := h.mem_offnums.mpr (.inl hn)
  new n hn hold    := h.origin n (List.mem_append_left _ ((h.mem_offnums.mp hn).resolve_left hold))

-- The rest of what is so about a plan, apart from what is settled for item `k` itself.
theorem Planned.extended (h : page.Planned k nd s) (ha : page.Adds k s s' added)
    (hset : page.IsRoot k → s'.plan.Settles page k)
    (hclear : page.IsRoot k → ∀ m, page.PassesTo k m → page.Dead m → m ∈ s'.plan.offnums)
    (hloose : page.Loose k → k ∈ s'.plan.offnums) :
    page.Planned (k + 1) (nd + added.offnums.countP page.hasTuple) s' := by
  have hnew {n : Nat} (hn : n ∈ added.offnums ++ added.redirected.map (·.2)) : n ∉ s.plan.offnums :=
    fun hold => ha.unmarked n hn ((h.marked n).mpr (.inl hold))
  constructor
  case htsv       => exact ha.htsv.trans h.htsv
  case marked     =>
    intro n
    rw [ha.marked, h.marked, ha.mem_offnums, List.mem_append, ha.plan]
    simp only [List.mem_append, List.mem_map, Prod.exists, exists_eq_right, exists_or]
    tauto
  case once       =>
    rw [ha.perm.nodup_iff, List.nodup_append]
    exact ⟨h.once, (List.nodup_append.mp ha.once).left,
      fun a hold b hb he => hnew (List.mem_append_left _ hb) (he ▸ hold)⟩
  case deleted    => rw [ha.perm.countP_eq, List.countP_append, h.deleted]
  case redirected =>
    intro r t hrt
    rw [ha.plan, List.mem_append] at hrt
    rw [ha.mem_offnums, not_or]
    obtain hrt | hrt := hrt
    · obtain ⟨hr, hne, ho, hn, hd⟩ := h.redirected r t hrt
      refine ⟨hr, hne, ho, ⟨hn, fun hadd => ?_⟩, hd⟩
      exact ha.unmarked t (List.mem_append_left _ hadd) ((h.marked t).mpr (.inr ⟨r, hrt⟩))
    · obtain ⟨hr, hne, ho, hd⟩ := ha.redirected r t hrt
      have ht : t ∈ added.redirected.map (·.2) := List.mem_map_of_mem hrt
      refine ⟨hr, hne, ho, ⟨hnew (List.mem_append_right _ ht), fun hadd => ?_⟩, hd⟩
      exact (List.nodup_append.mp ha.once).right.right t hadd t ht rfl
  case nowdead    =>
    intro n hn
    rw [ha.plan, List.mem_append] at hn
    exact hn.elim (h.nowdead n) (ha.nowdead n)
  case nowunused  =>
    intro n hn
    rw [ha.plan, List.mem_append] at hn
    exact hn.elim (h.nowunused n) (ha.nowunused n)
  case doomed     => exact fun n hn => (ha.mem_offnums.mp hn).elim (h.doomed n) (ha.doomed n)
  case origin     =>
    intro n hn
    obtain hn | hn := (ha.marked n).mp hn
    · exact (h.origin n hn).imp_right fun ⟨r, hr, hrest⟩ => ⟨r, by omega, hrest⟩
    · exact (ha.origin n hn).imp_right fun hk => ⟨k, by omega, hk⟩
  case settled    =>
    intro r hr hroot
    obtain hr | rfl := Nat.lt_succ_iff_lt_or_eq.mp hr
    · exact ha.extends.settles hroot (by omega) (h.settled r hr hroot)
    · exact hset hroot
  case cleared    =>
    intro r hr hroot m hm hd
    obtain hr | rfl := Nat.lt_succ_iff_lt_or_eq.mp hr
    · exact ha.extends.offnums (h.cleared r hr hroot m hm hd)
    · exact hclear hroot m hm hd
  case loose      =>
    intro n hn hl
    obtain hn | rfl := Nat.lt_succ_iff_lt_or_eq.mp hn
    · exact ha.extends.offnums (h.loose n hn hl)
    · exact hloose hl

theorem Planned.not_marked_root (h : page.Planned k nd s) (hr : page.IsRoot k)
    (hm : ReflTransGen (page.Linked page.updater) k m) (hl : ¬page.Loose m) : ¬s.marked m := by
  intro hmark
  obtain hl' | ⟨r, hlt, hr', hm'⟩ := h.origin m hmark
  · exact hl hl'
  · obtain rfl := root_unique hr hm hr' hm'
    exact Nat.lt_irrefl _ hlt

-- A dead tuple that has been marked is removed.
theorem Planned.mem_offnums (h : page.Planned k nd s) (hm : s.marked m) (hd : page.Dead m) : m ∈ s.plan.offnums := by
  obtain hm | ⟨r, hm⟩ := (h.marked m).mp hm
  · exact hm
  · exact absurd hd (h.redirected r m hm).right.right.right.right

-- What the chain gets to has been scanned, or it is a dead tuple at the end of the chain.
theorem Planned.reaches (h : page.Planned k nd s) (hr : page.IsRoot k) (hscan : page.Scans s k ms)
    (hp : ReflTransGen (fun a b => page.Linked page.updater a b ∧ (a ∈ k :: ms → page.Passable a)) k m) :
    m ∈ k :: ms ∨ page.Loose m ∧ s.marked m := by
  have hu : ∀ a b c, page.Linked page.updater a b → page.Linked page.updater a c → b = c :=
    fun _ _ _ => Page.Linked.unique
  refine (Scanned.reaches hu hscan hp).imp_right ?_
  rintro ⟨x, hx, ht, hxm⟩
  have hl : page.Loose x := by
    by_contra hl
    exact h.not_marked_root hr ht.to_reflTransGen hl hx
  obtain rfl := hl.last hxm
  exact ⟨hl, hx⟩

theorem adds_nothing (h : s.Plans s.plan [] s') : page.Adds k s s' ⟨[], [], []⟩ where
  plan       := by simp [h.plan]
  htsv       := h.htsv
  marked     := h.marked
  once       := List.nodup_nil
  unmarked   := List.forall_mem_nil _
  origin     := List.forall_mem_nil _
  redirected := by simp
  nowdead    := List.forall_mem_nil _
  nowunused  := List.forall_mem_nil _
  doomed     := List.forall_mem_nil _

theorem Planned.skips (h : page.Planned k nd s) (hm : page.IsRoot k ∨ page.Loose k → s.marked k)
    (hp : s.Plans s.plan [] s') : page.Planned (k + 1) (nd + 0) s' := by
  have hr : ¬page.IsRoot k := fun hr => h.not_marked_root hr .refl (root_not_loose hr) (hm (.inl hr))
  exact h.extended (adds_nothing hp) (fun hr' => absurd hr' hr) (fun hr' => absurd hr' hr) fun hl =>
    hp.plan ▸ h.mem_offnums (hm (.inr hl)) hl.right.left

theorem Planned.removesLoose (h : page.Planned k nd s) (hm : ¬s.marked k) (hl : page.Loose k)
    (hp : s.Plans { s.plan with nowunused := s.plan.nowunused ++ [k] } [k] s') :
    page.Planned (k + 1) (nd + 1) s' := by
  have ha : page.Adds k s s' ⟨[], [], [k]⟩ := by
    constructor
    case plan       => simp [hp.plan]
    case htsv       => exact hp.htsv
    case marked     => exact hp.marked
    case once       => exact List.nodup_singleton k
    case unmarked   => exact List.forall_mem_singleton.mpr hm
    case origin     => exact List.forall_mem_singleton.mpr (.inl hl)
    case redirected => simp
    case nowdead    => exact List.forall_mem_nil _
    case nowunused  => exact List.forall_mem_singleton.mpr hl.left
    case doomed     => exact List.forall_mem_singleton.mpr (.inr (.dead hl.right.left))
  have hr : ¬page.IsRoot k := fun hr => root_not_loose hr hl
  have hc : [k].countP page.hasTuple = 1 := by
    rw [List.countP_singleton, hasTuple, hl.right.left]
    rfl
  exact hc ▸ h.extended ha (fun hr' => absurd hr' hr) (fun hr' => absurd hr' hr) fun _ =>
    ha.mem_offnums.mpr (.inr List.mem_cons_self)

-- The items that have been scanned, as part of a longer path.
theorem PassesTo.weaken (h : page.PassesTo n m) (ms : List Nat) :
    ReflTransGen (fun a b => page.Linked page.updater a b ∧ (a ∈ n :: ms → page.Passable a)) n m :=
  ReflTransGen.mono (fun _ _ h => ⟨h.left, fun _ => h.right⟩) _ _ h

theorem Planned.keeps (h : page.Planned k nd s) (hr : page.IsRoot k) (hscan : page.Scans s k ms)
    (hd : ∀ m ∈ k :: ms, ¬page.Dead m) (hne : page.IsRedirect k → ms ≠ []) (hp : s.Plans s.plan [] s') :
    page.Planned (k + 1) (nd + 0) s' := by
  have hk := h.not_marked_root hr .refl (root_not_loose hr)
  have hmark {m : Nat} (hm : m ∈ s'.plan.offnums) : s.marked m := (h.marked m).mpr (.inl (hp.plan ▸ hm))
  refine h.extended (adds_nothing hp) (fun _ => ?_) (fun _ m hm hdm => ?_) fun hl => absurd hl (root_not_loose hr)
  · refine .kept (fun hmem => hk (hmark hmem)) (fun hred => ?_) fun m ht hmem => ?_
    · obtain ⟨t, ms, rfl⟩ := List.exists_cons_of_ne_nil (hne hred)
      have hc := List.isChain_cons_cons.mp hscan.isChain
      exact ⟨t, hc.left.left, fun hmem => hc.left.right.right (hmark hmem), hd t (by simp)⟩
    · by_contra hl
      exact h.not_marked_root hr ht.to_reflTransGen hl (hmark hmem)
  · obtain hmem | ⟨-, hmem⟩ := h.reaches hr hscan (hm.weaken ms)
    · exact absurd hdm (hd m hmem)
    · exact hp.plan ▸ h.mem_offnums hmem hdm

theorem Planned.removes (h : page.Planned k nd s) (hm : ¬s.marked k) (hr : page.IsRoot k)
    (hscan : page.Scans s k ms) (he : k :: ms = before ++ [d]) (hd : page.Dead d ∨ page.IsRedirect d)
    (hp : s.Plans { s.plan with
      nowdead   := s.plan.nowdead ++ [k]
      nowunused := s.plan.nowunused ++ ms } (k :: ms) s') :
    page.Planned (k + 1) (nd + (k :: ms).countP page.hasTuple) s' := by
  have hc := hscan.isChain.imp fun _ _ h => And.intro h.left h.right.left
  have hq : ∀ m ∈ k :: ms, page.IsRedirect m ∨ page.Doomed m := he ▸ doomed_before (he ▸ hc) hd.symm
  have ha : page.Adds k s s' ⟨[], [k], ms⟩ := by
    constructor
    case plan       => simp [hp.plan]
    case htsv       => exact hp.htsv
    case marked     => exact fun n => (List.append_nil (k :: ms)).symm ▸ hp.marked n
    case once       => exact (List.append_nil (k :: ms)).symm ▸ hscan.nodup
    case unmarked   =>
      exact (List.append_nil (k :: ms)).symm ▸ List.forall_mem_cons.mpr ⟨hm, Scanned.unmarked hscan⟩
    case origin     =>
      exact (List.append_nil (k :: ms)).symm ▸ List.forall_mem_cons.mpr
        ⟨.inr ⟨hr, .refl⟩, fun m hm => .inr ⟨hr, (hscan.behind m hm).to_reflTransGen⟩⟩
    case redirected => simp
    case nowdead    => exact List.forall_mem_singleton.mpr hr
    case nowunused  => exact fun m hm => heapOnly_behind (hscan.behind m hm)
    case doomed     => exact hq
  refine h.extended ha (fun _ => ?_) (fun _ m hm hdm => ?_) fun hl => absurd hl (root_not_loose hr)
  · refine .removed ?_ (hq k List.mem_cons_self) fun m ht => ?_
    · rw [hp.plan]
      exact List.mem_append_right _ List.mem_cons_self
    · have hpath := ReflTransGen.mono (fun a b (hl : page.Linked page.updater a b) =>
        And.intro hl fun ha => passable_of_doomed (hq a ha)) _ _ ht.to_reflTransGen
      obtain hmem | ⟨hl, -⟩ := h.reaches hr hscan hpath
      · exact (hq m hmem).resolve_left (not_isRedirect_behind ht)
      · exact .dead hl.right.left
  · obtain hmem | ⟨-, hmem⟩ := h.reaches hr hscan (hm.weaken ms)
    · exact ha.mem_offnums.mpr (.inr hmem)
    · exact ha.extends.offnums (h.mem_offnums hmem hdm)

theorem Planned.redirects {behind : List Nat} {t : Nat} (h : page.Planned k nd s) (hm : ¬s.marked k)
    (hr : page.IsRoot k) (hscan : page.Scans s k (ms ++ t :: behind)) (he : k :: ms = before ++ [d])
    (hd : page.Dead d) (hb : ∀ m ∈ t :: behind, ¬page.Dead m)
    (hp : s.Plans { s.plan with
      redirected := s.plan.redirected ++ [(k, t)]
      nowunused  := s.plan.nowunused ++ ms } (k :: t :: ms) s') :
    page.Planned (k + 1) (nd + (k :: ms).countP page.hasTuple) s' := by
  have hpw : (k :: ms ++ t :: behind).Pairwise (TransGen (page.Linked page.updater)) := hscan.pairwise
  have hbefore : ∀ m ∈ k :: ms, TransGen (page.Linked page.updater) m t := fun m hm =>
    (List.pairwise_append.mp hpw).right.right m hm t List.mem_cons_self
  have hkt := hbefore k List.mem_cons_self
  have hsub : (k :: ms ++ [t]).Sublist (k :: (ms ++ t :: behind)) :=
    (List.Sublist.refl (k :: ms)).append (List.singleton_sublist.mpr List.mem_cons_self)
  have hc := hscan.isChain.imp fun _ _ h => And.intro h.left h.right.left
  have hunmarked : ∀ m ∈ k :: (ms ++ t :: behind), ¬s.marked m :=
    List.forall_mem_cons.mpr ⟨hm, Scanned.unmarked hscan⟩
  -- A redirection is not dead itself, so that it comes to refer to another tuple.
  have hne (hred : page.IsRedirect k) : page.nextOffset k ≠ some t := by
    intro hnext
    cases ms
    case nil       =>
      have hmem : d ∈ [k] := he ▸ List.mem_append_right _ List.mem_cons_self
      exact not_dead_of_isRedirect hred (List.mem_singleton.mp hmem ▸ hd)
    case cons c cs =>
      have hkc := (List.isChain_cons_cons.mp hc).left.left
      obtain rfl := Option.some.inj (hkc.next.symm.trans hnext)
      exact page.acyclic c (hbefore c (by simp))
  have ha : page.Adds k s s' ⟨[(k, t)], [], ms⟩ := by
    constructor
    case plan       => simp [hp.plan]
    case htsv       => exact hp.htsv
    case marked     =>
      intro n
      rw [hp.marked]
      simp [PrunePlan.offnums]
      tauto
    case once       => exact hscan.nodup.sublist hsub
    case unmarked   => exact fun n hn => hunmarked n (hsub.subset hn)
    case origin     =>
      intro n hn
      obtain rfl | hn := List.mem_cons.mp (hsub.subset hn)
      · exact .inr ⟨hr, .refl⟩
      · exact .inr ⟨hr, (hscan.behind n hn).to_reflTransGen⟩
    case redirected =>
      intro r t' hrt
      obtain ⟨rfl, rfl⟩ := Prod.mk.inj (List.mem_singleton.mp hrt)
      exact ⟨hr, hne, heapOnly_behind hkt, hb _ List.mem_cons_self⟩
    case nowdead    => exact List.forall_mem_nil _
    case nowunused  => exact fun m hm => heapOnly_behind (hscan.behind m (List.mem_append_left _ hm))
    case doomed     =>
      have hleft := (@List.isChain_append _ _ (k :: ms) (t :: behind)).mp hc |>.left
      have hq : ∀ m ∈ k :: ms, page.IsRedirect m ∨ page.Doomed m := he ▸ doomed_before (he ▸ hleft) (.inr hd)
      exact hq
  refine h.extended ha (fun _ => ?_) (fun _ m hm hdm => ?_) fun hl => absurd hl (root_not_loose hr)
  · refine .redirected (t := t) ?_ (leadsTo_behind hc he hd) hkt fun m ht hmem => ?_
    · rw [hp.plan]
      exact List.mem_append_right _ List.mem_cons_self
    · by_contra hl
      obtain hmem | hmem := ha.mem_offnums.mp hmem
      · exact h.not_marked_root hr (hkt.trans ht).to_reflTransGen hl ((h.marked m).mpr (.inl hmem))
      · exact page.acyclic t (ht.trans (hbefore m hmem))
  · obtain hmem | ⟨-, hmem⟩ := h.reaches hr hscan (hm.weaken _)
    · obtain hmem | hmem := (@List.mem_append _ m (k :: ms) (t :: behind)).mp hmem
      · exact ha.mem_offnums.mpr (.inr hmem)
      · exact absurd hdm (hb m hmem)
    · exact ha.extends.offnums (h.mem_offnums hmem hdm)

end TestedPage
