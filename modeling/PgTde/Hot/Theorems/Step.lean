import PgTde.Hot.Theorems.Scan

open Relation

namespace PruneState

variable {s s' : PruneState} {n : Nat} {plan : PrunePlan} {ns : List Nat}

theorem recordUnused_eq : ns.foldl (·.heapPruneRecordUnused ·) s =
    { s with
      plan   := { s.plan with nowunused := s.plan.nowunused ++ ns }
      marked := (ns.foldl (·.heapPruneRecordUnused ·) s).marked } := by
  induction ns generalizing s
  case nil          => rw [List.foldl_nil, List.append_nil]
  case cons n ns ih =>
    rw [List.foldl_cons, ih, heapPruneRecordUnused, mark, List.append_assoc]
    rfl

theorem marked_mark {m : Nat} : (s.mark n).marked m ↔ s.marked m ∨ m = n := by
  by_cases h : m = n
  case pos => simp [mark, h]
  case neg => simp [mark, h]

theorem marked_recordUnused {m : Nat} :
    (ns.foldl (·.heapPruneRecordUnused ·) s).marked m ↔ s.marked m ∨ m ∈ ns := by
  induction ns generalizing s
  case nil          => simp
  case cons n ns ih =>
    rw [List.foldl_cons, ih, heapPruneRecordUnused, List.mem_cons]
    exact (or_congr_left marked_mark).trans or_assoc

-- The items `ns` are marked for what has been added to the plan.
structure Plans (s : PruneState) (plan : PrunePlan) (ns : List Nat) (s' : PruneState) : Prop where
  plan   : s'.plan = plan
  marked : ∀ n, s'.marked n ↔ s.marked n ∨ n ∈ ns
  htsv   : s'.htsv = s.htsv

theorem Plans.of_same (hp : s'.plan = s.plan) (hm : s'.marked = s.marked) (ht : s'.htsv = s.htsv) :
    s.Plans s.plan [] s' :=
  ⟨hp, fun n => by rw [hm]; simp, ht⟩

end PruneState

namespace TestedPage

variable {page : TestedPage} {env : PruneEnv} {s s' : PruneState} {n d : Nat} {lp : ItemIdData} {ms : List Nat}

theorem lastDead_cases : page.lastDead d ms = d ∧ (∀ m ∈ ms, ¬page.Dead m) ∨
    ∃ before behind, ms = before ++ page.lastDead d ms :: behind ∧ page.Dead (page.lastDead d ms) ∧
      ∀ m ∈ behind, ¬page.Dead m := by
  induction ms generalizing d
  case nil          => exact .inl ⟨rfl, List.forall_mem_nil _⟩
  case cons m ms ih =>
    have hcons : page.lastDead d (m :: ms) = page.lastDead (if page.Dead m then m else d) ms := rfl
    rw [hcons]
    by_cases hm : page.Dead m
    case pos =>
      rw [if_pos hm]
      obtain ⟨he, hn⟩ | ⟨before, behind, he, hd, hb⟩ := @ih m
      · exact .inr ⟨[], ms, by rw [he]; rfl, by rwa [he], hn⟩
      · exact .inr ⟨m :: before, behind, congrArg (m :: ·) he, hd, hb⟩
    case neg =>
      rw [if_neg hm]
      obtain ⟨he, hn⟩ | ⟨before, behind, he, hd, hb⟩ := @ih d
      · exact .inl ⟨he, List.forall_mem_cons.mpr ⟨hm, hn⟩⟩
      · exact .inr ⟨m :: before, behind, congrArg (m :: ·) he, hd, hb⟩

end TestedPage

-- The items up to the latest dead one are marked as unused, but for the first one.
theorem PruneEnv.removeDead_eq {s : PruneState} {d previous : Nat} {items before behind : List Nat}
    (hn : (previous :: items).Nodup) (h : previous :: items = before ++ d :: behind) :
    ∃ ns, previous :: ns = before ++ [d] ∧ items = ns ++ behind ∧
      removeDead d previous items s = (behind.head?, ns.length, ns.foldl (·.heapPruneRecordUnused ·) s) := by
  induction before generalizing previous items s
  case nil              =>
    obtain ⟨rfl, rfl⟩ := List.cons.inj h
    refine ⟨[], rfl, rfl, ?_⟩
    cases items
    case nil  => rfl
    case cons => exact if_neg (not_not.mpr rfl)
  case cons b before ih =>
    rw [List.cons_append] at h
    obtain ⟨rfl, rfl⟩ := List.cons.inj h
    have hne : previous ≠ d := by
      rintro rfl
      exact (List.nodup_cons.mp hn).left (by simp)
    obtain ⟨item, items, hi⟩ : ∃ item items, before ++ d :: behind = item :: items :=
      List.exists_cons_of_ne_nil (by simp)
    rw [hi] at hn
    obtain ⟨ns, hns, hb, hr⟩ := @ih (s.heapPruneRecordUnused item) item items (List.nodup_cons.mp hn).right hi.symm
    refine ⟨item :: ns, congrArg (previous :: ·) hns, by rw [hi, hb]; rfl, ?_⟩
    rw [hi, removeDead, if_pos hne, hr]
    rfl

namespace TestedPage

variable {page : TestedPage} {env : PruneEnv} {s s' : PruneState} {n k nd : Nat} {lp : ItemIdData} {ms : List Nat}

-- The items behind `n` that its chain consists of, as far as they have been scanned.
abbrev Scans (page : TestedPage) (s : PruneState) (n : Nat) (ms : List Nat) : Prop :=
  Scanned (page.Linked page.updater) page.Passable (fun n => s.marked n) n ms

def hasTuple (page : TestedPage) (n : Nat) : Bool :=
  (page.htsv n).isSome

-- What the body of the loop over the line pointers does with an item.
inductive PruneStep (page : TestedPage) (s : PruneState) (n : Nat) : Nat → PruneState → Prop
  | skips {s' : PruneState} : (page.IsRoot n ∨ page.Loose n → s.marked n) → s.Plans s.plan [] s' →
    PruneStep page s n 0 s'
  | loose {s' : PruneState} : ¬s.marked n → page.Loose n →
    s.Plans { s.plan with nowunused := s.plan.nowunused ++ [n] } [n] s' → PruneStep page s n 1 s'
  | kept {s' : PruneState} {ms : List Nat} : ¬s.marked n → page.IsRoot n → page.Scans s n ms →
    (∀ m ∈ n :: ms, ¬page.Dead m) → (page.IsRedirect n → ms ≠ []) → s.Plans s.plan [] s' → PruneStep page s n 0 s'
  | removed {s' : PruneState} {ms before : List Nat} {d : Nat} : ¬s.marked n → page.IsRoot n → page.Scans s n ms →
    n :: ms = before ++ [d] → (page.Dead d ∨ page.IsRedirect d) →
    s.Plans { s.plan with
      nowdead   := s.plan.nowdead ++ [n]
      nowunused := s.plan.nowunused ++ ms } (n :: ms) s' →
    PruneStep page s n ((n :: ms).countP page.hasTuple) s'
  | redirected {s' : PruneState} {ms before behind : List Nat} {d t : Nat} : ¬s.marked n → page.IsRoot n →
    page.Scans s n (ms ++ t :: behind) → n :: ms = before ++ [d] → page.Dead d →
    (∀ m ∈ t :: behind, ¬page.Dead m) →
    s.Plans { s.plan with
      redirected := s.plan.redirected ++ [(n, t)]
      nowunused  := s.plan.nowunused ++ ms } (n :: t :: ms) s' →
    PruneStep page s n ((n :: ms).countP page.hasTuple) s'

theorem Scans.isChain (h : page.Scans s n ms) :
    (n :: ms).IsChain fun n m => page.Linked page.updater n m ∧ page.Passable n ∧ ¬s.marked m :=
  Scanned.isChain h

-- The items come one behind the other.
theorem Scans.pairwise (h : page.Scans s n ms) : (n :: ms).Pairwise (TransGen (page.Linked page.updater)) := by
  have hc := h.isChain.imp fun _ _ h => TransGen.single h.left
  exact List.isChain_iff_pairwise.mp hc

theorem Scans.nodup (h : page.Scans s n ms) : (n :: ms).Nodup := by
  refine List.Pairwise.imp ?_ h.pairwise
  rintro a _ ht rfl
  exact page.acyclic a ht

theorem Scans.behind (h : page.Scans s n ms) : ∀ m ∈ ms, TransGen (page.Linked page.updater) n m :=
  (List.pairwise_cons.mp h.pairwise).left

theorem not_isRedirect_behind {m : Nat} (h : TransGen (page.Linked page.updater) n m) : ¬page.IsRedirect m := by
  rintro ⟨lp, hl, hf⟩
  obtain ⟨k, -, hk⟩ := TransGen.tail'_iff.mp h
  obtain ⟨lp', hl', hn, -⟩ := hk.tuple
  obtain rfl := Option.some.inj (hl'.symm.trans hl)
  rw [ItemIdData.isNormal, hf] at hn
  cases hn

theorem bounds_behind {m : Nat} (h : TransGen (page.Linked page.updater) n m) :
    1 ≤ m ∧ m ≤ page.getMaxOffsetNumber := by
  obtain ⟨k, -, hk⟩ := TransGen.tail'_iff.mp h
  obtain ⟨lp, hl, -⟩ := hk.tuple
  exact Page.exists_getItemId.mp ⟨lp, hl⟩

theorem hasTuple_behind {m : Nat} (h : TransGen (page.Linked page.updater) n m) : page.hasTuple m := by
  obtain ⟨k, -, hk⟩ := TransGen.tail'_iff.mp h
  obtain ⟨lp, hl, hn, -⟩ := hk.tuple
  exact (page.tested m lp hl).trans hn

theorem PruneStep.of_same {s₁ : PruneState} (h : page.PruneStep s n k s₁) (hp : s'.plan = s₁.plan)
    (hm : s'.marked = s₁.marked) (ht : s'.htsv = s₁.htsv) : page.PruneStep s n k s' := by
  have hs {plan ns} (h : s.Plans plan ns s₁) : s.Plans plan ns s' :=
    ⟨hp.trans h.plan, fun n => by rw [hm, h.marked], ht.trans h.htsv⟩
  cases h
  case skips hr h                    => exact .skips hr (hs h)
  case loose hm hl h                 => exact .loose hm hl (hs h)
  case kept hm hr hsc hd hne h       => exact .kept hm hr hsc hd hne (hs h)
  case removed hm hr hsc he hd h     => exact .removed hm hr hsc he hd (hs h)
  case redirected hm hr hsc he hd hb h => exact .redirected hm hr hsc he hd hb (hs h)

theorem pruneHeapOnly_step (hs : s.htsv = page.htsv) (hl : page.getItemId n = some lp) (hn : lp.isNormal)
    (ho : heapTupleHeaderIsHeapOnly (page.getItem lp)) (hm : ¬s.marked n) :
    page.PruneStep s n (env.pruneHeapOnly n (page.getItem lp) s).1 (env.pruneHeapOnly n (page.getItem lp) s).2 := by
  have hnext := Page.nextOffset_normal hl hn
  have hroot : ¬page.IsRoot n := by
    rintro (⟨lp', hl', -, ho'⟩ | ⟨lp', hl', hf⟩)
    · obtain rfl := Option.some.inj (hl'.symm.trans hl)
      exact ho' ho
    · obtain rfl := Option.some.inj (hl'.symm.trans hl)
      rw [ItemIdData.isNormal, hf] at hn
      cases hn
  rw [PruneEnv.pruneHeapOnly, hs]
  split
  case isTrue h  =>
    rw [if_neg h.right] at hnext
    exact .loose hm ⟨⟨lp, hl, hn, ho⟩, h.left, hnext⟩
      ⟨rfl, fun m => PruneState.marked_mark.trans (or_congr_right List.mem_singleton.symm), rfl⟩
  case isFalse h =>
    refine .skips (fun hr => absurd (hr.resolve_left hroot) fun hloose => h ⟨hloose.right.left, fun hhot => ?_⟩)
      (.of_same rfl rfl rfl)
    rw [if_pos hhot] at hnext
    cases hnext.symm.trans hloose.right.right

theorem countP_hasTuple (hm : ∀ m ∈ ms, page.hasTuple m) (hl : page.getItemId n = some lp) :
    (n :: ms).countP page.hasTuple = if lp.isNormal then ms.length + 1 else ms.length := by
  rw [List.countP_cons, List.countP_eq_length.mpr hm, hasTuple, page.tested n lp hl]
  split <;> rfl

-- The planning for a chain that starts at a line pointer.
theorem heapPruneChain_step (hu : env.updater = page.updater) (hs : s.htsv = page.htsv)
    (hl : page.getItemId n = some lp) (hf : lp.lpFlags = .normal ∨ lp.lpFlags = .redirect) (hm : ¬s.marked n) :
    ∃ k s', env.heapPruneChain page.toPage n lp s = .ok (k, s') ∧ page.PruneStep s n k s' := by
  rw [PruneEnv.heapPruneChain]
  split
  case isTrue h  => exact ⟨_, _, rfl, pruneHeapOnly_step hs hl h.left h.right hm⟩
  case isFalse h =>
    have hr : page.IsRoot n := by
      obtain hf | hf := hf
      · have hn : lp.isNormal := decide_eq_true hf
        exact .inl ⟨lp, hl, hn, fun ho => h ⟨hn, ho⟩⟩
      · exact .inr ⟨lp, hl, hf⟩
    obtain ⟨ms, ⟨xid, horizon, he⟩, hscan⟩ := scanChain_root hu hs hr hm
    have hscan : page.Scans s n ms := hscan
    rw [he, Outcome.ok_bind]
    simp only [List.nil_append, List.tail_cons]
    have hb : ∀ m ∈ n :: ms, m ≠ invalidOffsetNumber :=
      List.forall_mem_cons.mpr ⟨Nat.one_le_iff_ne_zero.mp (Page.IsRoot.bounds hr).left,
        fun m hm => Nat.one_le_iff_ne_zero.mp (bounds_behind (hscan.behind m hm)).left⟩
    have ht : ∀ m ∈ ms, page.hasTuple m := fun m hm => hasTuple_behind (hscan.behind m hm)
    obtain ⟨hd, hno⟩ | ⟨before, behind, hsplit, hd, hno⟩ := @lastDead_cases page invalidOffsetNumber (n :: ms)
    · rw [if_neg (not_not.mpr hd)]
      split
      case isTrue hlen  =>
        obtain rfl : ms = [] := List.eq_nil_of_length_eq_zero (by
          have h := hlen.left
          rw [List.length_cons] at h
          omega)
        have hn : lp.isNormal = false := by rw [ItemIdData.isNormal, hlen.right]; rfl
        have hc : [n].countP page.hasTuple = 0 := by
          rw [countP_hasTuple (List.forall_mem_nil _) hl, hn]
          rfl
        refine ⟨_, _, rfl, hc ▸ @PruneStep.removed page s n _ [] [] n hm hr hscan rfl (.inr ⟨lp, hl, hlen.right⟩) ?_⟩
        refine ⟨?_, fun m => PruneState.marked_mark.trans (or_congr_right List.mem_singleton.symm), rfl⟩
        rw [List.append_nil]
        rfl
      case isFalse hlen =>
        refine ⟨_, _, rfl, .kept hm hr hscan hno (fun hred hnil => hlen ⟨by simp [hnil], ?_⟩)
          (.of_same rfl rfl rfl)⟩
        obtain ⟨lp', hl', hf'⟩ := hred
        obtain rfl := Option.some.inj (hl'.symm.trans hl)
        exact hf'
    · generalize page.lastDead invalidOffsetNumber (n :: ms) = d at hsplit hd
      rw [if_pos (hb d (by simp [hsplit]))]
      obtain ⟨ns, hns, rfl, hrem⟩ := @PruneEnv.removeDead_eq
        { s with newPruneXid := xid, snapshotConflictHorizon := horizon } d n _ _ _ hscan.nodup hsplit
      rw [hrem, PruneState.recordUnused_eq]
      have hc := @countP_hasTuple page n lp ns (fun m hm => ht m (List.mem_append_left _ hm)) hl
      have hmarked (m : Nat) := @PruneState.marked_recordUnused
        { s with newPruneXid := xid, snapshotConflictHorizon := horizon } ns m
      cases behind
      case nil      =>
        rw [List.append_nil] at hscan
        refine ⟨_, _, rfl, ?_⟩
        rw [←hc]
        refine .removed hm hr hscan hns (.inl hd) ⟨rfl, fun m => ?_, rfl⟩
        refine PruneState.marked_mark.trans ((or_congr_left (hmarked m)).trans ?_)
        rw [List.mem_cons, or_assoc, @or_comm (m ∈ ns)]
      case cons t _ =>
        refine ⟨_, _, rfl, ?_⟩
        rw [←hc]
        refine .redirected hm hr hscan hns hd (fun m hm => hno m hm) ⟨rfl, fun m => ?_, rfl⟩
        refine PruneState.marked_mark.trans ((or_congr_left PruneState.marked_mark).trans ?_)
        refine (or_congr_left (or_congr_left (hmarked m))).trans ?_
        rw [List.mem_cons, List.mem_cons]
        tauto

-- The step of the loop over the line pointers.
theorem pruneItem_step (hu : env.updater = page.updater) (hs : s.htsv = page.htsv)
    (hb : 1 ≤ n ∧ n ≤ page.getMaxOffsetNumber) :
    ∃ k s', env.pruneItem page.toPage (nd, s) n = .ok (nd + k, s') ∧ page.PruneStep s n k s' := by
  simp only [PruneEnv.pruneItem]
  split
  case isTrue hm  => exact ⟨0, s, rfl, .skips (fun _ => hm) (.of_same rfl rfl rfl)⟩
  case isFalse hm =>
    obtain ⟨lp, hl⟩ := Page.exists_getItemId.mpr hb
    have hskip (hf : lp.lpFlags ≠ .normal) (hf' : lp.lpFlags ≠ .redirect) : page.PruneStep s n 0 s := by
      refine .skips ?_ (.of_same rfl rfl rfl)
      rintro ((⟨lp', hl', hn, -⟩ | ⟨lp', hl', hr⟩) | ⟨⟨lp', hl', hn, -⟩, -⟩)
      all_goals obtain rfl := Option.some.inj (hl'.symm.trans hl)
      · exact absurd (of_decide_eq_true hn) hf
      · exact absurd hr hf'
      · exact absurd (of_decide_eq_true hn) hf
    have hchain (hf : lp.lpFlags = .normal ∨ lp.lpFlags = .redirect) : ∃ k s',
        (env.heapPruneChain page.toPage n lp s >>= fun r => return (nd + r.1, r.2) : Outcome (Nat × PruneState)) =
        .ok (nd + k, s') ∧ page.PruneStep s n k s' := by
      obtain ⟨k, s', he, hstep⟩ := heapPruneChain_step hu hs hl hf hm
      exact ⟨k, s', by rw [he]; rfl, hstep⟩
    simp only [hl]
    cases hf : lp.lpFlags
    case unused   => exact ⟨0, s, rfl, hskip (by simp [hf]) (by simp [hf])⟩
    case dead     => exact ⟨0, s, rfl, hskip (by simp [hf]) (by simp [hf])⟩
    case normal   => exact hchain (.inl hf)
    case redirect => exact hchain (.inr hf)

end TestedPage
