import PgTde.Hot.Pruned

open Relation

-- The items that come behind `n` in its chain, as far as a scan visits them.
inductive Scanned (next : Nat → Nat → Prop) (passable marked : Nat → Prop) : Nat → List Nat → Prop
  | stops {n : Nat} : ¬passable n → Scanned next passable marked n []
  | ends {n : Nat} : (∀ m, next n m → marked m) → Scanned next passable marked n []
  | goes {n m : Nat} {ms : List Nat} : passable n → next n m → ¬marked m → Scanned next passable marked m ms →
    Scanned next passable marked n (m :: ms)

-- The items that come behind one that the scan goes on from.
def ScannedBehind (next : Nat → Nat → Prop) (passable marked : Nat → Prop) (n : Nat) (ms : List Nat) : Prop :=
  ms = [] ∧ (∀ m, next n m → marked m) ∨
  ∃ m ms', ms = m :: ms' ∧ next n m ∧ ¬marked m ∧ Scanned next passable marked m ms'

theorem ScannedBehind.scanned {next : Nat → Nat → Prop} {passable marked : Nat → Prop} {n : Nat} {ms : List Nat}
    (h : ScannedBehind next passable marked n ms) (hp : passable n) : Scanned next passable marked n ms := by
  obtain ⟨rfl, h⟩ | ⟨m, ms', rfl, hn, hm, h⟩ := h
  · exact .ends h
  · exact .goes hp hn hm h

namespace TestedPage

variable {page : TestedPage} {env : PruneEnv} {s : PruneState} {n m : Nat} {lp : ItemIdData}
variable {chain : PruneChain} {ms : List Nat} {fuel : Nat} {visited : List Nat}

-- The latest dead one of some items, if there is one.
def lastDead (page : TestedPage) (latestdead : Nat) (ms : List Nat) : Nat :=
  ms.foldl (fun d m => if page.Dead m then m else d) latestdead

-- The scan appends items to the chain, and changes nothing that concerns the plan.
def Appends (page : TestedPage) (chain : PruneChain) (s : PruneState) (ms : List Nat)
    (r : Outcome (PruneChain × PruneState)) : Prop :=
  ∃ xid horizon, r = .ok (⟨chain.chainitems ++ ms, page.lastDead chain.latestdead ms⟩,
    { s with newPruneXid := xid, snapshotConflictHorizon := horizon })

theorem appends_nil : page.Appends chain s [] (.ok (chain, s)) :=
  ⟨s.newPruneXid, s.snapshotConflictHorizon, by rw [List.append_nil]; rfl⟩

-- The items behind a member, which the scan appends once it has appended the member.
theorem Appends.member {xid horizon d : Nat} {r : Outcome (PruneChain × PruneState)}
    (hd : d = page.lastDead chain.latestdead [n])
    (h : page.Appends ⟨chain.chainitems ++ [n], d⟩
      { s with newPruneXid := xid, snapshotConflictHorizon := horizon } ms r) :
    page.Appends chain s (n :: ms) r := by
  subst hd
  obtain ⟨xid, horizon, rfl⟩ := h
  refine ⟨xid, horizon, ?_⟩
  rw [List.append_assoc, List.singleton_append]
  rfl

theorem exists_recordPrunable (s : PruneState) (xid : Nat) :
    ∃ xid', s.heapPruneRecordPrunable xid = { s with newPruneXid := xid' } := by
  rw [PruneState.heapPruneRecordPrunable]
  split
  case isTrue  => exact ⟨xid, rfl⟩
  case isFalse => exact ⟨s.newPruneXid, rfl⟩

theorem lastDead_dead {d : Nat} (h : page.Dead n) : page.lastDead d [n] = n :=
  if_pos h

theorem lastDead_not_dead {d : Nat} (h : ¬page.Dead n) : page.lastDead d [n] = d :=
  if_neg h

-- A member is appended, and what comes behind it if the chain can be pruned across it.
theorem visitTuple_appends {htup : List UInt8} {next : PruneChain → PruneState → Outcome (PruneChain × PruneState)}
    {marked : Nat → Prop} (hs : s.htsv = page.htsv) (ht : (page.htsv n).isSome) (hr : ¬page.IsRedirect n)
    (hnext : ∀ chain' xid horizon, chain'.chainitems ≠ [] → ∃ ms,
      page.Appends chain' { s with newPruneXid := xid, snapshotConflictHorizon := horizon } ms
        (next chain' { s with newPruneXid := xid, snapshotConflictHorizon := horizon }) ∧
      ScannedBehind (page.Linked page.updater) page.Passable marked n ms) :
    ∃ ms, page.Appends chain s (n :: ms) (env.visitTuple n htup next chain s) ∧
      Scanned (page.Linked page.updater) page.Passable marked n ms := by
  have hne : chain.chainitems ++ [n] ≠ [] := by simp
  obtain ⟨res, hres⟩ := Option.isSome_iff_exists.mp ht
  rw [PruneEnv.visitTuple, hs, hres]
  obtain ⟨xid, hx⟩ := exists_recordPrunable s (heapTupleHeaderGetUpdateXid env.updater htup)
  have hstop (hd : res ≠ .dead) (hl : res ≠ .recentlyDead) : ¬page.Dead n ∧ ¬page.Passable n := by
    refine ⟨fun h => hd (Option.some.inj (hres.symm.trans h)), ?_⟩
    rintro (h | h | h)
    · exact hr h
    · exact hd (Option.some.inj (hres.symm.trans h))
    · exact hl (Option.some.inj (hres.symm.trans h))
  cases res
  case dead             =>
    obtain ⟨ms, ha, hb⟩ := hnext ⟨chain.chainitems ++ [n], n⟩ s.newPruneXid
      (env.heapTupleHeaderAdvanceConflictHorizon htup s.snapshotConflictHorizon) hne
    exact ⟨ms, ha.member (lastDead_dead hres).symm, hb.scanned (.inr (.inl hres))⟩
  case recentlyDead     =>
    have hd : ¬page.Dead n := fun h => by cases hres.symm.trans h
    obtain ⟨ms, ha, hb⟩ := hnext ⟨chain.chainitems ++ [n], chain.latestdead⟩ xid s.snapshotConflictHorizon hne
    simp only [hx]
    exact ⟨ms, ha.member (lastDead_not_dead hd).symm, hb.scanned (.inr (.inr hres))⟩
  case deleteInProgress =>
    obtain ⟨hd, hp⟩ := hstop (by decide) (by decide)
    simp only [hx]
    exact ⟨[], ⟨xid, s.snapshotConflictHorizon, by rw [lastDead_not_dead hd]⟩, .stops hp⟩
  case live             =>
    obtain ⟨hd, hp⟩ := hstop (by decide) (by decide)
    exact ⟨[], appends_nil.member (lastDead_not_dead hd).symm, .stops hp⟩
  case insertInProgress =>
    obtain ⟨hd, hp⟩ := hstop (by decide) (by decide)
    exact ⟨[], appends_nil.member (lastDead_not_dead hd).symm, .stops hp⟩

theorem behind_of_member {r : Outcome (PruneChain × PruneState)} {marked : Nat → Prop}
    (hlink : page.Linked page.updater n m) (hm : ¬marked m)
    (h : ∃ ms, page.Appends chain s (m :: ms) r ∧
      Scanned (page.Linked page.updater) page.Passable marked m ms) :
    ∃ ms, page.Appends chain s ms r ∧
      ScannedBehind (page.Linked page.updater) page.Passable marked n ms := by
  obtain ⟨ms, ha, hs⟩ := h
  exact ⟨m :: ms, ha, .inr ⟨m, ms, rfl, hlink, hm, hs⟩⟩

-- The scan that has come from item `n` to the one that `n` names.
theorem scanChain_behind (hu : env.updater = page.updater) (hs : s.htsv = page.htsv) (hm : page.nextOffset n = some m)
    (hv : visited.Nodup) (hi : ∀ v ∈ visited, 1 ≤ v ∧ v ≤ page.getMaxOffsetNumber)
    (hr : ∀ v ∈ visited, ReflTransGen (page.Linked page.updater) v n)
    (hf : page.getMaxOffsetNumber + 1 ≤ fuel + visited.length) (hf₀ : 0 < fuel) (hc : chain.chainitems ≠ []) :
    ∃ ms, page.Appends chain s ms
        (env.scanChain page.toPage fuel m (page.nextXmin page.updater n) chain s) ∧
      ScannedBehind (page.Linked page.updater) page.Passable (fun n => s.marked n) n ms := by
  induction fuel generalizing n m visited chain s
  case zero         => cases hf₀
  case succ fuel ih =>
    have hend (hn : ∀ k, ¬page.Linked page.updater n k ∨ s.marked k) : ∃ ms,
        page.Appends chain s ms (.ok (chain, s)) ∧
        ScannedBehind (page.Linked page.updater) page.Passable (fun n => s.marked n) n ms :=
      ⟨[], appends_nil, .inl ⟨rfl, fun k hk => (hn k).resolve_left (not_not.mpr hk)⟩⟩
    rw [PruneEnv.scanChain]
    cases hl : page.getItemId m
    case none    =>
      refine hend fun k => .inl fun hk => ?_
      obtain ⟨lp, hl', -⟩ := hk.tuple
      obtain rfl := Option.some.inj (hk.next.symm.trans hm)
      cases hl'.symm.trans hl
    case some lp =>
      have hiff := @Page.linked_iff _ page.updater _ _ _ hm hl
      simp only
      by_cases hmark : s.marked m
      case pos =>
        rw [if_pos hmark]
        refine hend fun k => ?_
        by_cases hk : page.Linked page.updater n k
        case pos => exact .inr (((hiff k).mp hk).left ▸ hmark)
        case neg => exact .inl hk
      case neg =>
        rw [if_neg hmark]
        by_cases hn : lp.isNormal
        case neg =>
          have hlast := hend fun k => .inl fun hk => hn ((hiff k).mp hk).right.left
          cases hfl : lp.lpFlags
          case normal   => exact absurd (decide_eq_true hfl) hn
          case unused   => exact hlast
          case dead     => exact hlast
          case redirect =>
            simp only
            rw [if_pos hc]
            exact hlast
        case pos =>
          have hfl : lp.lpFlags = .normal := of_decide_eq_true hn
          simp only [hfl]
          split
          case isTrue hx  =>
            exact hend fun k => .inl fun hk => ((hiff k).mp hk).right.right ⟨hx.left, hx.right.symm⟩
          case isFalse hx =>
            have hlink := (hiff m).mpr ⟨rfl, hn, fun h => hx ⟨h.left, h.right.symm⟩⟩
            have hb := Page.exists_getItemId.mp ⟨lp, hl⟩
            have hvis : m ∉ visited := fun hmem => page.acyclic m (.tail' (hr m hmem) hlink)
            have hnd := List.nodup_cons.mpr ⟨hvis, hv⟩
            have hin : ∀ v ∈ m :: visited, 1 ≤ v ∧ v ≤ page.getMaxOffsetNumber :=
              List.forall_mem_cons.mpr ⟨hb, hi⟩
            have hlen := Page.length_visited_le hnd hin
            rw [List.length_cons] at hlen
            have hnext := Page.nextOffset_normal hl hn
            have hred : ¬page.IsRedirect m := by
              rintro ⟨lp', hl', hf'⟩
              obtain rfl := Option.some.inj (hl'.symm.trans hl)
              cases hf'.symm.trans hfl
            refine behind_of_member hlink hmark
              (visitTuple_appends hs ((page.tested m lp hl).trans hn) hred fun chain' xid horizon hc' => ?_)
            split
            case isTrue hhot  =>
              rw [if_pos hhot] at hnext
              rw [hu, ←Page.nextXmin_normal hl hn]
              exact ih hs hnext hnd hin (List.forall_mem_cons.mpr ⟨.refl, fun v hv => (hr v hv).tail hlink⟩)
                (by rw [List.length_cons]; omega) (by omega) hc'
            case isFalse hhot =>
              rw [if_neg hhot] at hnext
              exact ⟨[], appends_nil, .inl ⟨rfl, fun k hk => by cases hnext.symm.trans hk.next⟩⟩

-- The scan of the chain that starts at a line pointer.
theorem scanChain_root (hu : env.updater = page.updater) (hs : s.htsv = page.htsv) (hr : page.IsRoot n)
    (hm : ¬s.marked n) :
    ∃ ms, page.Appends ⟨[], invalidOffsetNumber⟩ s (n :: ms)
        (env.scanChain page.toPage (maxHeapTuplesPerPage + 1) n invalidTransactionId ⟨[], invalidOffsetNumber⟩ s) ∧
      Scanned (page.Linked page.updater) page.Passable (fun n => s.marked n) n ms := by
  have hb := hr.bounds
  have hbehind {m : Nat} {chain : PruneChain} {s : PruneState} (hs : s.htsv = page.htsv)
      (hm : page.nextOffset n = some m) (hc : chain.chainitems ≠ []) :=
    @scanChain_behind page env s n m chain maxHeapTuplesPerPage [n] hu hs hm (List.nodup_singleton n)
      (List.forall_mem_singleton.mpr hb) (List.forall_mem_singleton.mpr .refl)
      (Nat.succ_le_succ page.few) (by decide) hc
  rw [PruneEnv.scanChain]
  obtain ⟨lp, hl, hn, ho⟩ | ⟨lp, hl, hf⟩ := hr
  · have hf : lp.lpFlags = .normal := of_decide_eq_true hn
    have hnext := Page.nextOffset_normal hl hn
    have hred : ¬page.IsRedirect n := by
      rintro ⟨lp', hl', hf'⟩
      obtain rfl := Option.some.inj (hl'.symm.trans hl)
      cases hf'.symm.trans hf
    simp only [hl, hm, hf, Bool.false_eq_true, if_false, ne_eq, not_true_eq_false, false_and]
    refine visitTuple_appends hs ((page.tested n lp hl).trans hn) hred fun chain' xid horizon hc' => ?_
    split
    case isTrue hhot  =>
      rw [if_pos hhot] at hnext
      rw [hu, ←Page.nextXmin_normal hl hn]
      exact hbehind hs hnext hc'
    case isFalse hhot =>
      rw [if_neg hhot] at hnext
      exact ⟨[], appends_nil, .inl ⟨rfl, fun k hk => by cases hnext.symm.trans hk.next⟩⟩
  · have hd : ¬page.Dead n := by
      intro hd
      have ht := page.tested n lp hl
      rw [hd, ItemIdData.isNormal, hf] at ht
      cases ht
    obtain ⟨ms, ha, hb⟩ := hbehind hs (Page.nextOffset_redirect hl hf)
      (by simp : (⟨[n], invalidOffsetNumber⟩ : PruneChain).chainitems ≠ [])
    rw [Page.nextXmin_redirect hl hf] at ha
    refine ⟨ms, ?_, hb.scanned (.inl ⟨lp, hl, hf⟩)⟩
    simp only [hl, hm, hf, Bool.false_eq_true, if_false, ne_eq, not_true_eq_false]
    exact (Appends.member (lastDead_not_dead hd).symm ha : page.Appends ⟨[], invalidOffsetNumber⟩ s (n :: ms) _)

-- The scanned items are those of the chain up to one where it cannot be pruned across, or that is followed by a
-- marked item only.
theorem Scanned.isChain {next : Nat → Nat → Prop} {passable marked : Nat → Prop}
    (h : Scanned next passable marked n ms) : (n :: ms).IsChain fun n m => next n m ∧ passable n ∧ ¬marked m := by
  induction h
  case stops           => exact .singleton _
  case ends            => exact .singleton _
  case goes hp hn hm _ ih => exact .cons_cons ⟨hn, hp, hm⟩ ih

end TestedPage
