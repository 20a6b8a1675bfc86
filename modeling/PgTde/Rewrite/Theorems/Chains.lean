import PgTde.Rewrite.Theorems.Prepared

namespace TableRewrite

variable {r : TableRewrite} {t u : LiveTuple} {k : TidHashKey}

theorem not_frozen {x : Nat} (h : ¬transactionIdPrecedes x r.oldestXmin) : x ≠ frozenTransactionId := by
  have hn := r.normal
  rintro rfl
  apply h
  rw [transactionIdPrecedes, if_pos (.inl (by decide)), decide_eq_true_iff]
  exact hn

-- The hash key of a tuple that may be the new version of another one.
def key (r : TableRewrite) (t : LiveTuple) : Option TidHashKey :=
  let tup := t.prepared r.routines
  if tInfomask tup &&& heapUpdated ≠ 0 ∧ ¬transactionIdPrecedes (heapTupleHeaderGetXmin tup) r.oldestXmin
  then some ⟨heapTupleHeaderGetXmin tup, t.oldTuple.tSelf⟩
  else none

theorem hashkey_of_key (h : r.key t = some k) : t.oldTuple.hashkey = k := by
  obtain ⟨-, hm⟩ := LiveTuple.prepared_spec (t := t) r.freezes
  rw [key] at h
  split at h
  case isFalse   => cases h
  case isTrue hc =>
    have hf := not_frozen hc.right
    have hx := hm.getXmin fun hf' => hf (heapTupleHeaderGetXmin_of_frozen hf')
    rw [Option.some.injEq] at h
    rw [←h, OldTuple.hashkey, hx]

-- The new version of a tuple has been marked, and its xmin has not been frozen.
theorem key_of_successor (ht : .tuple t ∈ r.calls) (hu : .tuple u ∈ r.calls) (h : r.Successor t u) :
    r.key u = some u.oldTuple.hashkey := by
  have hrec := r.recent t ht _ h
  obtain ⟨-, hm⟩ := LiveTuple.prepared_spec (t := u) r.freezes
  have hx : heapTupleHeaderGetXmin (u.prepared r.routines) = heapTupleHeaderGetXmin u.oldTuple.tData.bytes := by
    obtain hf | hf := hm.frozen
    · exact heapTupleHeaderGetXmin_congr hf hm.xmin
    · exact absurd (r.cutoffs u hu hf.right) hrec
  have hup := r.updated t u ht hu h
  rw [←hm.updated] at hup
  rw [key, hx, if_pos ⟨hup, hrec⟩]
  rfl

theorem eq_of_hashkey (ht : .tuple t ∈ r.calls) (hu : .tuple u ∈ r.calls)
    (h : t.oldTuple.hashkey = u.oldTuple.hashkey) : t = u := by
  have he := List.inj_on_of_nodup_map r.hashkeys ht hu h
  cases he
  rfl

-- The update chains of the presented tuples.
def chains (r : TableRewrite) : Chains LiveTuple TidHashKey where
  items      := {t | RewriteCall.tuple t ∈ r.calls}
  key        := r.key
  target     := fun t => t.target r.routines
  key_inj    := fun _ ht _ hu _ hkt hku => eq_of_hashkey ht hu ((hashkey_of_key hkt).trans (hashkey_of_key hku).symm)
  target_inj := fun t ht u hu => r.targets t u ht hu

theorem mem_items : t ∈ r.chains.items ↔ .tuple t ∈ r.calls :=
  Iff.rfl

theorem Complete.mem (h : r.Complete t) : .tuple t ∈ r.calls := by
  cases h <;> assumption

theorem complete_iff : r.Complete t ↔ r.chains.Resolved t := by
  constructor
  case mp  =>
    intro h
    induction h
    case last ht hn         => exact .last ht hn
    case next ht hs hu hi   => exact .next ht hs (key_of_successor ht hu.mem hs) hi
  case mpr =>
    intro h
    induction h
    case last ht hn         => exact .last ht hn
    case next ht hk hu _ hi =>
      refine .next ht ?_ hi
      rw [Successor, hashkey_of_key hu]
      exact hk

end TableRewrite

-- Hash tables as lists.
section HashTable

variable {α κ : Type} [DecidableEq κ] {f : α → κ} {l : List α} {k k' : κ}

theorem find?_filter_self : (l.filter (f · ≠ k)).find? (f · = k) = none := by
  rw [List.find?_eq_none]
  intro a ha
  have hne := (List.mem_filter.mp ha).right
  simpa using hne

theorem find?_filter_ne (h : k' ≠ k) : (l.filter (f · ≠ k)).find? (f · = k') = l.find? (f · = k') := by
  rw [List.find?_filter]
  congr 1
  funext a
  by_cases ha : f a = k'
  case pos => simp [ha, h]
  case neg => simp [ha]

end HashTable

-- What `rs_old_new_tid_map` tells.
def ChainState.noted (s : ChainState) (k : TidHashKey) : Option ItemPointer :=
  (s.rsOldNewTidMap.find? (·.key = k)).map (·.newTid)

namespace TableRewrite

variable {P : Platform} {r : TableRewrite} {s : ChainState} {t u : LiveTuple} {e : NewTuple}
variable {current waiting : List LiveTuple} {written : List NewTuple} {seen : Set LiveTuple} {k : TidHashKey}

-- The entry of `rs_unresolved_tups` for a tuple that has been updated.
def unresolved (r : TableRewrite) (t : LiveTuple) : UnresolvedTupData where
  key    := (t.target r.routines).getD t.oldTuple.hashkey
  oldTid := t.oldTuple.tSelf
  tuple  := t.prepared r.routines

-- The bytes of a tuple in the new heap.
def placed (r : TableRewrite) (e : NewTuple) : PlacedTuple where
  loc   := e.loc
  bytes :=
    let tup := e.item.linked r.routines e.next
    match r.routines.heaptup tup with
    | .ok item => RewriteState.stored tup item e.loc
    | .error _ => []

-- The invariant: the hash tables and the new heap hold what the pass over the chains has come to.
structure Inv (P : Platform) (r : TableRewrite) (s : ChainState) (current : List LiveTuple)
    (written : List NewTuple) (waiting : List LiveTuple) (seen : Set LiveTuple) : Prop where
  pass       : r.chains.Pass current written waiting s.noted seen
  oldest     : s.rsOldestXmin = r.oldestXmin
  unresolved : s.rsUnresolvedTups = waiting.map r.unresolved
  carries    : s.toRewriteState.Carries (P.keystream r.newHeap.key) r.newHeap (written.map r.placed)
  offsets    : ∀ e ∈ written, IsOffset e.loc.offnum

theorem begin_inv : r.Inv P (.begin r.newHeap r.oldestXmin) [] [] [] ∅ where
  pass       := Chains.Pass.start
  oldest     := rfl
  unresolved := rfl
  carries    := RewriteState.begin_carries
  offsets    := by simp

-- A tuple is inserted.
theorem insert_placed {state : RewriteState} (ht : .tuple t ∈ r.calls) (next : Option ItemPointer)
    (h : state.Carries (P.keystream r.newHeap.key) r.newHeap (written.map r.placed)) :
    ∃ st off, P.rawPgTdeInsert r.routines.toRewriteRoutines state (t.linked r.routines next) = .ok (st, off) ∧
      IsOffset off ∧ st.Carries (P.keystream r.newHeap.key) r.newHeap
        ((⟨t, ⟨st.rsBlockno, off⟩, next⟩ :: written : List NewTuple).map r.placed) := by
  obtain ⟨item, hi, hf⟩ := r.fits t ht next
  obtain ⟨st, off, hins, ho, hc⟩ := RewriteState.rawPgTdeInsert_carries h r.adds r.relkind hi hf
  refine ⟨st, off, hins, ho, ?_⟩
  rw [List.map_cons]
  simp only [placed, hi]
  exact hc

-- The condition that the code has for a tuple that may be a new version.
theorem key_eq (next : Option ItemPointer) (oldest : Nat) (ho : oldest = r.oldestXmin) :
    r.key t =
    if tInfomask (t.linked r.routines next) &&& heapUpdated ≠ 0 ∧
      ¬transactionIdPrecedes (heapTupleHeaderGetXmin (t.linked r.routines next)) oldest
    then some ⟨heapTupleHeaderGetXmin (t.linked r.routines next), t.oldTuple.tSelf⟩
    else none := by
  rw [LiveTuple.tInfomask_linked r.freezes, LiveTuple.getXmin_linked r.freezes, ho]
  rfl

namespace Inv

theorem mem_calls (i : r.Inv P s current written waiting seen) (h : t ∈ seen) : .tuple t ∈ r.calls :=
  i.pass.items h

theorem target_of_waiting (i : r.Inv P s current written waiting seen) (h : t ∈ waiting) :
    t.target r.routines = some (r.unresolved t).key := by
  obtain ⟨k, hk, -⟩ := i.pass.waits t h
  have hk' : t.target r.routines = some k := hk
  rw [hk', TableRewrite.unresolved, hk', Option.getD_some]

-- The entry for a key is that of the tuple that waits for it.
theorem find_unresolved (i : r.Inv P s current written waiting seen) {entry : UnresolvedTupData}
    (h : s.rsUnresolvedTups.find? (·.key = k) = some entry) :
    ∃ u ∈ waiting, entry = r.unresolved u ∧ u.target r.routines = some k := by
  have hk := List.find?_some h
  have hm := List.mem_of_find?_eq_some h
  rw [i.unresolved] at hm
  obtain ⟨u, hu, rfl⟩ := List.mem_map.mp hm
  exact ⟨u, hu, rfl, (i.target_of_waiting hu).trans (congrArg some (of_decide_eq_true hk))⟩

theorem find_unresolved_none (i : r.Inv P s current written waiting seen)
    (h : s.rsUnresolvedTups.find? (·.key = k) = none) : ∀ u ∈ waiting, u.target r.routines ≠ some k := by
  intro u hu ht
  rw [i.unresolved] at h
  have hn := List.find?_eq_none.mp h _ (List.mem_map_of_mem hu)
  rw [i.target_of_waiting hu, Option.some.injEq] at ht
  exact hn (decide_eq_true ht)

-- The entries for other keys.
theorem filter_unresolved (i : r.Inv P s current written waiting seen) :
    s.rsUnresolvedTups.filter (·.key ≠ k) =
    (waiting.filter fun u => r.chains.target u ≠ some k).map r.unresolved := by
  rw [i.unresolved, List.filter_map]
  congr 1
  apply List.filter_congr
  intro u hu
  have ht : r.chains.target u = some (r.unresolved u).key := i.target_of_waiting hu
  simp only [Function.comp_apply, ht, ne_eq, Option.some.injEq]

theorem length_filter_waiting (hu : u ∈ waiting) (ht : u.target r.routines = some k) :
    (waiting.filter fun w => r.chains.target w ≠ some k).length < waiting.length := by
  rw [List.length_filter_lt_length_iff_exists]
  refine ⟨u, hu, ?_⟩
  rw [decide_eq_true_iff, not_not]
  exact ht

-- A location is noted under a key.
theorem noted_cons {entry : OldToNewMappingData} {k' : TidHashKey} :
    ({ s with rsOldNewTidMap := entry :: s.rsOldNewTidMap.filter (·.key ≠ entry.key) } : ChainState).noted k' =
    if entry.key = k' then some entry.newTid else s.noted k' := by
  simp only [ChainState.noted, List.find?_cons]
  by_cases h : entry.key = k'
  case pos => simp [h]
  case neg =>
    rw [decide_eq_false h, if_neg h, find?_filter_ne (Ne.symm h)]

theorem noted_filter {k' : TidHashKey} (h : k' ≠ k) :
    ({ s with rsOldNewTidMap := s.rsOldNewTidMap.filter (·.key ≠ k) } : ChainState).noted k' = s.noted k' := by
  simp only [ChainState.noted]
  rw [find?_filter_ne h]

theorem noted_filter_self :
    ({ s with rsOldNewTidMap := s.rsOldNewTidMap.filter (·.key ≠ k) } : ChainState).noted k = none := by
  simp only [ChainState.noted]
  rw [find?_filter_self, Option.map_none]

-- The tuple is written, and then those that have been waiting for it.
theorem writeChain {fuel : Nat} {next : Option ItemPointer} (i : r.Inv P s [t] written waiting seen)
    (hl : r.chains.Linked written t next) (hf : waiting.length < fuel) :
    ∃ s' written' waiting', s.writeChain P r.routines fuel t.oldTuple.tSelf (t.linked r.routines next) = .ok s' ∧
      r.Inv P s' [] written' waiting' seen := by
  induction fuel generalizing s t written waiting next
  case zero => omega
  case succ fuel hi =>
    have ht := i.mem_calls i.pass.current_mem
    obtain ⟨st, off, hins, ho, hc⟩ := insert_placed ht next i.carries
    have hoff : ∀ e ∈ (⟨t, ⟨st.rsBlockno, off⟩, next⟩ :: written : List NewTuple), IsOffset e.loc.offnum :=
      List.forall_mem_cons.mpr ⟨ho, i.offsets⟩
    have hk := key_eq (t := t) next s.rsOldestXmin i.oldest
    rw [ChainState.writeChain, hins, Outcome.ok_bind]
    split at hk
    case isFalse hn =>
      simp only [if_neg hn]
      refine ⟨_, _, waiting, rfl, ?_, i.oldest, i.unresolved, hc, hoff⟩
      refine i.pass.note hl (fun k hk' => ?_) fun _ _ => rfl
      cases hk.symm.trans hk'
    case isTrue hy =>
      simp only [if_pos hy]
      split
      case h_1 entry hfind =>
        obtain ⟨u, hu, rfl, hut⟩ := i.find_unresolved hfind
        obtain ⟨hp, hl'⟩ := i.pass.resolve hl hk hu hut
        have hlt := length_filter_waiting hu hut
        have i' : r.Inv P { s with
            toRewriteState   := st
            rsUnresolvedTups := s.rsUnresolvedTups.filter (·.key ≠ _) } _ _ _ seen :=
          ⟨hp, i.oldest, i.filter_unresolved, hc, hoff⟩
        exact hi i' hl' (Nat.lt_of_lt_of_le hlt (Nat.le_of_lt_succ hf))
      case h_2 hfind =>
        refine ⟨_, _, waiting, rfl, ?_, i.oldest, i.unresolved, hc, hoff⟩
        refine i.pass.note hl (fun k hk' => ?_) fun k hk' => ?_
        · cases hk.symm.trans hk'
          exact ⟨i.find_unresolved_none hfind, noted_cons.trans (if_pos rfl)⟩
        · exact noted_cons.trans (if_neg fun h => hk' (hk.trans (congrArg some h)))

theorem length_unresolved (i : r.Inv P s current written waiting seen) :
    waiting.length < s.rsUnresolvedTups.length + 1 := by
  rw [i.unresolved, List.length_map]
  exact Nat.lt_succ_self _

theorem rewritePgTdeTuple (i : r.Inv P s [] written waiting seen) (ht : .tuple t ∈ r.calls) (hn : t ∉ seen) :
    ∃ s' written' waiting', s.rewritePgTdeTuple P r.routines t = .ok s' ∧
      r.Inv P s' [] written' waiting' (insert t seen) := by
  rw [ChainState.rewritePgTdeTuple]
  split
  case h_1 htg =>
    have hp := i.pass.enter ht hn (fun _ _ h => h) fun _ _ => rfl
    have i' : r.Inv P s [t] written waiting (insert t seen) := ⟨hp, i.oldest, i.unresolved, i.carries, i.offsets⟩
    exact i'.writeChain (.last htg) i.length_unresolved
  case h_2 hashkey htg =>
    simp only
    split
    case h_1 mapping hm =>
      have hnoted : s.noted hashkey = some mapping.newTid := by rw [ChainState.noted, hm, Option.map_some]
      obtain ⟨e, he, hek, hloc⟩ := i.pass.found hashkey _ hnoted
      have hp : r.chains.Pass [t] written waiting ({ s with
          rsOldNewTidMap := s.rsOldNewTidMap.filter (·.key ≠ hashkey) } : ChainState).noted (insert t seen) := by
        refine i.pass.enter ht hn (fun k l hl => ?_) fun k hk => ?_
        · by_cases h : k = hashkey
          case pos => cases noted_filter_self.symm.trans (h ▸ hl)
          case neg => exact (noted_filter h).symm.trans hl
        · exact noted_filter fun h => hk (htg.trans (congrArg some h.symm))
      have i' := Inv.mk hp i.oldest i.unresolved i.carries i.offsets
      rw [←hloc]
      exact i'.writeChain (.next he htg hek) i.length_unresolved
    case h_2 hm =>
      have hnone : s.noted hashkey = none := by rw [ChainState.noted, hm, Option.map_none]
      have hkeep : s.rsUnresolvedTups.filter (·.key ≠ hashkey) = s.rsUnresolvedTups := by
        rw [i.filter_unresolved, i.unresolved, List.filter_eq_self.mpr]
        intro u hu
        rw [decide_eq_true_iff]
        intro hut
        have hus := (i.pass.mem u).mpr (.inr (.inr hu))
        exact hn (r.targets u t (i.mem_calls hus) ht hashkey hut htg ▸ hus)
      have hun : r.unresolved t = ⟨hashkey, t.oldTuple.tSelf, t.prepared r.routines⟩ := by
        rw [TableRewrite.unresolved, htg, Option.getD_some]
      refine ⟨_, written, t :: waiting, rfl, i.pass.stash ht hn htg hnone, i.oldest, ?_, i.carries, i.offsets⟩
      rw [hkeep, List.map_cons, hun, i.unresolved]

theorem rewritePgTdeDeadTuple {old : OldTuple} (i : r.Inv P s [] written waiting seen)
    (hd : .dead old ∈ r.calls) :
    r.Inv P (s.rewritePgTdeDeadTuple old).1 [] written
      (waiting.filter fun w => r.chains.target w ≠ some old.hashkey)
      {t ∈ seen | r.chains.target t ≠ some old.hashkey} := by
  have hs : (s.rewritePgTdeDeadTuple old).1 =
      { s with rsUnresolvedTups := s.rsUnresolvedTups.filter (·.key ≠ old.hashkey) } := by
    rw [ChainState.rewritePgTdeDeadTuple]
    split
    case h_1       => rfl
    case h_2 hfind =>
      rw [List.filter_eq_self.mpr]
      intro entry he
      have hne := List.find?_eq_none.mp hfind entry he
      simpa using hne
  have hk : ∀ t ∈ r.chains.items, r.chains.key t ≠ some old.hashkey := by
    intro t ht hkt
    cases List.inj_on_of_nodup_map r.hashkeys ht hd (hashkey_of_key hkt)
  rw [hs]
  exact ⟨i.pass.cancel hk, i.oldest, i.filter_unresolved, i.carries, i.offsets⟩

end Inv

theorem mem_foldl_keep {done : List RewriteCall} {kept : List LiveTuple} (h : t ∈ done.foldl r.keep kept) :
    t ∈ kept ∨ .tuple t ∈ done := by
  induction done generalizing kept
  case nil               => exact .inl h
  case cons call done hi =>
    obtain h | h := hi h
    case inr => exact .inr (List.mem_cons_of_mem _ h)
    case inl =>
      cases call
      case tuple u =>
        obtain h | h := List.mem_append.mp h
        · exact .inl h
        · exact .inr (List.mem_singleton.mp h ▸ List.mem_cons_self)
      case dead old => exact .inl (List.mem_of_mem_filter h)

-- A tuple is presented only once.
theorem not_mem_foldl_keep {done rest : List RewriteCall} (hc : done ++ .tuple t :: rest = r.calls) :
    t ∉ done.foldl r.keep [] := by
  intro h
  have hn := r.hashkeys
  rw [←hc, List.map_append, List.nodup_append] at hn
  obtain h | h := mem_foldl_keep h
  · cases h
  · exact hn.right.right _ (List.mem_map_of_mem h) _ List.mem_cons_self rfl

-- A call for each of the tuples.
theorem Inv.calls {rest done : List RewriteCall} (hc : done ++ rest = r.calls)
    (hn : (done.foldl r.keep []).Nodup) (i : r.Inv P s [] written waiting {t | t ∈ done.foldl r.keep []}) :
    ∃ s' written' waiting', rest.foldlM (ChainState.call P r.routines) s = .ok s' ∧
      r.Inv P s' [] written' waiting' {t | t ∈ r.kept} ∧ r.kept.Nodup := by
  induction rest generalizing done s written waiting
  case nil =>
    rw [List.append_nil] at hc
    rw [hc] at hn i
    exact ⟨s, written, waiting, rfl, i, hn⟩
  case cons call rest hi =>
    have hcall : call ∈ r.calls := hc ▸ List.mem_append_right _ List.mem_cons_self
    have hnext : (done ++ [call]) ++ rest = r.calls := by rw [List.append_assoc, List.singleton_append, hc]
    have hk : (done ++ [call]).foldl r.keep [] = r.keep (done.foldl r.keep []) call := by
      rw [List.foldl_append]
      rfl
    rw [List.foldlM_cons]
    cases call
    case tuple t =>
      have hfresh := not_mem_foldl_keep hc
      obtain ⟨s', written', waiting', he, i'⟩ := i.rewritePgTdeTuple hcall hfresh
      have hset : {u | u ∈ (done ++ [RewriteCall.tuple t]).foldl r.keep []} = insert t {u | u ∈ done.foldl r.keep []} := by
        rw [hk]
        ext u
        simp [keep, or_comm]
      rw [ChainState.call, he, Outcome.ok_bind]
      refine hi hnext ?_ (hset ▸ i')
      rw [hk, keep, List.nodup_append]
      refine ⟨hn, List.nodup_singleton t, fun u hu v hv => ?_⟩
      rw [List.mem_singleton.mp hv]
      exact fun h => hfresh (h ▸ hu)
    case dead old =>
      have hset : {u | u ∈ (done ++ [RewriteCall.dead old]).foldl r.keep []} =
          {u ∈ {u | u ∈ done.foldl r.keep []} | r.chains.target u ≠ some old.hashkey} := by
        rw [hk]
        ext u
        simp [keep, chains]
      rw [ChainState.call, Outcome.ok_bind]
      refine hi hnext ?_ (hset ▸ i.rewritePgTdeDeadTuple hcall)
      rw [hk]
      exact hn.filter _

end TableRewrite
