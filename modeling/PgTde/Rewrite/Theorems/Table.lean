import PgTde.Rewrite.Theorems.Chains

namespace Page.Carried

open Platform

variable {P : Platform} {key : Block} {bn a : Nat} {page : Page} {e : PlacedTuple}

theorem read_eq (h : page.Carried (P.keystream key) bn e a) {i n : Nat} (hn : i + n ≤ e.bytes.length) :
    page.mem.read (a + i) n = ((encryptedItem (P.keystream key) bn a e.bytes).drop i).take n := by
  have hl : e.bytes.length = i + (n + (e.bytes.length - (i + n))) := by omega
  rw [←h.read, Memory.drop_read, hl, Nat.add_sub_cancel_left, Memory.read_add, List.take_left' Memory.length_read]

-- The header is not encrypted.
theorem read_header (h : page.Carried (P.keystream key) bn e a) {i n : Nat} (hn : i + n ≤ itemHoff e.bytes) :
    page.mem.read (a + i) n = (e.bytes.drop i).take n := by
  have hh := h.fits.hoff_le
  rw [h.read_eq (by omega), encryptedItem, List.drop_append_of_le_length (by rw [List.length_take]; omega),
    List.take_append_of_le_length (by rw [List.length_drop, List.length_take]; omega), List.drop_take, List.take_take,
    Nat.min_eq_left (by omega)]

theorem tHoff_eq (h : page.Carried (P.keystream key) bn e a) : tHoff page.mem a = itemHoff e.bytes := by
  have hh := h.fits.header
  simp only [sizeofHeapTupleHeaderData] at hh
  have hr := congrArg (·[0]?) (h.read_header (i := 22) (n := 1) (by omega))
  simp only [Memory.getElem?_read Nat.one_pos, List.getElem?_take_of_lt Nat.one_pos, List.getElem?_drop] at hr
  rw [tHoff, itemHoff, ←hr]
  rfl

theorem decrypts (h : page.Carried (P.keystream key) bn e a) :
    P.pgTdeCryptTuple bn page.mem a e.bytes.length key = .ok (userData e.bytes) := by
  have hh := h.fits.hoff_le
  have hs := h.le_size
  have ht := h.tHoff_eq
  have hr := h.read_eq (i := itemHoff e.bytes) (n := e.bytes.length - itemHoff e.bytes) (by omega)
  rw [drop_encryptedItem hh, List.take_of_length_le (by rw [Keystream.length_xor, List.length_drop])] at hr
  rw [pgTdeCryptTuple_eq (by omega) (by omega) (ht ▸ hh), ht, hr, Keystream.xor_xor, userData]

end Page.Carried

theorem ctidIsValid_storeCtid {tup : List UInt8} {bn off : Nat} (hl : 12 ≤ tup.length) :
    ctidIsValid (storeCtid (itemPointer bn off) tup) ↔ off % 2 ^ 16 ≠ 0 := by
  have ht : (tup.take 12).length = 12 := by
    rw [List.length_take]
    omega
  have h₄ : (storeCtid (itemPointer bn off) tup)[16]? = some (.ofNat off) := by
    rw [storeCtid, List.append_assoc, List.getElem?_append_right (by omega), ht]
    rfl
  have h₅ : (storeCtid (itemPointer bn off) tup)[17]? = some (.ofNat (off / 256)) := by
    rw [storeCtid, List.append_assoc, List.getElem?_append_right (by omega), ht]
    rfl
  rw [ctidIsValid, h₄, h₅, Option.getD_some, Option.getD_some, decide_eq_true_iff, Ne, Ne, ←UInt8.toNat_inj,
    ←UInt8.toNat_inj, UInt8.toNat_ofNat', UInt8.toNat_ofNat']
  change _ ≠ 0 ∨ _ ≠ 0 ↔ _
  omega

namespace TableRewrite

variable {P : Platform} {r : TableRewrite} {s : ChainState} {t u : LiveTuple} {e : NewTuple}
variable {written : List NewTuple} {waiting : List LiveTuple} {item : List UInt8}

theorem heaptup_keeps {routines : RewriteRoutines} {tup : List UInt8} (hk : routines.KeepsCtid)
    (h : routines.heaptup tup = .ok item) : (item.drop 12).take 6 = (tup.drop 12).take 6 := by
  rw [RewriteRoutines.heaptup] at h
  split at h
  case isTrue  => exact hk _ _ h
  case isFalse => exact Except.ok.inj h ▸ rfl

theorem plaintext_eq (h : r.routines.heaptup (e.item.linked r.routines e.next) = .ok item) :
    r.plaintext e = .ok (userData item) := by
  rw [RewriteRoutines.heaptup] at h
  rw [plaintext]
  split at h
  case isTrue hx  => rw [if_pos hx, h, Except.map]
  case isFalse hx =>
    have hh := e.item.newTuple.header
    simp only [sizeofHeapTupleHeaderData] at hh
    rw [if_neg hx, ←Except.ok.inj h, (LiveTuple.linked_reheaded r.freezes).userData_eq (by omega)]

theorem exists_prepared : ∃ tup, 12 ≤ tup.length ∧ t.prepared r.routines = storeCtid invalidItemPointer tup := by
  have hl := LiveTuple.length_prepared (t := t) r.freezes
  obtain ⟨tup, htup⟩ : ∃ tup, t.prepared r.routines = storeCtid invalidItemPointer tup := ⟨_, rfl⟩
  have hc : invalidItemPointer.length = 6 := rfl
  refine ⟨tup, ?_, htup⟩
  rw [htup, storeCtid, List.length_append, List.length_append, List.length_take, List.length_drop, hc] at hl
  omega

-- A tuple with an invalid address, or with that of another tuple.
theorem linked_eq_storeCtid (next : Option ItemPointer) : ∃ tup bn off, 12 ≤ tup.length ∧
    t.linked r.routines next = storeCtid (itemPointer bn off) tup ∧
    (next = none ∧ off = invalidOffsetNumber ∨ next = some ⟨bn, off⟩) := by
  cases next
  case none     =>
    obtain ⟨tup, hl, htup⟩ := exists_prepared (r := r) (t := t)
    exact ⟨tup, _, _, hl, htup, .inl ⟨rfl, rfl⟩⟩
  case some tid =>
    have hl := LiveTuple.length_prepared (t := t) r.freezes
    exact ⟨_, tid.blkno, tid.offnum, by omega, rfl, .inr rfl⟩

theorem storeCtid_prepared :
    storeCtid invalidItemPointer (t.prepared r.routines) = t.linked r.routines none := by
  obtain ⟨tup, hl, htup⟩ := exists_prepared (r := r) (t := t)
  rw [LiveTuple.linked, htup, storeCtid_storeCtid rfl hl]

-- What is stored of a tuple.
theorem placed_spec (he : .tuple e.item ∈ r.calls) (ho : ∀ tid, e.next = some tid → IsOffset tid.offnum) :
    ((r.placed e).bytes.drop 12).take 6 =
      itemPointer (e.next.getD e.loc).blkno (e.next.getD e.loc).offnum ∧
    r.plaintext e = .ok (userData (r.placed e).bytes) := by
  obtain ⟨item, hi, hf⟩ := r.fits e.item he e.next
  have hh := hf.header
  have hl := hf.hoff_le
  simp only [sizeofHeapTupleHeaderData] at hh
  obtain ⟨tup, bn, off, htl, htup, hnext⟩ := linked_eq_storeCtid (r := r) (t := e.item) e.next
  have hb : (r.placed e).bytes = RewriteState.stored (e.item.linked r.routines e.next) item e.loc := by
    simp only [placed, hi]
  rw [hb, plaintext_eq hi, RewriteState.stored]
  obtain ⟨hn, rfl⟩ | hn := hnext
  · have hv : ¬ctidIsValid (e.item.linked r.routines e.next) := by
      rw [htup, ctidIsValid_storeCtid htl]
      decide
    rw [if_neg hv, hn, Option.getD_none]
    exact ⟨ctid_storeCtid rfl (by omega),
      congrArg Except.ok ((reheaded_storeCtid rfl (by omega)).userData_eq (by omega)).symm⟩
  · have hv : ctidIsValid (e.item.linked r.routines e.next) := by
      have hoff := ho _ hn
      have hp := hoff.pos
      have hlt := hoff.lt
      rw [htup, ctidIsValid_storeCtid htl, Nat.mod_eq_of_lt hlt]
      exact hp
    rw [if_pos hv, heaptup_keeps r.keepsCtid hi, htup, ctid_storeCtid rfl htl, hn, Option.getD_some]
    exact ⟨rfl, rfl⟩

-- The new heap holds the tuples.
theorem holds_of_carries {rel : HeapRelation}
    (h : rel.Carries (P.keystream r.newHeap.key) r.newHeap (written.map r.placed)) (he : e ∈ written)
    (hc : .tuple e.item ∈ r.calls) (ho : ∀ tid, e.next = some tid → IsOffset tid.offnum) : r.Holds P rel e := by
  have hm := List.mem_map_of_mem (f := r.placed) he
  have hlt := h.within _ hm
  obtain ⟨hctid, hp⟩ := placed_spec hc ho
  have hb := List.getElem?_eq_getElem hlt
  obtain ⟨a, hca⟩ := (h.blocks _ _ (h.behind _ hm) hb).items _ hm rfl
  have hh := hca.fits.header
  simp only [sizeofHeapTupleHeaderData] at hh
  refine ⟨_, _, _, hb, hca.line, rfl, ?_, hp, ?_⟩
  · rw [hca.read_header (by omega), hctid]
  · rw [h.key]
    exact hca.decrypts

theorem exists_order {tups : List UnresolvedTupData} (h : tups.Perm (waiting.map r.unresolved)) :
    ∃ ts : List LiveTuple, ts.Perm waiting ∧ tups = ts.map r.unresolved := by
  have hf : List.Forall₂ (fun tup t => tup = r.unresolved t) (waiting.map r.unresolved) waiting :=
    List.forall₂_map_left_iff.mpr (List.forall₂_same.mpr fun _ _ => rfl)
  obtain ⟨ts, hts, hp⟩ := List.perm_comp_forall₂ h hf
  refine ⟨ts, hp, ?_⟩
  rw [←List.forall₂_eq_eq_eq]
  exact List.forall₂_map_right_iff.mpr hts

-- The tuples that are left over point to themselves.
structure LeftOver (P : Platform) (r : TableRewrite) (ts : List LiveTuple) (written left : List NewTuple)
    (st : RewriteState) : Prop where
  items   : (left.map (·.item)).Perm ts
  next    : ∀ e ∈ left, e.next = none
  carries : st.Carries (P.keystream r.newHeap.key) r.newHeap ((left ++ written).map r.placed)

theorem foldlM_unresolved {ts : List LiveTuple} {state : RewriteState} (ht : ∀ t ∈ ts, .tuple t ∈ r.calls)
    (h : state.Carries (P.keystream r.newHeap.key) r.newHeap (written.map r.placed)) :
    ∃ st left, (ts.map r.unresolved).foldlM (fun state unresolved => do
        let (state, _) ← P.rawPgTdeInsert r.routines.toRewriteRoutines state
          (storeCtid invalidItemPointer unresolved.tuple)
        return state) state = .ok st ∧
      LeftOver P r ts written left st := by
  induction ts generalizing state written
  case nil             => exact ⟨state, [], rfl, .nil, by simp, h⟩
  case cons t ts hi    =>
    obtain ⟨htc, hts⟩ := List.forall_mem_cons.mp ht
    obtain ⟨st, off, hins, -, hc⟩ := insert_placed htc none h
    obtain ⟨st', left, hf, hl⟩ := hi hts hc
    refine ⟨st', left ++ [⟨t, ⟨st.rsBlockno, off⟩, none⟩], ?_, ?_, ?_, ?_⟩
    · rw [List.map_cons, List.foldlM_cons, unresolved, storeCtid_prepared, hins]
      exact hf
    · rw [List.map_append, List.map_singleton]
      exact (List.perm_append_singleton _ _).trans (hl.items.cons t)
    · intro e he
      obtain he | he := List.mem_append.mp he
      · exact hl.next e he
      · rw [List.mem_singleton.mp he]
    · rw [List.append_assoc, List.singleton_append]
      exact hl.carries

-- What a rewrite comes to: `written` are the tuples that it has written before its end, and `left` those that
-- have been left over.
structure Result (P : Platform) (r : TableRewrite) (rel : HeapRelation) (written left : List NewTuple)
    (waiting : List LiveTuple) (noted : TidHashKey → Option ItemPointer) : Prop where
  pass    : r.chains.Pass [] written waiting noted {t | t ∈ r.kept}
  nodup   : r.kept.Nodup
  offsets : ∀ e ∈ written, IsOffset e.loc.offnum
  items   : (left.map (·.item)).Perm waiting
  next    : ∀ e ∈ left, e.next = none
  carries : rel.Carries (P.keystream r.newHeap.key) r.newHeap ((left ++ written).map r.placed)

theorem rewriteHeap_result (r : TableRewrite) (P : Platform) : ∃ rel written left waiting noted,
    rewriteHeap P r.routines r.newHeap r.oldestXmin r.calls = .ok rel ∧
      r.Result P rel written left waiting noted := by
  have hb : r.Inv P (.begin r.newHeap r.oldestXmin) [] [] [] {t | t ∈ ([] : List RewriteCall).foldl r.keep []} := by
    have he : {t | t ∈ ([] : List RewriteCall).foldl r.keep []} = (∅ : Set LiveTuple) := by simp
    exact he ▸ begin_inv
  obtain ⟨s, written, waiting, hc, i, hn⟩ := hb.calls (List.nil_append r.calls) List.nodup_nil
  obtain ⟨ts, hp, hts⟩ := exists_order (i.unresolved ▸ r.routines.hashSeq_perm s.rsUnresolvedTups)
  have htc : ∀ t ∈ ts, .tuple t ∈ r.calls := fun t ht =>
    i.mem_calls ((i.pass.mem t).mpr (.inr (.inr (hp.mem_iff.mp ht))))
  obtain ⟨st, left, hw, hl⟩ := foldlM_unresolved htc i.carries
  obtain ⟨rel, hend, hrel⟩ := endPgTdeRewrite_carries hl.carries
  refine ⟨rel, written, left, waiting, s.noted, ?_, i.pass, hn, i.offsets, hl.items.trans hp, hl.next, hrel⟩
  rw [rewriteHeap, hc, Outcome.ok_bind, ChainState.writeUnresolved, i.unresolved, hts, hw, Outcome.ok_bind, hend]

-- A tuple is kept if no dead tuple cancels it.
theorem foldl_keep_of {done : List RewriteCall} {kept : List LiveTuple} (h : t ∈ kept ∨ .tuple t ∈ done)
    (hd : ∀ old, .dead old ∈ done → t.target r.routines ≠ some old.hashkey) : t ∈ done.foldl r.keep kept := by
  induction done generalizing kept
  case nil               => simpa using h
  case cons call done hi =>
    refine hi ?_ fun old ho => hd old (List.mem_cons_of_mem _ ho)
    obtain h | h := h
    case inr =>
      obtain rfl | h := List.mem_cons.mp h
      · exact .inl (List.mem_append_right _ (List.mem_singleton_self t))
      · exact .inr h
    case inl =>
      cases call
      case tuple u  => exact .inl (List.mem_append_left _ h)
      case dead old => exact .inl (List.mem_filter.mpr ⟨h, decide_eq_true (hd old List.mem_cons_self)⟩)

theorem Complete.mem_kept (h : r.Complete t) : t ∈ r.kept := by
  refine foldl_keep_of (.inr h.mem) fun old ho ht => ?_
  cases h
  case last _ hn      => cases hn.symm.trans ht
  case next u hu _ hs =>
    have hk := Option.some.inj (hs.symm.trans ht)
    cases List.inj_on_of_nodup_map r.hashkeys hu.mem ho hk

namespace Result

variable {rel : HeapRelation} {left : List NewTuple} {noted : TidHashKey → Option ItemPointer}

theorem items_perm (h : r.Result P rel written left waiting noted) :
    ((left ++ written).map (·.item)).Perm r.kept := by
  have hp : ((left ++ written).map (·.item)).Perm (written.map (·.item) ++ waiting) := by
    rw [List.map_append]
    exact List.perm_append_comm.trans (h.items.append_left _)
  rw [List.perm_ext_iff_of_nodup (hp.nodup_iff.mpr h.pass.nodup) h.nodup]
  intro t
  have hm : t ∈ r.kept ↔ _ := h.pass.mem t
  rw [hp.mem_iff, hm, List.mem_append]
  simp

theorem mem_calls (h : r.Result P rel written left waiting noted) (he : e ∈ left ++ written) :
    .tuple e.item ∈ r.calls :=
  h.pass.items (h.items_perm.mem_iff.mp (List.mem_map_of_mem he))

theorem isOffset_next (h : r.Result P rel written left waiting noted) (he : e ∈ left ++ written) :
    ∀ tid, e.next = some tid → IsOffset tid.offnum := by
  intro tid hn
  obtain he | he := List.mem_append.mp he
  · cases (h.next e he).symm.trans hn
  · have hl := h.pass.linked e he
    rw [hn] at hl
    cases hl
    case next he' _ _ => exact h.offsets _ he'

theorem not_complete (h : r.Result P rel written left waiting noted) (he : e ∈ left) : ¬r.Complete e.item := by
  intro hc
  have hs : ∀ t, r.chains.Resolved t → t ∈ {t | t ∈ r.kept} := fun t ht => (complete_iff.mpr ht).mem_kept
  exact h.pass.waiting_unresolved hs (complete_iff.mp hc) (h.items.mem_iff.mp (List.mem_map_of_mem he))

-- A tuple is in one place.
theorem eq_of_item (h : r.Result P rel written left waiting noted) {e e' : NewTuple} (he : e ∈ left ++ written)
    (he' : e' ∈ left ++ written) (hi : e.item = e'.item) : e = e' :=
  List.inj_on_of_nodup_map (h.items_perm.nodup_iff.mpr h.nodup) he he' hi

theorem links (h : r.Result P rel written left waiting noted) : r.LinksTo r.Complete (left ++ written) := by
  intro e he
  constructor
  case left =>
    intro u hu hs hc
    obtain he | he := List.mem_append.mp he
    · exact absurd (.next (h.mem_calls (List.mem_append_left _ he)) hs hc) (h.not_complete he)
    · have hl := h.pass.linked e he
      have ht : r.chains.target e.item = some u.item.oldTuple.hashkey := hs
      obtain ⟨next, hnext⟩ : ∃ next, e.next = next := ⟨_, rfl⟩
      rw [hnext] at hl ⊢
      cases hl
      case last hn          => cases hn.symm.trans ht
      case next e' k he' hk hek =>
        have hk' : k = u.item.oldTuple.hashkey := Option.some.inj (hk.symm.trans ht)
        have heq := eq_of_hashkey (h.mem_calls (List.mem_append_right _ he')) (h.mem_calls hu)
          ((hashkey_of_key hek).trans hk')
        rw [h.eq_of_item (List.mem_append_right _ he') hu heq]
  case right =>
    intro hn
    obtain he | he := List.mem_append.mp he
    · exact h.next e he
    · have hl := h.pass.linked e he
      obtain ⟨next, hnext⟩ : ∃ next, e.next = next := ⟨_, rfl⟩
      rw [hnext] at hl ⊢
      cases hl
      case last                => rfl
      case next e' k he' hk hek =>
        have hs : r.Successor e.item e'.item := by
          rw [Successor, hashkey_of_key hek]
          exact hk
        exact absurd (complete_iff.mpr (h.pass.resolved e' he')) (hn e' (List.mem_append_right _ he') hs)

theorem rewritten (h : r.Result P rel written left waiting noted) :
    r.Rewritten P rel r.Complete (left ++ written) where
  key    := h.carries.key
  before := h.carries.before
  once   := h.items_perm
  apart  := by
    have ha := h.carries.apart
    rw [List.map_map] at ha
    exact ha
  behind := fun e he => h.carries.behind _ (List.mem_map_of_mem he)
  holds  := fun e he => holds_of_carries h.carries he (h.mem_calls he) (h.isOffset_next he)
  only bn page off lp hb hp hl := by
    obtain ⟨e, he, heq⟩ := (h.carries.blocks bn page hb hp).only off lp hl
    obtain ⟨e', he', rfl⟩ := List.mem_map.mp he
    exact heq ▸ List.mem_map_of_mem he'
  links  := h.links

end Result

end TableRewrite
