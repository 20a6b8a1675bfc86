import PgTde.Prune.Theorems.WellFormed
import PgTde.Rewrite.Theorems.Insert
import PgTde.Toast.Relation

namespace HeapRelation

variable {rel : HeapRelation} {c c' : Contents} {q : Page} {bn : Nat}

-- A page is replaced, and only its own data changes.
theorem Intact.set (h : rel.Intact c) (hq : q.Intact (c' bn)) (hc : ∀ b ≠ bn, c' b = c b) :
    HeapRelation.Intact { rel with blocks := rel.blocks.set bn q } c' := by
  intro b p hp
  simp only [List.getElem?_set] at hp
  split at hp
  case isTrue hb   =>
    split at hp <;> cases hp
    exact hb ▸ hq
  case isFalse hne =>
    rw [hc b (Ne.symm hne)]
    exact h b p hp

theorem Intact.placed {page : Page} {tup : HeapTuple} {off : Nat} (h : rel.Intact c)
    (hb : rel.blocks[bn]? = some page) (hp : page.Placed tup q off) :
    HeapRelation.Intact { rel with blocks := rel.blocks.set bn q } (c.insert bn off tup.data) := by
  refine h.set ?_ fun b hb => Contents.insert_of_ne hb
  rw [Contents.insert_same]
  exact (h bn page hb).placed hp

end HeapRelation

namespace ToastRelation

variable {P : Platform} {routines : RewriteRoutines} {s s' : ToastRelation} {bn i : Nat}
variable {tup : HeapTuple} {stack : Memory} {plan : PrunePlan} {key : Block} {header : HeapTupleHeader}

-- A step leaves the bytes of the relation's tuples alone if it is
-- * a prune, and its re-encryptions cancel out on the page's layout,
-- * the rewrite of a tuple, and the keystream is zero at the new place of its data,
-- * of any other kind.
def Spares (P : Platform) (routines : RewriteRoutines) (s : ToastRelation) : Action → Prop
  | .prune bn _ plan => ∀ (page : HeapPage) (h : plan.Valid page.toPage),
    s.rel.blocks[bn]? = some page.toPage →
    (page.pruned ⟨plan, h⟩).layout.Cancels (P.keystream s.rel.key) bn
  | .rewriteTuple bn i header => ∀ state c page lp, s.rewrite = some (state, c) →
    s.rel.blocks[bn]? = some page → page.linp[i]? = some lp →
    let tup : HeapTuple := ⟨header, page.tupleData lp⟩
    let (blockno, upper) := state.place routines (maxalign tup.tData.length)
    ∀ j < tup.data.length, P.keystream state.rsNewRel.key (offsetInFile blockno upper + j) = 0
  | _ => True

-- The invariant: the relation, and the new one of a rewrite in progress, hold their data.
structure Intact (s : ToastRelation) : Prop where
  relkind : s.rel.relkind = .toastvalue
  rel     : s.rel.Intact s.inserted
  rewrite : ∀ state c, s.rewrite = some (state, c) →
    state.Intact c ∧ state.rsNewRel.relkind = .toastvalue

-- The tuple of a TOAST relation is read as the page holds it.
theorem execStoreTuple_data {page : Memory} {lp : ItemIdData} {key : Block}
    (hh : sizeofHeapTupleHeaderData ≤ tHoff page lp.lpOff) (hl : tHoff page lp.lpOff ≤ lp.lpLen) :
    ∃ tup, P.execStoreTuple .toastvalue bn key page lp = .ok tup ∧
      tup.drop (itemHoff tup) =
        page.read (lp.lpOff + tHoff page lp.lpOff) (lp.lpLen - tHoff page lp.lpOff) := by
  refine ⟨page.read lp.lpOff lp.lpLen, by simp [Platform.execStoreTuple], ?_⟩
  simp only [sizeofHeapTupleHeaderData] at hh
  have ho : itemHoff (page.read lp.lpOff lp.lpLen) = tHoff page lp.lpOff := by
    rw [itemHoff, Memory.getElem?_read (by omega)]
    rfl
  conv_lhs => rw [ho, ←Nat.add_sub_cancel' hl, Memory.read_add]
  rw [List.drop_left' Memory.length_read]

theorem Intact.execStoreTuple (h : s.Intact) {page : Page} {lp : ItemIdData}
    (hb : s.rel.blocks[bn]? = some page) (hl : page.linp[i]? = some lp) (hs : lp.hasStorage) :
    ∃ tup, P.execStoreTuple s.rel.relkind bn s.rel.key page.mem lp = .ok tup ∧
      tup.drop (itemHoff tup) = page.tupleData lp := by
  obtain ⟨_, hp, he⟩ := (h.rel bn page hb).wellFormed
  subst he
  have ht := hp.tuples lp (List.mem_of_getElem? hl) hs
  exact h.relkind ▸ execStoreTuple_data ht.header ht.hoff_le

theorem Intact.insert (h : s.Intact) (he : s.insert routines bn tup = .ok s') : s'.Intact := by
  rw [ToastRelation.insert] at he
  split at he
  case h_1           => cases he
  case h_2 page hb =>
    simp only at he
    split at he
    case isTrue => cases he
    case isFalse ho =>
      cases he
      have hp := (routines.pageAddItem.stored _ _ ho).placed.ctid
        (show (itemPointer bn (routines.pageAddItem.run page tup.tData).2).length = 6 from rfl)
      exact ⟨h.relkind, h.rel.placed hb hp, h.rewrite⟩

theorem Intact.prune (h : s.Intact) (hc : s.Spares P routines (.prune bn stack plan))
    (he : s.prune P bn stack plan = .ok s') : s'.Intact := by
  rw [ToastRelation.prune] at he
  split at he
  case h_1         => cases he
  case h_2 page hb =>
    obtain ⟨r, hr, he⟩ := Outcome.bind_eq_ok_iff.mp he
    cases he
    have hp := h.rel bn page hb
    have hv := HeapPage.valid_of_execute hr
    obtain ⟨_, page, hw⟩ := hp.wellFormed
    subst hw
    have hi := HeapPage.pgTdePagePruneExecute_intact hp (hc page hv hb) hr
    exact ⟨h.relkind, h.rel.set hi fun _ _ => rfl, h.rewrite⟩

theorem Intact.beginRewrite (h : s.Intact) : (s.beginRewrite key).Intact where
  relkind := h.relkind
  rel     := h.rel
  rewrite := by
    intro state c he
    cases he
    refine ⟨⟨?_, rfl, by simp [beginPgTdeRewrite]⟩, h.relkind⟩
    simp [HeapRelation.Intact, beginPgTdeRewrite]

theorem Intact.rewriteTuple (h : s.Intact) (hc : s.Spares P routines (.rewriteTuple bn i header))
    (he : s.rewriteTuple P routines bn i header = .ok s') : s'.Intact := by
  rw [ToastRelation.rewriteTuple] at he
  split at he
  case h_2                       => cases he
  case h_1 state c page lp hw hb =>
    obtain ⟨page', hb, hl⟩ := Option.bind_eq_some_iff.mp hb
    obtain ⟨_, hl, heq⟩ := Option.map_eq_some_iff.mp hl
    cases heq
    split at he
    case isFalse    => cases he
    case isTrue hs  =>
      obtain ⟨tup, ht, hd⟩ := h.execStoreTuple (P := P) hb hl hs
      obtain ⟨hi, hk⟩ := h.rewrite state c hw
      rw [Platform.pgTdeExecStoreBufferHeapTuple, ht, Outcome.ok_bind, Outcome.bind_eq_ok_iff] at he
      obtain ⟨⟨st, off⟩, hr, he⟩ := he
      cases he
      rw [hd] at hr
      let tup : HeapTuple := ⟨header, page.tupleData lp⟩
      have hi' := @Platform.rawPgTdeInsert_intact P routines state st c tup off hi hk
        (hc state c page lp hw hb hl) hr
      have hd := (h.rel bn page hb).data i lp hl hs
      exact ⟨h.relkind, h.rel, by rintro _ _ ⟨⟩; exact hd ▸ hi'⟩

theorem Intact.endRewrite (h : s.Intact) (he : s.endRewrite = .ok s') : s'.Intact := by
  rw [ToastRelation.endRewrite] at he
  split at he
  case h_1            => cases he
  case h_2 state c hw =>
    obtain ⟨hi, hk⟩ := h.rewrite state c hw
    obtain ⟨rel, hr, he⟩ := Outcome.bind_eq_ok_iff.mp he
    cases he
    rw [endPgTdeRewrite] at hr
    split at hr
    case isFalse    => cases hr; exact ⟨hk, hi.rel, by simp⟩
    case isTrue hv  =>
      rw [HeapRelation.smgrextend, if_pos hi.blockno] at hr
      cases hr
      exact ⟨hk, hi.rel.append (hi.blockno ▸ hi.buffer hv), by simp⟩

theorem intact_invariant (P : Platform) (routines : RewriteRoutines) :
    ((toastSystem P routines).restrict (Spares P routines)).Invariant Intact where
  initial := by
    rintro s ⟨hk, hr, hw⟩
    exact ⟨hk, hr, by simp [hw]⟩
  step    := by
    rintro s a s' h ⟨hc, he⟩
    cases a
    case extend       =>
      cases he
      exact ⟨h.relkind, h.rel.append Page.init_intact, h.rewrite⟩
    case insert       => exact h.insert he
    case prune        => exact h.prune hc he
    case beginRewrite => cases he; exact h.beginRewrite
    case rewriteTuple => exact h.rewriteTuple hc he
    case endRewrite   => exact h.endRewrite he

theorem Intact.readsBack (h : s.Intact) : s.ReadsBack P := by
  intro bn page hb i lp hl hs
  obtain ⟨tup, ht, hd⟩ := h.execStoreTuple (P := P) hb hl hs
  exact ⟨tup, ht, ht, hd.trans <| (h.rel bn page hb).data i lp hl hs⟩

-- In every run whose prunes and rewrites spare the bytes of the tuples, the readers find all data as it
-- was inserted.
theorem readsBack_of_spares (P : Platform) (routines : RewriteRoutines) (s : ToastRelation)
    (h : ((toastSystem P routines).restrict (Spares P routines)).Reachable s) : s.ReadsBack P :=
  Intact.readsBack <| (intact_invariant P routines).reachable h

end ToastRelation

-- What the routines do on a page without free line pointers.
def RewriteRoutines.append : RewriteRoutines where
  pageAddItem               := .append
  pageGetHeapFreeSpace page :=
    if page.linp.length < maxHeapTuplesPerPage then page.pdUpper - page.pdLower - sizeofItemIdData else 0
  saveFreeSpace             := 0
  toastInsertOrUpdate       := .ok

-- A TOAST relation of one page, the tuples of which were inserted with data of 16 zero bytes.
def onePageToast (page : Page) : ToastRelation where
  rel          := { relkind := .toastvalue, key := fun _ => 0, blocks := [page] }
  inserted _ _ := List.replicate 16 0
  rewrite      := none

theorem onePageToast_initial : (toastSystem deadTuplePlatform .append).Initial
    (onePageToast deadTuplePage.toPage) := by
  refine ⟨rfl, ?_, rfl⟩
  intro bn page hb
  match bn with
  | bn + 1 => simp [onePageToast] at hb
  | 0      =>
    cases hb
    refine ⟨⟨by decide, deadTuplePage, rfl⟩, ?_⟩
    intro i lp hl _
    match i with
    | 0     => cases hl; decide
    | 1     => cases hl; decide
    | i + 2 => simp [deadTuplePage] at hl

theorem prune_onePageToast (plan : deadTuplePage.Plan)
    (hb : (deadTuplePage.pruned plan).layout.InBounds) : ∃ r,
    (onePageToast deadTuplePage.toPage).prune deadTuplePlatform 0 Memory.zero plan.val =
      .ok (onePageToast r) ∧
    (deadTuplePage.pruned plan).Repaired (deadTuplePlatform.keystream fun _ => 0) 0 r := by
  obtain ⟨r, he, hr⟩ := HeapPage.repair_ok deadTuplePlatform 0 (fun _ => 0) Memory.zero hb
  rw [←HeapPage.pgTdePagePruneExecute_eq] at he
  have hb : (onePageToast deadTuplePage.toPage).rel.blocks[0]? = some deadTuplePage.toPage := rfl
  have hk : (onePageToast deadTuplePage.toPage).rel.key = fun _ => 0 := rfl
  exact ⟨r, by simp only [ToastRelation.prune, hb, hk, he]; rfl, hr⟩

-- The lower tuple is made dead, so that the upper one stays in place.
def lowerDeadPlan : deadTuplePage.Plan :=
  ⟨{ redirected := [], nowdead := [2], nowunused := [] }, by decide⟩

theorem lowerDeadPlan_cancels : (deadTuplePage.pruned lowerDeadPlan).layout.Cancels
    (deadTuplePlatform.keystream fun _ => 0) 0 :=
  ⟨by decide, by decide⟩

theorem readsBack_lowerDeadPlan : ∃ s,
    (onePageToast deadTuplePage.toPage).step deadTuplePlatform .append
      (.prune 0 Memory.zero lowerDeadPlan.val) = .ok s ∧ s.ReadsBack deadTuplePlatform := by
  obtain ⟨r, hs, _⟩ := prune_onePageToast lowerDeadPlan lowerDeadPlan_cancels.1
  refine ⟨_, hs, ToastRelation.readsBack_of_spares deadTuplePlatform .append _ ?_⟩
  refine .step (a := .prune 0 Memory.zero lowerDeadPlan.val) (.initial onePageToast_initial) ⟨?_, hs⟩
  intro page _ hb
  have hp : page = deadTuplePage := HeapPage.ext (Option.some.inj hb).symm
  subst hp
  exact lowerDeadPlan_cancels

-- The upper tuple is made dead, so that the other one is moved, and taken for encrypted.
theorem not_readsBack_deadTuplePlan :
    ¬∀ s, (toastSystem deadTuplePlatform .append).Reachable s → s.ReadsBack deadTuplePlatform := by
  intro h
  have hb : (deadTuplePage.pruned deadTuplePlan).layout.InBounds := by decide
  obtain ⟨r, hs, hr⟩ := prune_onePageToast deadTuplePlan hb
  have h := h _ (.step (a := .prune 0 Memory.zero deadTuplePlan.val) (.initial onePageToast_initial) hs)
  have hq := List.head_mem (l := (deadTuplePage.pruned deadTuplePlan).layout.masks
    (deadTuplePlatform.keystream fun _ => 0) 0) (by decide)
  have hm : ⟨⟨1, 8112, 40, 40⟩, 8152⟩ ∈ (deadTuplePage.pruned deadTuplePlan).moves := by decide
  have hl := hr.line hm (show _ = ItemIdCompactData.ofLp 1 ⟨8112, .normal, 40⟩ from rfl) rfl rfl
  obtain ⟨tup, ht, _, hd⟩ := h 0 r rfl 1 _ hl rfl
  have ht : r.mem.read 8152 40 = tup := Except.ok.inj ht
  have hb (j : Nat) (hj : j < 40) : tup[j]? = some (deadTuplePage.mem (8112 + j) ^^^
      ((deadTuplePage.pruned deadTuplePlan).layout.masks
        (deadTuplePlatform.keystream fun _ => 0) 0)[0].2 j) := by
    rw [←ht, Memory.getElem?_read hj]
    exact congrArg some (hr.tuples _ hq j hj)
  have ho : itemHoff tup = 24 := by
    rw [itemHoff, hb 22 (by decide)]
    decide
  have hd : (tup.drop (itemHoff tup))[0]? = (List.replicate 16 (0 : UInt8))[0]? :=
    congrArg (·[0]?) hd
  simp only [ho, List.getElem?_drop, hb (24 + 0) (by decide)] at hd
  revert hd
  decide
