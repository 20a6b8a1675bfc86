import Mathlib.Data.List.Chain
import PgTde.Prune.Theorems.Plan

namespace Move

variable {b : Bool} {l m n : Move} {ms : List Move}

theorem Precedes.weaken (h : Precedes b m n) : Precedes false m n where
  dst    := h.dst
  sorted := nofun

theorem Valid.weaken (h : Valid b m) : Valid false m where
  toValid := h.toValid
  dst_le  := h.dst_le
  up      := nofun

theorem dst_descending (h : ms.IsChain (Precedes b)) :
    ms.Pairwise fun m n => n.dst + n.item.alignedlen ≤ m.dst := by
  let R (m n : Move) := n.dst + n.item.alignedlen ≤ m.dst
  have : Trans R R R := ⟨fun h₁ h₂ => by simp only [R] at *; omega⟩
  exact List.isChain_iff_pairwise.mp <| h.imp fun _ _ h => Nat.le_of_eq h.dst.symm

theorem getLast?_plan {upper : Nat} {item : ItemIdCompactData} {items : List ItemIdCompactData} :
    (plan upper (item :: items)).getLast?.map (·.dst) =
    some (upper - ((item :: items).map (·.alignedlen)).sum) := by
  induction items generalizing upper item
  case nil             => simp [plan]
  case cons next items hi =>
    rw [plan]
    have hi := @hi (upper - item.alignedlen) next
    have hn : plan (upper - item.alignedlen) (next :: items) ≠ [] := by simp [plan]
    rw [List.getLast?_cons_of_ne_nil hn, hi]
    simp only [List.map_cons, List.sum_cons, Option.some.injEq]
    omega

theorem map_fst_masks {k : Keystream} {bn : Nat} {before : List (Nat → UInt8)} (ms : List Move) :
    (masks k bn b before ms).map (·.1) = ms := by
  induction ms generalizing before
  case nil     => rfl
  case cons hi => simp [masks, hi]

end Move

namespace HeapPage

variable (page : HeapPage)

abbrev moves : List Move :=
  Move.plan page.pdSpecial page.storage

theorem map_item_moves : page.moves.map (·.item) = page.storage :=
  Move.map_item_plan

theorem sum_le_special : (page.storage.map (·.alignedlen)).sum ≤ page.pdSpecial :=
  Nat.le_trans page.storage_sum_le (Nat.sub_le _ _)

theorem below_of_presorted (h : page.presorted) : page.storage.IsChain Move.Below := by
  have hp := (List.pairwise_cons.mp (of_decide_eq_true h)).2
  have hd := List.pairwise_map.mp page.storage_disjoint
  refine ((hd.and (List.pairwise_map.mp hp)).imp_of_mem ?_).isChain
  intro a b ha hb hab
  have hv := storage_valid hb
  have h₁ := hv.header
  have h₂ := hv.aligned
  simp only [Extent.Disjoint, ItemIdCompactData.extent, sizeofHeapTupleHeaderData] at hab h₁
  simp only [Move.Below]
  omega

theorem moves_precedes : page.moves.IsChain (Move.Precedes page.presorted) :=
  Move.plan_precedes page.sum_le_special page.below_of_presorted

variable {page} {m : Move}

theorem item_mem_storage (h : m ∈ page.moves) : m.item ∈ page.storage :=
  Move.item_mem_of_mem_plan h

theorem moves_valid (h : m ∈ page.moves) : m.Valid page.presorted where
  toValid := storage_valid (item_mem_storage h)
  dst_le  := Nat.le_trans (Move.dst_le_of_mem_plan h) page.special_le
  up hp   := by
    apply Move.plan_up page.sum_le_special (page.below_of_presorted hp) _ h
    intro item hi
    exact (storage_inside (List.mem_of_mem_head? hi)).2

theorem layout_presorted : page.layout.presorted = page.presorted := by
  rw [Page.layout]
  split
  case isTrue     => rfl
  case isFalse h  => simp [not_or.mp h]

theorem layout_moves : page.layout.skipped ++ page.layout.moved = page.moves :=
  Page.layout_moves

theorem layout_inPlace (h : m ∈ page.layout.skipped) : m.inPlace :=
  Page.layout_inPlace h

theorem layout_valid (h : m ∈ page.layout.moved) : m.Valid page.presorted :=
  moves_valid <| layout_moves ▸ List.mem_append_right _ h

theorem layout_precedes : page.layout.moved.IsChain (Move.Precedes page.presorted) :=
  page.moves_precedes.suffix ⟨_, layout_moves⟩

theorem layout_skipped {n : Move} {ms : List Move} (hm : page.layout.moved = m :: ms)
    (hn : n ∈ page.layout.skipped) : n.inPlace ∧ m.dst + m.item.alignedlen ≤ n.dst := by
  have h := Move.dst_descending page.moves_precedes
  rw [←layout_moves, hm, List.pairwise_append] at h
  exact ⟨layout_inPlace hn, h.2.2 n hn m (by simp)⟩

end HeapPage

namespace Compaction

variable {p : Page} {r s : Compaction} {k : Keystream} {bn : Nat} {l : Layout} {m : Move}
variable {ms : List Move} {mem₀ : Memory}

-- The loops' state at their start, at the first tuple to be moved.
def start (p : Page) (scratch : Memory) (upper : Nat) (item : ItemIdCompactData) : Compaction where
  mem       := p.mem
  scratch   := scratch
  linp      := p.linp
  upper     := upper
  copyTail  := item.itemoff + item.alignedlen
  copyHead  := item.itemoff + item.alignedlen
  itemidptr := item

theorem start_pending {scratch : Memory} :
    ((start p scratch (m.dst + m.item.alignedlen) m.item).place m.item).Pending m where
  upper     := by simp [place, start]
  copyHead  := rfl
  copyTail  := Nat.le_refl _
  itemidptr := rfl

def finish (p : Page) (s : Compaction) : Page :=
  { p with pdUpper := s.upper, linp := s.linp, mem := s.mem }

end Compaction

-- What a compaction with the layout `l` does to a page.
structure Layout.Compacted (k : Keystream) (bn : Nat) (l : Layout) (p r : Page) : Prop where
  tuples  : ∀ q ∈ l.masks k bn, ∀ j < q.1.item.alignedlen,
    r.mem (q.1.dst + j) = p.mem (q.1.src + j) ^^^ q.2 j
  linp    : r.linp = Move.repoint l.moved p.linp
  upper   : l.moves.getLast?.map (·.dst) = some r.pdUpper
  special : r.pdSpecial = p.pdSpecial

namespace Compaction

variable {p : Page} {r s : Compaction} {k : Keystream} {bn : Nat} {l : Layout} {m : Move}
variable {ms : List Move} {mem₀ scratch : Memory}

theorem Moved.compacted
    (h : Moved k bn l.presorted [] m ms mem₀
      ((start p scratch (m.dst + m.item.alignedlen) m.item).place m.item) r)
    (hl : l.moved = m :: ms) (h₀ : ∀ n ∈ m :: ms, ∀ j < n.item.alignedlen,
      mem₀ (n.src + j) = p.mem (n.src + j))
    (hs : ∀ n ∈ l.skipped, n.inPlace ∧ m.dst + m.item.alignedlen ≤ n.dst) :
    l.Compacted k bn p (r.finish p) where
  tuples := by
    intro q hq j hj
    simp only [Layout.masks, hl, List.mem_append, List.mem_map] at hq
    cases hq
    case inr hq =>
      have hm : q.1 ∈ m :: ms := by
        rw [←Move.map_fst_masks (m :: ms)]
        exact List.mem_map_of_mem hq
      rw [←h₀ _ hm j hj]
      exact h.tuples q hq j hj
    case inl hq =>
      obtain ⟨n, hn, he⟩ := hq
      subst he
      obtain ⟨hp, hd⟩ := hs n hn
      simp only [Move.inPlace, decide_eq_true_eq] at hp
      have ha := h.above (n.dst + j) (by simp only [place, start, Move.src]; omega)
      simp only [finish, ha, Layout.windows, hl, ←hp, place, start]
  linp    := by
    simp only [finish, h.linp, hl]
    simp [Move.repoint, place, start]
  upper   := by
    obtain ⟨n, hn, hd⟩ := Option.map_eq_some_iff.mp h.upper
    simp [Layout.moves, hl, List.getLast?_append, hn, hd, finish]
  special := rfl

-- All tuples are in place.
theorem start_compacted {upper : Nat} {item : ItemIdCompactData} (hl : l.moved = [])
    (hs : ∀ n ∈ l.skipped, n.inPlace) (hu : l.skipped.getLast?.map (·.dst) = some upper) :
    l.Compacted k bn p ((start p scratch upper item).finish p) where
  tuples := by
    intro q hq j _
    simp only [Layout.masks, hl, Move.masks, List.append_nil, List.mem_map] at hq
    obtain ⟨n, hn, he⟩ := hq
    have hp := hs n hn
    simp only [Move.inPlace, decide_eq_true_eq] at hp
    subst he
    simp [finish, start, Layout.windows, hl, Move.windows, hp]
  linp    := by simp [finish, start, hl, Move.repoint]
  upper   := by simpa [Layout.moves, hl, finish, start] using hu
  special := rfl

end Compaction

namespace Platform

variable {P : Platform} {bn : Nat} {key : Block} {page : HeapPage} {m : Move} {ms : List Move}
variable {stack scratch : Memory} {p : Page} {upper : Nat} {item : ItemIdCompactData}
variable {items : List ItemIdCompactData}

theorem finishPage_start :
    P.finishPage bn key (item :: items) (.start p stack upper item) =
    P.finishPage bn key items ((Compaction.start p stack upper item).place item) := by
  simp [finishPage, moveTuples, recryptPending, Compaction.start]

theorem finishScratch_start :
    P.finishScratch bn key (item :: items) (.start p scratch upper item) =
    P.finishScratch bn key items ((Compaction.start p scratch upper item).place item) := by
  simp [finishScratch, moveScratchTuples, recryptPending, Compaction.start]

-- No tuple is moved.
theorem finishPage_start_nil :
    P.finishPage bn key [] (.start p stack upper item) = .ok (.start p stack upper item) := by
  simp [finishPage, moveTuples, recryptPending, Compaction.start]

theorem finishScratch_start_nil :
    P.finishScratch bn key [] (.start p scratch upper item) = .ok (.start p scratch upper item) := by
  simp [finishScratch, moveScratchTuples, recryptPending, Compaction.start]

theorem compactify_presorted :
    P.pgtdeCompactifyTuples bn key stack (item :: items) p true =
    let (upper, it, rest) := Compaction.skipInPlace p.pdSpecial item (item :: items)
    P.finishPage bn key rest (.start p stack upper it) >>= fun s => .ok (s.finish p) := by
  simp only [pgtdeCompactifyTuples, if_true, finishPage, bind_assoc, Outcome.ok_bind]
  rfl

theorem compactify_many (h : ¬(item :: items).length < p.getMaxOffsetNumber / 4) :
    P.pgtdeCompactifyTuples bn key stack (item :: items) p false =
    let (upper, it, rest) := Compaction.skipInPlace p.pdSpecial item (item :: items)
    let scratch := stack.copy p.pdUpper p.mem p.pdUpper (upper - p.pdUpper)
    P.finishScratch bn key rest (.start p scratch upper it) >>= fun s => .ok (s.finish p) := by
  simp only [pgtdeCompactifyTuples, Bool.false_eq_true, h, if_false, finishScratch, bind_assoc,
    Outcome.ok_bind]
  rfl

-- The copy of all tuples, one by one.
def copyTuples (p : Page) (stack : Memory) (items : List ItemIdCompactData) : Memory :=
  items.foldl (fun scratch item => scratch.copy item.itemoff p.mem item.itemoff item.alignedlen) stack

theorem compactify_few (h : (item :: items).length < p.getMaxOffsetNumber / 4) :
    P.pgtdeCompactifyTuples bn key stack (item :: items) p false =
    (P.finishScratch bn key (item :: items)
      (.start p (copyTuples p stack (item :: items)) p.pdSpecial item) >>= fun s => .ok (s.finish p)) := by
  simp only [pgtdeCompactifyTuples, Bool.false_eq_true, h, if_false, if_true, finishScratch, bind_assoc,
    Outcome.ok_bind]
  rfl

theorem copyTuples_of_eq {x : Nat} (h : stack x = p.mem x) :
    copyTuples p stack items x = p.mem x := by
  induction items generalizing stack
  case nil          => exact h
  case cons item items hi =>
    apply hi
    simp only [Memory.copy_same, h, ite_self]

theorem copyTuples_of_mem {x : Nat} (h : item ∈ items)
    (hx : item.itemoff ≤ x ∧ x < item.itemoff + item.alignedlen) :
    copyTuples p stack items x = p.mem x := by
  induction items generalizing stack
  case nil                 => simp at h
  case cons item' items hi =>
    cases List.mem_cons.mp h
    case inr h => exact hi h
    case inl h =>
      subst h
      rw [copyTuples, List.foldl_cons]
      apply copyTuples_of_eq
      rw [Memory.copy_same, if_pos hx]

variable {l : Layout}

theorem finishPage_compacted (hm : page.layout.moved = m :: ms) (hp : page.presorted)
    (hb : page.layout.InBounds) (he : p.mem = page.mem) :
    ∃ r, (P.finishPage bn key ((m :: ms).map (·.item))
        (.start p stack (m.dst + m.item.alignedlen) m.item) >>= fun s => .ok (s.finish p)) = .ok r ∧
      page.layout.Compacted (P.keystream key) bn p r := by
  have hv : ∀ n ∈ m :: ms, n.Valid true := fun n hn => hp ▸ HeapPage.layout_valid (hm ▸ hn)
  have hc : (m :: ms).IsChain (Move.Precedes true) := hp ▸ hm ▸ HeapPage.layout_precedes
  have hb : ∀ a ∈ Move.reach (m :: ms), a ≤ blcksz := hm ▸ hb
  have hl : page.layout.presorted = true := HeapPage.layout_presorted.trans hp
  obtain ⟨r, hr, hr'⟩ : ∃ r, P.finishPage bn key (ms.map (·.item))
        ((Compaction.start p stack (m.dst + m.item.alignedlen) m.item).place m.item) = .ok r ∧
      Compaction.Moved (P.keystream key) bn true [] m ms page.mem
        ((Compaction.start p stack (m.dst + m.item.alignedlen) m.item).place m.item) r :=
    finishPage_ok Compaction.start_pending hv hc hb fun a _ => by
      simp [Compaction.place, Compaction.start, he]
  refine ⟨_, by rw [List.map_cons, finishPage_start, hr, Outcome.ok_bind], ?_⟩
  exact Compaction.Moved.compacted (hl ▸ hr') hm (by simp [he]) fun n hn => HeapPage.layout_skipped hm hn

theorem finishScratch_compacted (hm : page.layout.moved = m :: ms) (hp : ¬page.presorted)
    (hb : page.layout.InBounds)
    (hs : ∀ n ∈ m :: ms, ∀ j < n.item.alignedlen, scratch (n.src + j) = p.mem (n.src + j)) :
    ∃ r, (P.finishScratch bn key ((m :: ms).map (·.item))
        (.start p scratch (m.dst + m.item.alignedlen) m.item) >>= fun s => .ok (s.finish p)) = .ok r ∧
      page.layout.Compacted (P.keystream key) bn p r := by
  have hp : page.presorted = false := by simpa using hp
  have hv : ∀ n ∈ m :: ms, n.Valid false := fun n hn => hp ▸ HeapPage.layout_valid (hm ▸ hn)
  have hc : (m :: ms).IsChain (Move.Precedes false) := hp ▸ hm ▸ HeapPage.layout_precedes
  have hb : ∀ a ∈ Move.reach (m :: ms), a ≤ blcksz := hm ▸ hb
  have hl : page.layout.presorted = false := HeapPage.layout_presorted.trans hp
  obtain ⟨r, hr, hr'⟩ : ∃ r, P.finishScratch bn key (ms.map (·.item))
        ((Compaction.start p scratch (m.dst + m.item.alignedlen) m.item).place m.item) = .ok r ∧
      Compaction.Moved (P.keystream key) bn false [] m ms scratch
        ((Compaction.start p scratch (m.dst + m.item.alignedlen) m.item).place m.item) r :=
    finishScratch_ok Compaction.start_pending hv hc hb fun a => by
      simp [Compaction.place, Compaction.start]
  refine ⟨_, by rw [List.map_cons, finishScratch_start, hr, Outcome.ok_bind], ?_⟩
  exact Compaction.Moved.compacted (hl ▸ hr') hm hs fun n hn => HeapPage.layout_skipped hm hn

-- The tuples to be moved lie in the part of the page that is copied as a whole.
theorem moved_below_skipped (hm : (page.moves.dropWhile (·.inPlace)) = m :: ms) {n : Move}
    (hn : n ∈ m :: ms) : n.src + n.item.alignedlen ≤ m.dst + m.item.alignedlen := by
  have hmem : n.item ∈ page.storage :=
    HeapPage.item_mem_storage <| (List.dropWhile_sublist _).mem (hm ▸ hn)
  apply Move.below_of_dropWhile hm page.sum_le_special (fun _ => HeapPage.storage_valid)
    (HeapPage.storage_valid hmem) (HeapPage.storage_inside hmem).2
  have hd : (page.moves.map (·.item.extent)).Pairwise Extent.Disjoint := by
    have h := page.storage_disjoint
    rwa [←page.map_item_moves, List.map_map] at h
  rw [←List.takeWhile_append_dropWhile (p := (·.inPlace)) (l := page.moves), hm, List.map_append,
    List.pairwise_append] at hd
  intro p hp
  exact hd.2.2 _ (List.mem_map_of_mem hp) _ (List.mem_map_of_mem (f := (·.item.extent)) hn)

-- The page that is passed on to the compaction after the scan of its line pointers.
structure Scanned (page p : Page) : Prop where
  mem     : p.mem = page.mem
  upper   : p.pdUpper = page.pdUpper
  special : p.pdSpecial = page.pdSpecial
  length  : p.linp.length = page.linp.length

theorem skipInPlace_of_nil (hd : page.moves.dropWhile (·.inPlace) = []) :
    ∃ it, Compaction.skipInPlace page.pdSpecial item page.storage =
      (page.pdSpecial - (page.storage.map (·.alignedlen)).sum, it, []) := by
  rw [Move.skipInPlace_eq page.sum_le_special, hd]
  exact ⟨_, rfl⟩

theorem skipInPlace_of_cons (hd : page.moves.dropWhile (·.inPlace) = m :: ms) :
    Compaction.skipInPlace page.pdSpecial item page.storage =
    (m.dst + m.item.alignedlen, m.item, (m :: ms).map (·.item)) := by
  rw [Move.skipInPlace_eq page.sum_le_special, hd]

theorem start_compacted (hs : page.storage ≠ []) (hm : page.layout.moved = []) :
    page.layout.Compacted (P.keystream key) bn p
      ((Compaction.start p scratch (page.pdSpecial - (page.storage.map (·.alignedlen)).sum) item).finish
        p) := by
  obtain ⟨item, items, hi⟩ := List.exists_cons_of_ne_nil hs
  refine Compaction.start_compacted hm (fun _ => HeapPage.layout_inPlace) ?_
  have h : page.layout.skipped = page.moves := by
    rw [←HeapPage.layout_moves, hm, List.append_nil]
  rw [h, HeapPage.moves, hi, Move.getLast?_plan]

variable (P bn key stack) in
-- The three strategies of the compaction, by the first tuple that is to be moved.
theorem compactify_cases (hs : page.storage ≠ []) (hp : Scanned page.toPage p) :
    (page.layout.moved = [] ∧ ∃ scratch it,
      P.pgtdeCompactifyTuples bn key stack page.storage p page.presorted =
      .ok ((Compaction.start p scratch
        (page.pdSpecial - (page.storage.map (·.alignedlen)).sum) it).finish p)) ∨
    ∃ m ms, page.layout.moved = m :: ms ∧ (
      (page.presorted ∧
        P.pgtdeCompactifyTuples bn key stack page.storage p page.presorted =
        (P.finishPage bn key ((m :: ms).map (·.item))
          (.start p stack (m.dst + m.item.alignedlen) m.item) >>= fun s => .ok (s.finish p))) ∨
      (¬page.presorted ∧ ∃ scratch : Memory,
        (∀ n ∈ m :: ms, ∀ j < n.item.alignedlen, scratch (n.src + j) = p.mem (n.src + j)) ∧
        P.pgtdeCompactifyTuples bn key stack page.storage p page.presorted =
        (P.finishScratch bn key ((m :: ms).map (·.item))
          (.start p scratch (m.dst + m.item.alignedlen) m.item) >>= fun s => .ok (s.finish p)))) := by
  obtain ⟨item, items, hi⟩ := List.exists_cons_of_ne_nil hs
  by_cases hpre : page.presorted
  case pos =>
    have hmv : page.layout.moved = page.moves.dropWhile (·.inPlace) := Page.layout_of_some (.inl hpre)
    rw [hpre, hi, compactify_presorted, ←hi, hp.special]
    cases hd : page.moves.dropWhile (·.inPlace)
    case nil =>
      obtain ⟨it, hk⟩ : ∃ it, Compaction.skipInPlace _ item _ = _ := skipInPlace_of_nil hd
      simp only [hk, finishPage_start_nil, Outcome.ok_bind]
      exact .inl ⟨hmv.trans hd, _, it, rfl⟩
    case cons m ms =>
      simp only [skipInPlace_of_cons hd]
      exact .inr ⟨m, ms, hmv.trans hd, .inl ⟨trivial, rfl⟩⟩
  case neg =>
    simp only [Bool.not_eq_true] at hpre
    by_cases hn : page.storage.length < page.linp.length / 4
    case neg =>
      have hmv : page.layout.moved = page.moves.dropWhile (·.inPlace) :=
        Page.layout_of_some (.inr (Nat.not_lt.mp hn))
      rw [hpre, hi, compactify_many (by simpa [Page.getMaxOffsetNumber, hp.length, ←hi] using hn), ←hi,
        hp.special]
      cases hd : page.moves.dropWhile (·.inPlace)
      case nil =>
        obtain ⟨it, hk⟩ : ∃ it, Compaction.skipInPlace _ item _ = _ := skipInPlace_of_nil hd
        simp only [hk, finishScratch_start_nil, Outcome.ok_bind]
        exact .inl ⟨hmv.trans hd, _, it, rfl⟩
      case cons m ms =>
        simp only [skipInPlace_of_cons hd]
        refine .inr ⟨m, ms, hmv.trans hd, .inr ⟨by simp, _, ?_, rfl⟩⟩
        intro n hn j hj
        have hmem : n.item ∈ page.storage :=
          HeapPage.item_mem_storage <| (List.dropWhile_sublist _).mem (hd ▸ hn)
        have hin := HeapPage.storage_inside hmem
        have hbl := moved_below_skipped hd hn
        rw [Memory.copy_same, if_pos]
        simp only [Move.src, hp.upper] at *
        omega
    case pos =>
      have hm : page.layout.moved = page.moves := by
        rw [Page.layout, if_neg (not_or.mpr ⟨by simp [hpre], by omega⟩)]
      rw [hpre, hi, compactify_few (by simpa [Page.getMaxOffsetNumber, hp.length, ←hi] using hn)]
      have hsum := page.sum_le_special
      simp only [hi, List.map_cons, List.sum_cons] at hsum
      have hmv : page.moves = ⟨item, page.pdSpecial - item.alignedlen⟩ ::
          Move.plan (page.pdSpecial - item.alignedlen) items := by
        rw [HeapPage.moves, hi, Move.plan]
      have hu : page.pdSpecial - item.alignedlen + item.alignedlen = page.pdSpecial := by omega
      refine .inr ⟨_, _, hm.trans hmv, .inr ⟨by simp, copyTuples p stack (item :: items), ?_, ?_⟩⟩
      · intro n hn j hj
        have hmem : n.item ∈ item :: items := hi ▸ HeapPage.item_mem_storage (hmv ▸ hn)
        exact copyTuples_of_mem hmem (by simp only [Move.src]; omega)
      · simp only [List.map_cons, Move.map_item_plan, hu, hp.special]

variable (P bn key stack) in
theorem compactify_compacted (hs : page.storage ≠ []) (hb : page.layout.InBounds)
    (hp : Scanned page.toPage p) :
    ∃ r, P.pgtdeCompactifyTuples bn key stack page.storage p page.presorted = .ok r ∧
      page.layout.Compacted (P.keystream key) bn p r := by
  cases compactify_cases P bn key stack hs hp
  case inl h =>
    obtain ⟨hm, _, _, he⟩ := h
    exact ⟨_, he, start_compacted hs hm⟩
  case inr h =>
    obtain ⟨m, ms, hm, h⟩ := h
    cases h
    case inl h =>
      obtain ⟨hpre, he⟩ := h
      exact he ▸ finishPage_compacted hm hpre hb hp.mem
    case inr h =>
      obtain ⟨hpre, _, hsc, he⟩ := h
      exact he ▸ finishScratch_compacted hm hpre hb hsc

theorem compactify_undefined (hs : page.storage ≠ []) (hb : ¬page.layout.InBounds)
    (hp : Scanned page.toPage p) :
    P.pgtdeCompactifyTuples bn key stack page.storage p page.presorted = .error .undefined := by
  simp only [Layout.InBounds, Classical.not_forall, exists_prop, Nat.not_le] at hb
  cases compactify_cases P bn key stack hs hp
  case inl h =>
    obtain ⟨hm, _⟩ := h
    simp [hm, Move.reach] at hb
  case inr h =>
    obtain ⟨m, ms, hm, h⟩ := h
    rw [hm] at hb
    cases h
    case inl h =>
      obtain ⟨hpre, he⟩ := h
      have hv : ∀ n ∈ m :: ms, n.Valid true := fun n hn => hpre ▸ HeapPage.layout_valid (hm ▸ hn)
      have hc : (m :: ms).IsChain (Move.Precedes true) := hpre ▸ hm ▸ HeapPage.layout_precedes
      rw [he, List.map_cons, finishPage_start, finishPage_undefined Compaction.start_pending hv hc hb,
        Outcome.error_bind]
    case inr h =>
      obtain ⟨_, _, _, he⟩ := h
      have hv : ∀ n ∈ m :: ms, n.Valid false :=
        fun n hn => (HeapPage.layout_valid (hm ▸ hn)).weaken
      have hc : (m :: ms).IsChain (Move.Precedes false) :=
        hm ▸ HeapPage.layout_precedes.imp fun _ _ h => h.weaken
      rw [he, List.map_cons, finishScratch_start,
        finishScratch_undefined Compaction.start_pending hv hc hb, Outcome.error_bind]

end Platform
