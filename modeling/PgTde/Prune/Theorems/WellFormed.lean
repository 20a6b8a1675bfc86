import Mathlib.Algebra.BigOperators.Ring.List
import PgTde.Page.Intact
import PgTde.Prune.Theorems.Replay

namespace Move

variable {upper : Nat} {items : List ItemIdCompactData} {m : Move}

theorem le_dst_of_mem_plan (h : m ∈ plan upper items) :
    upper - (items.map (·.alignedlen)).sum ≤ m.dst := by
  induction items generalizing upper
  case nil => simp [plan] at h
  case cons item items hi =>
    simp only [List.map_cons, List.sum_cons]
    simp only [plan, List.mem_cons] at h
    cases h
    case inl h => subst h; simp only; omega
    case inr h => have := hi h; omega

theorem plan_aligned (hu : maxalign upper = upper)
    (ha : ∀ item ∈ items, maxalign item.alignedlen = item.alignedlen)
    (hs : (items.map (·.alignedlen)).sum ≤ upper) (h : m ∈ plan upper items) :
    maxalign m.dst = m.dst := by
  induction items generalizing upper
  case nil => simp [plan] at h
  case cons item items hi =>
    simp only [List.map_cons, List.sum_cons] at hs
    have hd : maxalign (upper - item.alignedlen) = upper - item.alignedlen := by
      have hi := ha item (by simp)
      simp only [maxalign] at hu hi ⊢
      omega
    simp only [plan, List.mem_cons] at h
    cases h
    case inl h => exact h ▸ hd
    case inr h => exact hi hd (fun i hi => ha i (by simp [hi])) (by omega) h

-- The new places of two moves do not overlap.
def Apart (m n : Move) : Prop :=
  n.dst + n.item.alignedlen ≤ m.dst ∨ m.dst + m.item.alignedlen ≤ n.dst

instance : Std.Symm Apart where
  symm _ _ := Or.symm

theorem plan_apart (hs : (items.map (·.alignedlen)).sum ≤ upper) :
    (plan upper items).Pairwise Apart := by
  induction items generalizing upper
  case nil => exact .nil
  case cons item items hi =>
    simp only [List.map_cons, List.sum_cons] at hs
    refine .cons (fun n hn => ?_) (hi (by omega))
    have hd : n.dst + n.item.alignedlen ≤ upper - item.alignedlen :=
      dst_add_le_of_mem_plan (by omega) hn
    exact .inl hd

theorem lpLen_repoint {ms : List Move} {linp : List ItemIdData} {i : Nat} :
    (repoint ms linp)[i]?.map (·.lpLen) = linp[i]?.map (·.lpLen) := by
  induction ms generalizing linp
  case nil => rfl
  case cons m ms hi =>
    rw [repoint, List.foldl_cons]
    refine hi.trans ?_
    rw [List.getElem?_modify]
    cases linp[i]?
    case none    => rfl
    case some lp => by_cases h : m.item.offsetindex = i <;> simp [h]

end Move

theorem maxalign_maxalign (n : Nat) : maxalign (maxalign n) = maxalign n := by
  simp only [maxalign]
  omega

namespace HeapPage

variable {page : HeapPage} {k : Keystream} {bn i : Nat} {r : Page} {m n : Move} {lp : ItemIdData}

theorem moves_aligned (h : m ∈ page.moves) : maxalign m.dst = m.dst := by
  refine Move.plan_aligned page.special_aligned (fun item hi => ?_) page.sum_le_special h
  rw [storage_alignedlen hi, maxalign_maxalign]

theorem moves_apart (hm : m ∈ page.moves) (hn : n ∈ page.moves)
    (hne : m.item.offsetindex ≠ n.item.offsetindex) : m.Apart n :=
  (Move.plan_apart page.sum_le_special).forall hm hn fun he => hne (he ▸ rfl)

-- Each line pointer with storage was there before the compaction.
theorem Repaired.line_inv (h : page.Repaired k bn r) (hl : r.linp[i]? = some lp) (hs : lp.hasStorage) :
    ∃ m ∈ page.moves, ∃ lp₀, page.linp[i]? = some lp₀ ∧ lp₀.hasStorage ∧ m.item = .ofLp i lp₀ ∧
      lp = { lp₀ with lpOff := m.dst } := by
  obtain ⟨c, _, he⟩ := h.linp
  have hlt : i < c := by
    by_contra hc
    simp [he, hc] at hl
  have hlen := @Move.lpLen_repoint page.layout.moved (page.linp.map LineScan.cleared) i
  rw [he, List.getElem?_take_of_lt hlt] at hl
  rw [hl, List.getElem?_map, Option.map_map] at hlen
  obtain ⟨lp₀, hl₀, hc⟩ := Option.map_eq_some_iff.mp hlen.symm
  have hs₀ : lp₀.hasStorage := by
    simp only [Function.comp_apply, LineScan.cleared] at hc
    split at hc
    case isTrue  => simpa [ItemIdData.hasStorage, hc] using hs
    case isFalse => simp [ItemIdData.hasStorage, ←hc, ItemIdData.setUnused] at hs
  obtain ⟨m, hm, hi⟩ := move_of_lp hl₀ hs₀
  have hr := h.line hm hi hl₀ hs₀
  rw [he, List.getElem?_take_of_lt hlt, hl, Option.some.injEq] at hr
  exact ⟨m, hm, lp₀, hl₀, hs₀, hi, hr⟩

theorem Repaired.bytes (h : page.Repaired k bn r) (hc : page.layout.Cancels k bn)
    (hm : m ∈ page.moves) : ∀ j < m.item.len, r.mem (m.dst + j) = page.mem (m.src + j) := by
  intro j hj
  have hmm : m ∈ (page.layout.masks k bn).map (·.1) := masks_fst ▸ hm
  obtain ⟨q, hq, he⟩ := List.mem_map.mp hmm
  subst he
  have ha := (storage_valid (item_mem_storage hm)).aligned
  rw [h.tuples q hq j (by omega), hc.2 q hq j hj, UInt8.xor_zero]

theorem Repaired.pdLower_le (h : page.Repaired k bn r) : r.pdLower ≤ r.pdUpper := by
  obtain ⟨c, _, he⟩ := h.linp
  have hl : r.linp.length ≤ page.linp.length := by
    rw [he, List.length_take, Move.length_repoint, List.length_map]
    exact Nat.min_le_right _ _
  have hlo := page.lower_le
  have hs := page.storage_sum_le
  have hu := page.upper_le
  rw [h.upper]
  simp only [Page.pdLower, sizeofItemIdData] at hlo ⊢
  omega

theorem Repaired.pdUpper_le (h : page.Repaired k bn r) : r.pdUpper ≤ r.pdSpecial := by
  rw [h.upper, h.special]
  omega

theorem Repaired.pdSpecial_le (h : page.Repaired k bn r) : r.pdSpecial ≤ blcksz :=
  h.special ▸ page.special_le

theorem Repaired.pdSpecial_aligned (h : page.Repaired k bn r) : maxalign r.pdSpecial = r.pdSpecial :=
  h.special ▸ page.special_aligned

theorem Repaired.tuple (h : page.Repaired k bn r) (hc : page.layout.Cancels k bn) (lp : ItemIdData)
    (hl : lp ∈ r.linp) (hs : lp.hasStorage) : lp.Tuple r := by
  obtain ⟨i, hi⟩ := List.mem_iff_getElem?.mp hl
  obtain ⟨m, hm, lp₀, hl₀, hs₀, he, hlp⟩ := h.line_inv hi hs
  have ht := tuple_of_getElem? hl₀ hs₀
  have hd := Move.dst_add_le_of_mem_plan page.sum_le_special hm
  have hle := Move.le_dst_of_mem_plan hm
  have hal := le_maxalign lp₀.lpLen
  have hh := ht.header
  have hf := ht.hoff_le
  have hb := h.bytes hc hm
  simp only [sizeofHeapTupleHeaderData] at hh
  simp only [he, Move.src, ItemIdCompactData.ofLp] at hd hb
  have hho : tHoff r.mem m.dst = tHoff page.mem lp₀.lpOff := by
    rw [tHoff, tHoff, hb 22 (by omega)]
  subst hlp
  constructor
  case normal     => exact ht.normal
  case upper_le   => rw [h.upper]; exact hle
  case le_special => rw [h.special]; simp only; omega
  case aligned    => exact moves_aligned hm
  case header     => rw [hho]; exact ht.header
  case hoff_le    => rw [hho]; exact ht.hoff_le

theorem Repaired.disjoint (h : page.Repaired k bn r) : r.linp.Pairwise fun lp₁ lp₂ =>
    lp₁.hasStorage → lp₂.hasStorage → lp₁.extent.Disjoint lp₂.extent := by
  rw [List.pairwise_iff_getElem]
  intro i j hi hj hij hs₁ hs₂
  obtain ⟨m, hm, lp₁, _, _, he₁, hlp₁⟩ := h.line_inv (List.getElem?_eq_getElem hi) hs₁
  obtain ⟨n, hn, lp₂, _, _, he₂, hlp₂⟩ := h.line_inv (List.getElem?_eq_getElem hj) hs₂
  have hd := moves_apart hm hn (by
    rw [he₁, he₂]
    simp only [ItemIdCompactData.ofLp]
    omega)
  have ha₁ := le_maxalign lp₁.lpLen
  have ha₂ := le_maxalign lp₂.lpLen
  simp only [Move.Apart, he₁, he₂, ItemIdCompactData.ofLp] at hd
  simp only [hlp₁, hlp₂, Extent.Disjoint, ItemIdData.extent]
  omega

-- A page whose compaction leaves the tuples' bytes alone is well-formed again.
def Repaired.heapPage (h : page.Repaired k bn r) (hc : page.layout.Cancels k bn) : HeapPage where
  toPage          := r
  lower_le        := h.pdLower_le
  upper_le        := h.pdUpper_le
  special_le      := h.pdSpecial_le
  special_aligned := h.pdSpecial_aligned
  tuples          := h.tuple hc
  disjoint        := h.disjoint

theorem Repaired.upper_aligned (h : page.Repaired k bn r) : maxalign r.pdUpper = r.pdUpper := by
  have hd : ∀ item ∈ page.storage, 8 ∣ item.alignedlen := by
    intro item hi
    rw [storage_alignedlen hi]
    exact Nat.dvd_mul_left _ _
  have hs : 8 ∣ (page.storage.map (·.alignedlen)).sum :=
    List.dvd_sum <| by simpa using hd
  have hsp := page.special_aligned
  rw [h.upper]
  simp only [maxalign] at hsp ⊢
  omega

variable {P : Platform} {key : Block} {stack : Memory} {inserted : Nat → List UInt8}

-- A compaction that leaves the tuples' bytes alone keeps a page's data.
theorem Repaired.intact {plan : page.Plan} (h : (page.pruned plan).Repaired k bn r)
    (hc : (page.pruned plan).layout.Cancels k bn) (hi : page.Intact inserted) : r.Intact inserted where
  wellFormed := ⟨h.upper_aligned, h.heapPage hc, rfl⟩
  data       := by
    intro i lp hl hs
    obtain ⟨m, hm, lp₀, hl₀, hs₀, he, hlp⟩ := h.line_inv hl hs
    have ht := tuple_of_getElem? hl₀ hs₀
    have hh := ht.header
    have hf := ht.hoff_le
    have hb := h.bytes hc hm
    simp only [sizeofHeapTupleHeaderData, pruned_mem] at hh hf
    simp only [he, Move.src, ItemIdCompactData.ofLp, pruned_mem] at hb
    have hho : tHoff r.mem m.dst = tHoff page.mem lp₀.lpOff := by
      rw [tHoff, tHoff, hb 22 (by omega)]
    subst hlp
    rw [←hi.data i lp₀ (clearAll_line hl₀ hs₀) hs₀]
    simp only [Page.tupleData, hho]
    refine Memory.read_congr fun j hj => ?_
    rw [Nat.add_assoc, hb _ (by omega), Nat.add_assoc]

theorem pgTdePagePruneExecute_intact {plan : page.Plan} (hi : page.Intact inserted)
    (hc : (page.pruned plan).layout.Cancels (P.keystream key) bn)
    (h : P.pgTdePagePruneExecute bn key stack plan.val page.toPage = .ok r) : r.Intact inserted := by
  obtain ⟨r', he, hr⟩ := repair_ok P bn key stack hc.1
  rw [pgTdePagePruneExecute_eq, he, Except.ok.injEq] at h
  exact h ▸ hr.intact hc hi

end HeapPage
