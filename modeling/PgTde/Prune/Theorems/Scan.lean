import PgTde.Prune.Theorems.Storage

namespace LineScan

variable {page : Page} {s s' : LineScan} {i : Nat} {lp : ItemIdData} {lps : List ItemIdData}

-- What the scan leaves of a line pointer.
def cleared (lp : ItemIdData) : ItemIdData :=
  if lp.isUsed then lp else lp.setUnused

def items (i : Nat) (lps : List ItemIdData) : List ItemIdCompactData :=
  ((lps.zipIdx i).filter (·.1.hasStorage)).map fun p => .ofLp p.2 p.1

theorem items_cons : items i (lp :: lps) =
    if lp.hasStorage then .ofLp i lp :: items (i + 1) lps else items (i + 1) lps := by
  by_cases h : lp.hasStorage <;> simp [items, h]

def descending (offs : List Nat) : Bool :=
  offs.Pairwise (· > ·)

theorem descending_cons_cons {a b : Nat} {offs : List Nat} :
    descending (a :: b :: offs) = (decide (a > b) && descending (b :: offs)) := by
  simp only [descending, ←Bool.decide_and, decide_eq_decide]
  constructor
  case mp  => exact fun h => ⟨List.rel_of_pairwise_cons h (by simp), h.tail⟩
  case mpr =>
    rintro ⟨h, hp⟩
    refine List.pairwise_cons.mpr ⟨?_, hp⟩
    simp only [List.mem_cons, forall_eq_or_imp]
    exact ⟨h, fun x hx => Nat.lt_trans (List.rel_of_pairwise_cons hp hx) h⟩

-- The effect of the scan of the line pointers `lps`, the first of which has the index `i`.
structure Scanned (i : Nat) (lps : List ItemIdData) (s s' : LineScan) : Prop where
  linp       : s'.linp = s.linp ++ lps.map cleared
  itemidbase : s'.itemidbase = s.itemidbase ++ items i lps
  totallen   : s'.totallen = s.totallen + ((items i lps).map (·.alignedlen)).sum
  presorted  : s'.presorted =
    (s.presorted && descending (s.lastOffset :: (items i lps).map (·.itemoff)))
  final_le   : s.finalusedlp ≤ i → s.finalusedlp ≤ s'.finalusedlp
  used       : ∀ j lp, lps[j]? = some lp → lp.isUsed → i + j < s'.finalusedlp
  last       : s'.finalusedlp = s.finalusedlp ∨
    ∃ j lp, lps[j]? = some lp ∧ lp.isUsed ∧ s'.finalusedlp = i + j + 1
  nunused    : s'.nunused = s.nunused + lps.countP (¬·.isUsed)

theorem scanItem_accepted (ha : lp.Accepted page) (hs : lp.hasStorage)
    (hl : s.itemidbase.length < maxHeapTuplesPerPage) :
    scanItem page s (i + 1) lp = .ok { s with
      linp        := s.linp ++ [lp]
      itemidbase  := s.itemidbase ++ [.ofLp i lp]
      lastOffset  := if s.lastOffset > lp.lpOff then lp.lpOff else s.lastOffset
      presorted   := s.presorted && decide (s.lastOffset > lp.lpOff)
      totallen    := s.totallen + maxalign lp.lpLen
      finalusedlp := i + 1 } := by
  have hu := ha.upper_le
  have hp := ha.lt_special
  rw [scanItem, if_pos ha.used, if_pos hs, if_pos hl, if_neg (by omega)]
  rfl

theorem used_cons {n : Nat} (h : ∀ j p, lps[j]? = some p → p.isUsed → i + 1 + j < n)
    (hp : lp.isUsed → i < n) (j : Nat) (p : ItemIdData) (hj : (lp :: lps)[j]? = some p)
    (hu : p.isUsed) : i + j < n := by
  cases j
  case zero =>
    simp only [List.getElem?_cons_zero, Option.some.injEq] at hj
    exact hp (hj ▸ hu)
  case succ j =>
    have := h j p (by simpa using hj) hu
    omega

theorem last_cons {f₁ f₂ f₃ : Nat}
    (h : f₃ = f₂ ∨ ∃ j p, lps[j]? = some p ∧ p.isUsed ∧ f₃ = i + 1 + j + 1)
    (hp : f₂ = f₁ ∨ lp.isUsed ∧ f₂ = i + 1) :
    f₃ = f₁ ∨ ∃ j p, (lp :: lps)[j]? = some p ∧ p.isUsed ∧ f₃ = i + j + 1 := by
  obtain rfl | ⟨j, p, hj, hu, he⟩ := h
  · exact hp.imp id fun ⟨hu, he⟩ => ⟨0, lp, rfl, hu, he⟩
  · exact .inr ⟨j + 1, p, hj, hu, by omega⟩

theorem scanItems_scanned (ht : ∀ lp ∈ lps, lp.hasStorage → lp.Accepted page)
    (hl : s.itemidbase.length + (items i lps).length ≤ maxHeapTuplesPerPage)
    (hf : s.finalusedlp ≤ i) :
    ∃ s', scanItems page (i + 1) lps s = .ok s' ∧ Scanned i lps s s' := by
  induction lps generalizing i s
  case nil =>
    refine ⟨s, rfl, ?_⟩
    constructor <;> simp [items, descending]
  case cons lp lps hi =>
    have ht' : ∀ lp ∈ lps, lp.hasStorage → lp.Accepted page := fun p hp => ht p (by simp [hp])
    by_cases hs : lp.hasStorage
    case pos =>
      simp only [items_cons, hs, if_true, List.length_cons] at hl
      have ht := ht lp (by simp) hs
      obtain ⟨s', h, hs'⟩ := hi (i := i + 1) (s := { s with
        linp        := s.linp ++ [lp]
        itemidbase  := s.itemidbase ++ [.ofLp i lp]
        lastOffset  := if s.lastOffset > lp.lpOff then lp.lpOff else s.lastOffset
        presorted   := s.presorted && decide (s.lastOffset > lp.lpOff)
        totallen    := s.totallen + maxalign lp.lpLen
        finalusedlp := i + 1 }) ht' (by simp; omega) (Nat.le_refl _)
      refine ⟨s', by rw [scanItems, scanItem_accepted ht hs (by omega), Outcome.ok_bind, h], ?_⟩
      have hfin := hs'.final_le (Nat.le_refl _)
      have hc : cleared lp = lp := if_pos ht.used
      constructor
      case linp       => simp [hs'.linp, hc]
      case itemidbase => simp [hs'.itemidbase, items_cons, hs]
      case totallen   => simp [hs'.totallen, items_cons, hs, Nat.add_assoc, ItemIdCompactData.ofLp]
      case presorted  =>
        rw [hs'.presorted, items_cons, if_pos hs, List.map_cons, descending_cons_cons]
        by_cases hl : s.lastOffset > lp.lpOff
        case pos => simp [hl, ItemIdCompactData.ofLp]
        case neg => simp [hl, ItemIdCompactData.ofLp]
      case final_le   => simp only at hfin; omega
      case used       => exact used_cons hs'.used fun _ => hfin
      case last       => exact last_cons hs'.last (.inr ⟨ht.used, rfl⟩)
      case nunused    => simp [hs'.nunused, ht.used]
    case neg =>
      simp only [items_cons, hs, Bool.false_eq_true, if_false] at hl
      by_cases hu : lp.isUsed
      case pos =>
        obtain ⟨s', h, hs'⟩ := hi (i := i + 1)
          (s := { s with linp := s.linp ++ [lp], finalusedlp := i + 1 }) ht' hl (Nat.le_refl _)
        refine ⟨s', by simpa [scanItems, scanItem, hu, hs] using h, ?_⟩
        have hfin := hs'.final_le (Nat.le_refl _)
        constructor
        case linp       => simp [hs'.linp, cleared, hu]
        case itemidbase => simp [hs'.itemidbase, items_cons, hs]
        case totallen   => simp [hs'.totallen, items_cons, hs]
        case presorted  => simp [hs'.presorted, items_cons, hs]
        case final_le   => simp only at hfin; omega
        case used       => exact used_cons hs'.used fun _ => hfin
        case last       => exact last_cons hs'.last (.inr ⟨hu, rfl⟩)
        case nunused    => simp [hs'.nunused, hu]
      case neg =>
        obtain ⟨s', h, hs'⟩ := hi (i := i + 1)
          (s := { s with linp := s.linp ++ [lp.setUnused], nunused := s.nunused + 1 }) ht' hl
          (by simp only; omega)
        refine ⟨s', by simpa [scanItems, scanItem, hu] using h, ?_⟩
        constructor
        case linp       => simp [hs'.linp, cleared, hu]
        case itemidbase => simp [hs'.itemidbase, items_cons, hs]
        case totallen   => simp [hs'.totallen, items_cons, hs]
        case presorted  => simp [hs'.presorted, items_cons, hs]
        case final_le   => exact fun h => hs'.final_le (Nat.le_succ_of_le h)
        case used       => exact used_cons hs'.used fun h => absurd h hu
        case last       => exact last_cons hs'.last (.inl rfl)
        case nunused    => simp [hs'.nunused, hu, Nat.add_assoc, Nat.add_comm]

-- More items than the array `itemidbase` has space for.
theorem scanItems_full (ht : ∀ lp ∈ lps, lp.hasStorage → lp.Accepted page)
    (hl : s.itemidbase.length ≤ maxHeapTuplesPerPage)
    (hf : maxHeapTuplesPerPage < s.itemidbase.length + (items i lps).length) :
    scanItems page (i + 1) lps s = .error .undefined := by
  induction lps generalizing i s
  case nil             => simp [items] at hf; omega
  case cons lp lps hi =>
    have ht' : ∀ lp ∈ lps, lp.hasStorage → lp.Accepted page := fun p hp => ht p (by simp [hp])
    by_cases hs : lp.hasStorage
    case pos =>
      have ht := ht lp (by simp) hs
      simp only [items_cons, hs, if_true, List.length_cons] at hf
      by_cases hlt : s.itemidbase.length < maxHeapTuplesPerPage
      case pos =>
        rw [scanItems, scanItem_accepted ht hs hlt, Outcome.ok_bind]
        exact hi ht' (by simp; omega) (by simp; omega)
      case neg => rw [scanItems, scanItem, if_pos ht.used, if_pos hs, if_neg hlt, Outcome.error_bind]
    case neg =>
      simp only [items_cons, hs, Bool.false_eq_true, if_false] at hf
      rw [scanItems, scanItem]
      by_cases hu : lp.isUsed
      case pos => rw [if_pos hu, if_neg hs, Outcome.ok_bind]; exact hi ht' hl hf
      case neg => rw [if_neg hu, Outcome.ok_bind]; exact hi ht' hl hf

end LineScan

namespace AcceptedPage

variable {page : AcceptedPage}

theorem items_eq_storage : LineScan.items 0 page.linp = page.storage :=
  rfl

-- What the scan collects on an accepted page.
structure Collected (page : AcceptedPage) (s : LineScan) : Prop where
  linp       : s.linp = page.linp.map LineScan.cleared
  itemidbase : s.itemidbase = page.storage
  totallen   : s.totallen = (page.storage.map (·.alignedlen)).sum
  presorted  : s.presorted = page.presorted
  used       : ∀ i lp, page.linp[i]? = some lp → lp.isUsed → i < s.finalusedlp
  last       : s.finalusedlp = 0 ∨ ∃ i lp, page.linp[i]? = some lp ∧ lp.isUsed ∧ s.finalusedlp = i + 1
  nunused    : s.nunused = page.linp.countP (¬·.isUsed)

variable (page) in
theorem scanItems_eq (hl : page.storage.length ≤ maxHeapTuplesPerPage) :
    ∃ s, LineScan.scanItems page.toPage 1 page.linp (.init page.toPage) = .ok s ∧ page.Collected s := by
  have hl : (LineScan.init page.toPage).itemidbase.length + (LineScan.items 0 page.linp).length ≤
      maxHeapTuplesPerPage := by simpa [LineScan.init, items_eq_storage] using hl
  obtain ⟨s, he, hs⟩ := LineScan.scanItems_scanned page.lines hl (Nat.le_refl _)
  refine ⟨s, he, ?_⟩
  constructor
  case linp       => simpa [LineScan.init] using hs.linp
  case itemidbase => simpa [LineScan.init, items_eq_storage] using hs.itemidbase
  case totallen   => simpa [LineScan.init, items_eq_storage] using hs.totallen
  case presorted  => rw [hs.presorted, items_eq_storage]; rfl
  case used       => simpa using hs.used
  case last       => simpa [LineScan.init] using hs.last
  case nunused    => simpa [LineScan.init] using hs.nunused

theorem scanItems_undefined (hl : maxHeapTuplesPerPage < page.storage.length) :
    LineScan.scanItems page.toPage 1 page.linp (.init page.toPage) = .error .undefined := by
  apply @LineScan.scanItems_full _ _ 0 _ page.lines (Nat.zero_le _)
  simpa [LineScan.init, items_eq_storage] using hl

theorem checks_pass : ¬(page.pdLower < sizeOfPageHeaderData ∨ page.pdLower > page.pdUpper ∨
    page.pdUpper > page.pdSpecial ∨ page.pdSpecial > blcksz ∨ page.pdSpecial ≠ maxalign page.pdSpecial) := by
  have h₁ := page.lower_le
  have h₂ := page.upper_le
  have h₃ := page.special_le
  have h₄ := page.special_aligned
  simp only [Page.pdLower] at *
  omega

theorem sum_le_special : (page.storage.map (·.alignedlen)).sum ≤ page.pdSpecial :=
  Nat.le_trans page.total_le (Nat.sub_le _ _)

end AcceptedPage
