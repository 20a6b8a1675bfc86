import PgTde.Prune.Theorems.Compactify

namespace Move

variable {m : Move} {ms : List Move} {linp : List ItemIdData} {i : Nat}

@[simp]
theorem length_repoint : (repoint ms linp).length = linp.length := by
  induction ms generalizing linp
  case nil          => rfl
  case cons m ms hi =>
    have h : (repoint ms (linp.modify m.item.offsetindex ({ · with lpOff := m.dst }))).length = _ := hi
    simpa [repoint] using h

theorem repoint_of_not_mem (h : ∀ m ∈ ms, m.item.offsetindex ≠ i) :
    (repoint ms linp)[i]? = linp[i]? := by
  induction ms generalizing linp
  case nil          => rfl
  case cons m ms hi =>
    rw [repoint, List.foldl_cons]
    refine (hi fun n hn => h n (by simp [hn])).trans ?_
    simp [h m (by simp)]

theorem repoint_of_mem (hn : (ms.map (·.item.offsetindex)).Nodup) (h : m ∈ ms) :
    (repoint ms linp)[m.item.offsetindex]? =
    linp[m.item.offsetindex]?.map ({ · with lpOff := m.dst }) := by
  induction ms generalizing linp
  case nil          => simp at h
  case cons n ms hi =>
    simp only [List.map_cons, List.nodup_cons, List.mem_map, not_exists, not_and] at hn
    rw [repoint, List.foldl_cons]
    cases List.mem_cons.mp h
    case inl h =>
      subst h
      refine (repoint_of_not_mem fun p hp => hn.1 p hp).trans ?_
      simp
    case inr h =>
      have hne : n.item.offsetindex ≠ m.item.offsetindex := fun he => hn.1 m h he.symm
      refine (hi hn.2 h).trans ?_
      simp [hne]

end Move

namespace HeapPage

variable {page : HeapPage} {P : Platform} {bn : Nat} {key : Block} {stack : Memory}

-- What `TdePageRepairFragmentation` does to a page.
structure Repaired (k : Keystream) (bn : Nat) (page : HeapPage) (r : Page) : Prop where
  tuples  : ∀ q ∈ page.layout.masks k bn, ∀ j < q.1.item.alignedlen,
    r.mem (q.1.dst + j) = page.mem (q.1.src + j) ^^^ q.2 j
  linp    : ∃ n, (∀ i lp, page.linp[i]? = some lp → lp.isUsed → i < n) ∧
    r.linp = (Move.repoint page.layout.moved (page.linp.map LineScan.cleared)).take n
  upper   : r.pdUpper = page.pdSpecial - (page.storage.map (·.alignedlen)).sum
  special : r.pdSpecial = page.pdSpecial

theorem accepted_lines : ∀ lp ∈ page.linp, lp.hasStorage → lp.Accepted page.toPage := by
  intro lp hl hs
  have ht := page.tuples lp hl hs
  have hn := ht.normal
  have hle := ht.le_special
  simp only [ItemIdData.isNormal, ItemIdData.hasStorage, decide_eq_true_eq] at hn hs
  exact ⟨by simp [ItemIdData.isUsed, hn], ht.upper_le, by omega⟩

variable (page) in
-- A heap page passes the checks.
def accepted : AcceptedPage where
  toPage          := page.toPage
  lower_le        := page.lower_le
  upper_le        := page.upper_le
  special_le      := page.special_le
  special_aligned := page.special_aligned
  lines           := accepted_lines
  total_le        := Nat.le_trans page.storage_sum_le (Nat.sub_le_sub_left page.lower_le _)

-- The rest of `TdePageRepairFragmentation`, after the scan of the line pointers.
def finishRepair (page : HeapPage) (s : LineScan) (r : Page) : Page :=
  { r with
    linp           := r.linp.take s.finalusedlp
    pdHasFreeLines := decide (s.nunused - (page.linp.length - s.finalusedlp) > 0) }

variable (P bn key stack page) in
theorem repair_eq : ∃ s : LineScan,
    (∀ i lp, page.linp[i]? = some lp → lp.isUsed → i < s.finalusedlp) ∧
    ∃ p, Platform.Scanned page.toPage p ∧ p.linp = page.linp.map LineScan.cleared ∧
    P.tdePageRepairFragmentation bn key stack page.toPage =
    if page.storage = [] then
      .ok (finishRepair page s { p with pdUpper := page.pdSpecial })
    else
      P.pgtdeCompactifyTuples bn key stack page.storage p page.presorted >>= fun r =>
      .ok (finishRepair page s r) := by
  obtain ⟨s, he, hs⟩ := page.accepted.scanItems_eq page.storage_length_le_max
  have hl : s.linp = page.linp.map LineScan.cleared := hs.linp
  have hi : s.itemidbase = page.storage := hs.itemidbase
  have hp : s.presorted = page.presorted := hs.presorted
  have he : LineScan.scanItems page.toPage 1 page.linp (.init page.toPage) = .ok s := he
  refine ⟨s, hs.used, { page.toPage with linp := s.linp }, ⟨rfl, rfl, rfl, by simp [hl]⟩, hl, ?_⟩
  have hc : ¬(page.pdLower < sizeOfPageHeaderData ∨ page.pdLower > page.pdUpper ∨
      page.pdUpper > page.pdSpecial ∨ page.pdSpecial > blcksz ∨
      page.pdSpecial ≠ maxalign page.pdSpecial) := page.accepted.checks_pass
  have hc' : ¬s.totallen > page.pdSpecial - page.pdLower :=
    Nat.not_lt.mpr (hs.totallen ▸ page.accepted.total_le)
  simp only [Platform.tdePageRepairFragmentation, if_neg hc, if_neg hc', he, Outcome.ok_bind, hi, hp,
    List.length_eq_zero_iff]
  split <;> rfl

theorem layout_of_storage_nil (h : page.storage = []) :
    page.layout.skipped = [] ∧ page.layout.moved = [] := by
  have hm : page.layout.skipped ++ page.layout.moved = page.moves := layout_moves
  rwa [moves, h, Move.plan, List.append_eq_nil_iff] at hm

variable (P bn key stack) in
theorem repair_ok (hb : page.layout.InBounds) :
    ∃ r, P.tdePageRepairFragmentation bn key stack page.toPage = .ok r ∧
      page.Repaired (P.keystream key) bn r := by
  obtain ⟨s, hu, p, hp, hl, he⟩ := repair_eq page P bn key stack
  by_cases hs : page.storage = []
  case pos =>
    obtain ⟨hsk, hmv⟩ := layout_of_storage_nil hs
    refine ⟨_, by rw [he, if_pos hs], ?_⟩
    constructor
    case tuples  => simp [Layout.masks, hsk, hmv, Move.masks]
    case linp    => exact ⟨_, hu, by simp [finishRepair, hl, hmv, Move.repoint]⟩
    case upper   => simp [finishRepair, hs]
    case special => exact hp.special
  case neg =>
    obtain ⟨r, hr, hc⟩ := Platform.compactify_compacted P bn key stack hs hb hp
    refine ⟨_, by rw [he, if_neg hs, hr, Outcome.ok_bind], ?_⟩
    constructor
    case tuples  => exact hp.mem ▸ hc.tuples
    case linp    => exact ⟨_, hu, by simp [finishRepair, hc.linp, hl]⟩
    case upper   =>
      obtain ⟨item, items, hi⟩ := List.exists_cons_of_ne_nil hs
      have hup := hc.upper
      rw [Layout.moves, layout_moves, moves, hi, Move.getLast?_plan, Option.some.injEq] at hup
      rw [hi, hup]
      rfl
    case special => exact hc.special.trans hp.special

theorem repair_undefined (hb : ¬page.layout.InBounds) :
    P.tdePageRepairFragmentation bn key stack page.toPage = .error .undefined := by
  obtain ⟨s, hu, p, hp, hl, he⟩ := repair_eq page P bn key stack
  have hs : page.storage ≠ [] := by
    intro hs
    simp [Layout.InBounds, (layout_of_storage_nil hs).2, Move.reach] at hb
  rw [he, if_neg hs, Platform.compactify_undefined hs hb hp, Outcome.error_bind]

end HeapPage
