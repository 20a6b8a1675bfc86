import PgTde.Prune.Theorems.Recryption

namespace Move

variable {ms : List Move} {linp : List ItemIdData}

theorem repoint_append {ns : List Move} : repoint (ms ++ ns) linp = repoint ns (repoint ms linp) :=
  List.foldl_append

-- Moves of tuples that are in place leave the line pointers as they are.
theorem repoint_inPlace
    (h : ∀ m ∈ ms, ∀ lp, linp[m.item.offsetindex]? = some lp → lp.lpOff = m.dst) :
    repoint ms linp = linp := by
  induction ms
  case nil          => rfl
  case cons m ms hi =>
    have hm : linp.modify m.item.offsetindex ({ · with lpOff := m.dst }) = linp := by
      apply List.ext_getElem?
      intro i
      rw [List.getElem?_modify]
      cases hl : linp[i]?
      case none    => rfl
      case some lp =>
        by_cases he : m.item.offsetindex = i
        case neg => simp [he]
        case pos =>
          have ho := h m (by simp) lp (he ▸ hl)
          simp [he, ←ho]
    rw [repoint, List.foldl_cons, hm]
    exact hi fun n hn => h n (by simp [hn])

end Move

-- The index behind the last element without the property `p`.
theorem List.length_rdropWhile_eq {α : Type} {p : α → Bool} {l : List α} {n : Nat}
    (hu : ∀ (i : Nat) a, l[i]? = some a → ¬p a → i < n)
    (hl : n = 0 ∨ ∃ (i : Nat) (a : α), l[i]? = some a ∧ ¬p a ∧ n = i + 1) :
    (l.rdropWhile p).length = n := by
  have hk : l.rdropWhile p ++ l.rtakeWhile p = l := List.rdropWhile_append_rtakeWhile
  apply Nat.le_antisymm
  case h₁ =>
    by_cases h₀ : l.rdropWhile p = []
    case pos => simp [h₀]
    case neg =>
      have hp := List.length_pos_iff.mpr h₀
      have hg : l[(l.rdropWhile p).length - 1]? = some ((l.rdropWhile p).getLast h₀) := by
        rw [←List.getLast?_eq_some_getLast, List.getLast?_eq_getElem?]
        nth_rewrite 1 [←hk]
        exact List.getElem?_append_left (by omega)
      have := hu _ _ hg (List.rdropWhile_last_not _ _ h₀)
      omega
  case h₂ =>
    obtain rfl | ⟨i, a, ha, hp, rfl⟩ := hl
    · exact Nat.zero_le _
    · by_contra hn
      rw [←hk, List.getElem?_append_right (by omega)] at ha
      exact hp (List.mem_rtakeWhile_imp (List.mem_of_getElem? ha))

namespace AcceptedPage

variable {page : AcceptedPage} {s : LineScan} {r : Page}

variable (page) in
-- The line pointers up to the last one that is used.
def kept : List ItemIdData :=
  page.linp.rdropWhile (¬·.isUsed)

theorem repoint_moved : Move.repoint page.layout.moved (page.linp.map LineScan.cleared) =
    LineScan.relocate page.pdSpecial page.linp := by
  have hu : ∀ lp ∈ page.linp, lp.hasStorage → lp.isUsed := fun lp hl hs => (page.lines lp hl hs).used
  have hs : Move.repoint page.layout.skipped (page.linp.map LineScan.cleared) =
      page.linp.map LineScan.cleared := by
    apply Move.repoint_inPlace
    intro m hm lp hl
    have hp := Page.layout_inPlace hm
    have hmem : m ∈ Move.plan page.pdSpecial page.storage := Page.layout_moves ▸ List.mem_append_left _ hm
    obtain ⟨lp', i, hl', hst, hi⟩ := Page.mem_storage.mp (Move.item_mem_of_mem_plan hmem)
    have hc : LineScan.cleared lp' = lp' := if_pos (hu lp' (List.mem_of_getElem? hl') hst)
    simp only [Move.inPlace, Move.src, hi, ItemIdCompactData.ofLp, decide_eq_true_eq] at hp
    simp only [hi, ItemIdCompactData.ofLp, List.getElem?_map, hl', Option.map_some, hc, Option.some.injEq] at hl
    rw [hp, ←hl]
  have hr : Move.repoint (page.layout.skipped ++ page.layout.moved) (page.linp.map LineScan.cleared) =
      LineScan.relocate page.pdSpecial page.linp := by
    rw [Page.layout_moves]
    exact @LineScan.repoint_plan [] _ _ hu
  rwa [Move.repoint_append, hs] at hr

theorem Collected.length_kept (h : page.Collected s) : page.kept.length = s.finalusedlp := by
  apply List.length_rdropWhile_eq
  case hu => simpa using h.used
  case hl => simpa using h.last

theorem kept_append : page.kept ++ page.linp.rtakeWhile (¬·.isUsed) = page.linp :=
  List.rdropWhile_append_rtakeWhile

theorem take_length_kept : page.linp.take page.kept.length = page.kept := by
  nth_rewrite 1 [←kept_append]
  exact List.take_left

theorem length_kept_add : page.kept.length + (page.linp.rtakeWhile (¬·.isUsed)).length = page.linp.length := by
  rw [←List.length_append, kept_append]

-- The line pointers that are cut off are unused, and hence without storage.
theorem rtakeWhile_unused {lp : ItemIdData} (h : lp ∈ page.linp.rtakeWhile (¬·.isUsed)) :
    lp.isUsed = false ∧ ¬lp.hasStorage := by
  have hu : lp.isUsed = false := by simpa using List.mem_rtakeWhile_imp h
  refine ⟨hu, fun hs => ?_⟩
  have := (page.lines lp (List.rtakeWhile_suffix _ _ |>.mem h) hs).used
  simp [hu] at this

theorem items_kept : LineScan.items 0 page.kept = page.storage := by
  rw [←items_eq_storage, ←@kept_append page, LineScan.items_append,
    LineScan.items_eq_nil fun lp hl => (rtakeWhile_unused hl).2, List.append_nil]

theorem countP_kept : page.kept.countP (¬·.isUsed) =
    page.linp.countP (¬·.isUsed) - (page.linp.rtakeWhile (¬·.isUsed)).length := by
  have hc : (page.linp.rtakeWhile (¬·.isUsed)).countP (¬·.isUsed) =
      (page.linp.rtakeWhile (¬·.isUsed)).length := by
    rw [List.countP_eq_length]
    exact fun lp hl => by simpa using (rtakeWhile_unused hl).1
  have ha := congrArg (List.countP (¬·.isUsed)) (@kept_append page)
  rw [List.countP_append, hc] at ha
  omega

theorem getElem?_kept {i : Nat} {lp : ItemIdData} (h : page.linp[i]? = some lp) (hu : lp.isUsed) :
    page.kept[i]? = some lp := by
  rw [←kept_append] at h
  by_cases hi : i < page.kept.length
  case pos => rwa [List.getElem?_append_left hi] at h
  case neg =>
    rw [List.getElem?_append_right (Nat.not_lt.mp hi)] at h
    simp [(rtakeWhile_unused (List.mem_of_getElem? h)).1] at hu

theorem Repaired.linp_eq (h : page.Repaired s r) (hs : page.Collected s) :
    r.linp = LineScan.relocate page.pdSpecial page.kept := by
  rw [h.linp, repoint_moved, LineScan.take_relocate, ←hs.length_kept, take_length_kept]

theorem Repaired.defragmented (h : page.Repaired s r) (hs : page.Collected s) :
    Page.Defragmented page.toPage r := by
  have hl := h.linp_eq hs
  have hst : r.storage = LineScan.items 0 (LineScan.relocate page.pdSpecial page.kept) := by
    rw [←hl]
    rfl
  have htl : Extent.Tiles r.pdUpper r.pdSpecial (r.storage.map (·.extent)) := by
    rw [hst, h.upper, h.special, ←items_kept]
    exact LineScan.tiles_relocate (items_kept ▸ page.sum_le_special)
  constructor
  case special  => exact h.special
  case items    =>
    intro i lp hi hst
    rw [hl]
    exact LineScan.relocate_of_storage
      (getElem?_kept hi (page.lines lp (List.mem_of_getElem? hi) hst).used) hst
  case storage  => rw [hst, LineScan.items_relocate, items_kept]
  case tiles    => exact htl
  case disjoint => exact htl.disjoint
  case upper    => exact h.upper
  case others   =>
    intro i lp hi hu hn
    rw [hl, LineScan.relocate_of_not_storage (getElem?_kept hi hu) hn, LineScan.cleared, if_pos hu]
  case lower    =>
    have := @length_kept_add page
    simp only [Page.pdLower, hl, LineScan.length_relocate, sizeofItemIdData]
    omega
  case hint     =>
    have hc : r.linp.countP (¬·.isUsed) = page.kept.countP (¬·.isUsed) := by
      have hm := congrArg (List.countP (! ·)) (@LineScan.isUsed_relocate page.kept page.pdSpecial)
      simpa [hl, List.countP_map, Function.comp_def] using hm
    have hlen := @length_kept_add page
    have hp : r.pdHasFreeLines ↔ 0 < r.linp.countP (¬·.isUsed) := by
      rw [h.hint, decide_eq_true_eq, hs.nunused, ←hs.length_kept, hc, countP_kept]
      omega
    simpa [List.countP_pos_iff] using hp

end AcceptedPage

-- A page with a tuple of 40 bytes at its end, a long one and a short one. Most line pointers are unused.
def prunedPage : AcceptedPage where
  pdUpper         := 4000
  pdSpecial       := 8192
  pdHasFreeLines  := false
  linp            := [⟨8152, .normal, 40⟩, ⟨4000, .normal, 1000⟩, ⟨6000, .normal, 40⟩] ++
    List.replicate 13 ⟨0, .unused, 0⟩
  mem a           := if a = 8152 + 22 ∨ a = 4000 + 22 ∨ a = 6000 + 22 then 24 else 0
  lower_le        := by decide
  upper_le        := by decide
  special_le      := emptySpecial_le
  special_aligned := emptySpecial_aligned
  lines           := by
    simp only [List.cons_append, List.nil_append, List.forall_mem_cons, List.mem_replicate]
    refine ⟨fun _ => by constructor <;> decide, fun _ => by constructor <;> decide,
      fun _ => by constructor <;> decide, ?_⟩
    rintro _ ⟨-, rfl⟩ hs
    cases hs
  total_le        := by decide
