import PgTde.Prune.Theorems.Scan

namespace LineScan

variable {page : Page} {pre lps lps' : List ItemIdData} {lp : ItemIdData} {i upper n : Nat}

-- The line pointers after the scan and the compaction.
def relocate : Nat → List ItemIdData → List ItemIdData
  | _, [] => []
  | upper, lp :: lps =>
    if lp.hasStorage
    then { lp with lpOff := upper - maxalign lp.lpLen } :: relocate (upper - maxalign lp.lpLen) lps
    else cleared lp :: relocate upper lps

theorem items_append : items i (lps ++ lps') = items i lps ++ items (i + lps.length) lps' := by
  induction lps generalizing i
  case nil             => rfl
  case cons lp lps hi =>
    rw [List.cons_append, items_cons, items_cons, hi, List.length_cons, Nat.add_assoc, Nat.add_comm 1]
    split <;> rfl

theorem items_eq_nil (h : ∀ lp ∈ lps, ¬lp.hasStorage) : items i lps = [] := by
  induction lps generalizing i
  case nil             => rfl
  case cons lp lps hi =>
    rw [items_cons, if_neg (h lp (by simp))]
    exact hi fun p hp => h p (by simp [hp])

theorem modify_append_cons {f : ItemIdData → ItemIdData} :
    (pre ++ lp :: lps).modify pre.length f = pre ++ f lp :: lps := by
  induction pre
  case nil           => rfl
  case cons p pre hi => exact congrArg (p :: ·) hi

-- The moves that are planned turn the line pointers into the relocated ones.
theorem repoint_plan (h : ∀ lp ∈ lps, lp.hasStorage → lp.isUsed) :
    Move.repoint (Move.plan upper (items pre.length lps)) (pre ++ lps.map cleared) =
    pre ++ relocate upper lps := by
  induction lps generalizing pre upper
  case nil             => rfl
  case cons lp lps hi =>
    have h' : ∀ lp ∈ lps, lp.hasStorage → lp.isUsed := fun p hp => h p (by simp [hp])
    by_cases hs : lp.hasStorage
    case pos =>
      have hc : cleared lp = lp := if_pos (h lp (by simp) hs)
      have hi := @hi (pre ++ [{ lp with lpOff := upper - maxalign lp.lpLen }]) (upper - maxalign lp.lpLen) h'
      rw [List.length_append, List.length_singleton, List.append_assoc, List.append_assoc] at hi
      rw [items_cons, if_pos hs, relocate, if_pos hs, List.map_cons, hc, Move.plan, Move.repoint, List.foldl_cons]
      simp only [ItemIdCompactData.ofLp, modify_append_cons]
      exact hi
    case neg =>
      have hi := @hi (pre ++ [cleared lp]) upper h'
      rw [List.length_append, List.length_singleton, List.append_assoc, List.append_assoc] at hi
      rw [items_cons, if_neg hs, relocate, if_neg hs, List.map_cons]
      exact hi

theorem take_relocate : (relocate upper lps).take n = relocate upper (lps.take n) := by
  induction lps generalizing upper n
  case nil             => simp [relocate]
  case cons lp lps hi =>
    cases n
    case zero   => rfl
    case succ n =>
      rw [List.take_succ_cons, relocate, relocate]
      split
      case isTrue  => rw [List.take_succ_cons, hi]
      case isFalse => rw [List.take_succ_cons, hi]

theorem length_relocate : (relocate upper lps).length = lps.length := by
  induction lps generalizing upper
  case nil             => rfl
  case cons lp lps hi => rw [relocate]; split <;> simp [hi]

theorem relocate_of_storage (h : lps[i]? = some lp) (hs : lp.hasStorage) :
    ∃ off, (relocate upper lps)[i]? = some { lp with lpOff := off } := by
  induction lps generalizing upper i
  case nil              => simp at h
  case cons lp' lps hi =>
    rw [relocate]
    cases i
    case zero   =>
      simp only [List.getElem?_cons_zero, Option.some.injEq] at h
      subst h
      exact ⟨_, by rw [if_pos hs]; rfl⟩
    case succ i => split <;> exact hi h

theorem relocate_of_not_storage (h : lps[i]? = some lp) (hs : ¬lp.hasStorage) :
    (relocate upper lps)[i]? = some (cleared lp) := by
  induction lps generalizing upper i
  case nil              => simp at h
  case cons lp' lps hi =>
    rw [relocate]
    cases i
    case zero   =>
      simp only [List.getElem?_cons_zero, Option.some.injEq] at h
      subst h
      rw [if_neg hs]
      rfl
    case succ i => split <;> exact hi h

theorem cleared_isUsed : (cleared lp).isUsed = lp.isUsed := by
  rw [cleared]
  split
  case isTrue    => rfl
  case isFalse h => exact (Bool.not_eq_true _ |>.mp h).symm

theorem isUsed_relocate : (relocate upper lps).map (·.isUsed) = lps.map (·.isUsed) := by
  induction lps generalizing upper
  case nil             => rfl
  case cons lp lps hi =>
    rw [relocate]
    split
    case isTrue  => rw [List.map_cons, hi]; rfl
    case isFalse => rw [List.map_cons, hi, cleared_isUsed]; rfl

theorem cleared_hasStorage (h : ¬lp.hasStorage) : ¬(cleared lp).hasStorage := by
  rw [cleared]
  split
  case isTrue  => exact h
  case isFalse => simp [ItemIdData.hasStorage, ItemIdData.setUnused]

theorem items_relocated {off : Nat} (hs : lp.hasStorage) :
    items i ({ lp with lpOff := off } :: lps) = .ofLp i { lp with lpOff := off } :: items (i + 1) lps := by
  rw [items_cons]
  exact if_pos hs

theorem items_relocate :
    (items i (relocate upper lps)).map (fun item => (item.offsetindex, item.len)) =
    (items i lps).map fun item => (item.offsetindex, item.len) := by
  induction lps generalizing i upper
  case nil             => rfl
  case cons lp lps hi =>
    rw [relocate, @items_cons i lp]
    split
    case isTrue hs  =>
      rw [items_relocated hs, List.map_cons, List.map_cons, hi]
      rfl
    case isFalse hs => rw [items_cons, if_neg (cleared_hasStorage hs), hi]

theorem tiles_relocate (h : ((items i lps).map (·.alignedlen)).sum ≤ upper) :
    Extent.Tiles (upper - ((items i lps).map (·.alignedlen)).sum) upper
      ((items i (relocate upper lps)).map (·.extent)) := by
  induction lps generalizing i upper
  case nil             => rfl
  case cons lp lps hi =>
    rw [relocate]
    rw [items_cons] at h ⊢
    by_cases hs : lp.hasStorage
    case pos =>
      rw [if_pos hs, List.map_cons, List.sum_cons] at h
      rw [if_pos hs, if_pos hs, items_relocated hs, List.map_cons, List.map_cons, List.sum_cons]
      simp only [ItemIdCompactData.ofLp] at h ⊢
      rw [←Nat.sub_sub]
      exact ⟨Nat.sub_add_cancel (by omega), hi (by omega)⟩
    case neg =>
      rw [if_neg hs] at h
      rw [if_neg hs, if_neg hs, items_cons, if_neg (cleared_hasStorage hs)]
      exact hi h

end LineScan
