import PgTde.Scan.Gettup

namespace HeapScan

variable {Datum : Type} {scan : HeapScan Datum} {s : HeapScanState} {block k : Nat} {rest : List Nat}

theorem rsStartblock_lt (h : scan.rsNblocks ≠ 0) : scan.rsStartblock < scan.rsNblocks := by
  rw [rsStartblock]
  split
  case isTrue  => exact scan.location_lt (List.ne_nil_of_length_pos (Nat.pos_of_ne_zero h))
  case isFalse => exact Nat.pos_of_ne_zero h

-- The blocks that a serial scan goes through, which wraps around at the end of the heap.
def blockAt (scan : HeapScan Datum) (k : Nat) : Nat :=
  match scan.dir with
  | .forward  =>
    if scan.rsStartblock + k < scan.rsNblocks
    then scan.rsStartblock + k
    else scan.rsStartblock + k - scan.rsNblocks
  | .backward =>
    if k < scan.rsStartblock then scan.rsStartblock - 1 - k else scan.rsStartblock + scan.rsNblocks - 1 - k

theorem blockAt_lt (h : k < scan.rsNblocks) : scan.blockAt k < scan.rsNblocks := by
  have hs := rsStartblock_lt (Nat.ne_zero_of_lt h)
  rw [blockAt]
  split
  case h_1 => split <;> omega
  case h_2 => split <;> omega

theorem blockAt_inj {l : Nat} (hk : k < scan.rsNblocks) (hl : l < scan.rsNblocks)
    (h : scan.blockAt k = scan.blockAt l) : k = l := by
  have hs := rsStartblock_lt (Nat.ne_zero_of_lt hk)
  rw [blockAt, blockAt] at h
  split at h
  case h_1 => split at h <;> split at h <;> omega
  case h_2 => split at h <;> split at h <;> omega

theorem exists_blockAt (h : block < scan.rsNblocks) : ∃ k < scan.rsNblocks, scan.blockAt k = block := by
  have hs := rsStartblock_lt (Nat.ne_zero_of_lt h)
  cases hd : scan.dir
  case forward =>
    refine ⟨if scan.rsStartblock ≤ block then block - scan.rsStartblock
      else block + scan.rsNblocks - scan.rsStartblock, by split <;> omega, ?_⟩
    rw [blockAt, hd]
    simp only
    split <;> split <;> omega
  case backward =>
    refine ⟨if block < scan.rsStartblock then scan.rsStartblock - 1 - block
      else scan.rsStartblock + scan.rsNblocks - 1 - block, by split <;> omega, ?_⟩
    rw [blockAt, hd]
    simp only
    split <;> split <;> omega

-- The blocks in the order of the scan.
def order (scan : HeapScan Datum) : List Nat :=
  match scan.parallelScan with
  | none        => (List.range scan.rsNblocks).map scan.blockAt
  | some blocks => blocks

theorem order_serial (h : scan.parallelScan = none) :
    scan.order = (List.range scan.rsNblocks).map scan.blockAt := by
  rw [order, h]

theorem order_parallel {blocks : List Nat} (h : scan.parallelScan = some blocks) : scan.order = blocks := by
  rw [order, h]

theorem nodup_order : scan.order.Nodup := by
  cases h : scan.parallelScan
  case some blocks =>
    rw [order_parallel h]
    exact scan.parallel_nodup blocks h
  case none =>
    rw [order_serial h]
    refine List.Nodup.map_on (fun k hk l hl he => ?_) List.nodup_range
    exact blockAt_inj (List.mem_range.mp hk) (List.mem_range.mp hl) he

theorem mem_order : block ∈ scan.order ↔
    block < scan.rsNblocks ∧ ∀ blocks ∈ scan.parallelScan, block ∈ blocks := by
  cases h : scan.parallelScan
  case some blocks =>
    rw [order_parallel h, rsNblocks]
    simpa using scan.parallel_lt blocks h block
  case none =>
    rw [order_serial h, List.mem_map]
    constructor
    case mp =>
      rintro ⟨k, hk, rfl⟩
      exact ⟨blockAt_lt (List.mem_range.mp hk), by simp⟩
    case mpr =>
      rintro ⟨hb, -⟩
      obtain ⟨k, hk, he⟩ := exists_blockAt hb
      exact ⟨k, List.mem_range.mpr hk, he⟩

theorem length_order_le : scan.order.length ≤ scan.rsNblocks := by
  have hs : scan.order ⊆ List.range scan.rsNblocks := by
    intro b hb
    exact List.mem_range.mpr (mem_order.mp hb).left
  simpa using (nodup_order.subperm hs).length_le

-- At `block`, the scan has the blocks `rest` left.
structure Left (scan : HeapScan Datum) (s : HeapScanState) (block : Nat) (rest : List Nat) : Prop where
  unlimited : s.rsNumblocks = none
  split     : ∃ before, scan.order = before ++ block :: rest
  parallel  : scan.parallelScan.isSome → s.parallelWork = rest

theorem Left.congr {s' : HeapScanState} (h : scan.Left s block rest) (hn : s'.rsNumblocks = s.rsNumblocks)
    (hw : s'.parallelWork = s.parallelWork) : scan.Left s' block rest where
  unlimited  := hn.trans h.unlimited
  split      := h.split
  parallel p := hw.trans (h.parallel p)

theorem Left.mem_order (h : scan.Left s block rest) {b : Nat} (hb : b ∈ block :: rest) :
    b ∈ scan.order := by
  obtain ⟨before, h⟩ := h.split
  rw [h]
  exact List.mem_append_right _ hb

theorem Left.length_le (h : scan.Left s block rest) : rest.length ≤ scan.rsNblocks := by
  obtain ⟨before, h⟩ := h.split
  have hl := @length_order_le _ scan
  simp only [h, List.length_append, List.length_cons] at hl
  omega

theorem blockAt_forward (hd : scan.dir = .forward) : scan.blockAt k =
    if scan.rsStartblock + k < scan.rsNblocks
    then scan.rsStartblock + k
    else scan.rsStartblock + k - scan.rsNblocks := by
  rw [blockAt, hd]

theorem blockAt_backward (hd : scan.dir = .backward) : scan.blockAt k =
    if k < scan.rsStartblock
    then scan.rsStartblock - 1 - k
    else scan.rsStartblock + scan.rsNblocks - 1 - k := by
  rw [blockAt, hd]

theorem order_eq_nil (h : scan.rsNblocks = 0) : scan.order = [] :=
  List.eq_nil_iff_forall_not_mem.mpr fun _ hb => Nat.not_lt_zero _ (h ▸ (mem_order.mp hb).left)

theorem parallelWork_serial (h : scan.parallelScan = none) : scan.pgTdeBeginscan.parallelWork = [] := by
  rw [pgTdeBeginscan, h]
  rfl

theorem parallelWork_parallel (h : scan.parallelScan.isSome) :
    scan.pgTdeBeginscan.parallelWork = scan.order := by
  obtain ⟨blocks, h⟩ := Option.isSome_iff_exists.mp h
  rw [pgTdeBeginscan, order_parallel h, h]
  rfl

-- The state behind the choice of the first block.
def started (scan : HeapScan Datum) : HeapScanState :=
  { scan.pgTdeBeginscan with parallelWork := scan.pgTdeBeginscan.parallelWork.tail }

theorem started_eq (h : scan.pgTdeBeginscan.parallelWork = []) : scan.started = scan.pgTdeBeginscan := by
  rw [started, h, List.tail_nil, ←h]

theorem order_getElem? (h : scan.parallelScan = none) :
    scan.order[k]? = if k < scan.rsNblocks then some (scan.blockAt k) else none := by
  rw [order_serial h, List.getElem?_map]
  split
  case isTrue hk  => rw [List.getElem?_range hk, Option.map_some]
  case isFalse hk => rw [List.getElem?_eq_none (by simpa using hk), Option.map_none]

theorem pgTdeGettupInitialBlock_eq :
    scan.pgTdeGettupInitialBlock scan.pgTdeBeginscan = (scan.order.head?, scan.started) := by
  by_cases hn : scan.rsNblocks = 0
  case pos =>
    have hw : scan.pgTdeBeginscan.parallelWork = [] := by
      cases h : scan.parallelScan
      case none   => exact parallelWork_serial h
      case some _ => rw [parallelWork_parallel (by rw [h]; rfl), order_eq_nil hn]
    rw [pgTdeGettupInitialBlock, if_pos (.inl hn), order_eq_nil hn, started_eq hw]
    rfl
  case neg =>
    have hs := rsStartblock_lt hn
    rw [pgTdeGettupInitialBlock, if_neg (by simp [hn, pgTdeBeginscan])]
    cases h : scan.parallelScan
    case some blocks =>
      rw [scan.parallel_forward (by rw [h]; rfl)]
      simp only [tableBlockParallelscanNextpage, @parallelWork_parallel _ scan (by rw [h]; rfl), started]
    case none =>
      rw [started_eq (parallelWork_serial h), List.head?_eq_getElem?, order_getElem? h,
        if_pos (Nat.pos_of_ne_zero hn)]
      cases hd : scan.dir
      case forward  => simp [blockAt_forward hd, hs]
      case backward =>
        simp only [blockAt_backward hd, pgTdeBeginscan]
        split
        case isTrue  => simp
        case isFalse => simp [show scan.rsStartblock = 0 by omega]

theorem left_started (h : scan.order = block :: rest) : scan.Left scan.started block rest where
  unlimited  := rfl
  split      := ⟨[], h⟩
  parallel p := by rw [started, parallelWork_parallel p, h, List.tail_cons]

-- In a serial scan, the block behind the one at `k` is the one at `k + 1`.
theorem advance_blockAt (hp : scan.parallelScan = none) (hs : s.rsNumblocks = none) (hk : k < scan.rsNblocks) :
    scan.pgTdeGettupAdvanceBlock (scan.blockAt k) s =
      (if k + 1 < scan.rsNblocks then some (scan.blockAt (k + 1)) else none, s) := by
  have hlt := rsStartblock_lt (Nat.ne_zero_of_lt hk)
  cases hd : scan.dir
  case forward =>
    have hnext : (if scan.blockAt k + 1 ≥ scan.rsNblocks then 0 else scan.blockAt k + 1) =
        if k + 1 < scan.rsNblocks then scan.blockAt (k + 1) else scan.rsStartblock := by
      simp only [blockAt_forward hd]
      split_ifs <;> omega
    have hne : k + 1 < scan.rsNblocks → scan.blockAt (k + 1) ≠ scan.rsStartblock := by
      rw [blockAt_forward hd]
      split <;> omega
    simp only [pgTdeGettupAdvanceBlock, hd, hp, limitBlock, hs, hnext]
    split
    case isTrue h  => rw [if_neg (hne h)]
    case isFalse h => rw [if_pos rfl]
  case backward =>
    have hlast : scan.blockAt k = scan.rsStartblock ↔ ¬k + 1 < scan.rsNblocks := by
      rw [blockAt_backward hd]
      split <;> omega
    have hnext : k + 1 < scan.rsNblocks →
        (if scan.blockAt k = 0 then scan.rsNblocks - 1 else scan.blockAt k - 1) = scan.blockAt (k + 1) := by
      simp only [blockAt_backward hd]
      split_ifs <;> omega
    simp only [pgTdeGettupAdvanceBlock, hd, limitBlock, hs, hlast, ite_not]
    split
    case isTrue h => rw [hnext h]
    case isFalse  => rfl

-- The scan goes on with the first block that is left.
theorem Left.advance (h : scan.Left s block rest) :
    ∃ work, scan.pgTdeGettupAdvanceBlock block s = (rest.head?, { s with parallelWork := work }) ∧
      ∀ b rest', rest = b :: rest' → scan.Left { s with parallelWork := work } b rest' := by
  obtain ⟨before, hs⟩ := h.split
  have hnext (b rest') (hr : rest = b :: rest') : scan.order = (before ++ [block]) ++ b :: rest' := by
    rw [hs, hr, List.append_assoc, List.singleton_append]
  cases hp : scan.parallelScan
  case some blocks =>
    have hw := h.parallel (by rw [hp]; rfl)
    refine ⟨s.parallelWork.tail, ?_, fun b rest' hr => ?_⟩
    · rw [pgTdeGettupAdvanceBlock, scan.parallel_forward (by rw [hp]; rfl), hp, ←hw]
      rfl
    · exact ⟨h.unlimited, ⟨_, hnext b rest' hr⟩, fun _ => by rw [hw, hr, List.tail_cons]⟩
  case none =>
    have hb : scan.order[before.length]? = some block := by simp [hs]
    have hr : scan.order[before.length + 1]? = rest.head? := by
      rw [hs, List.getElem?_append_right (Nat.le_add_right _ 1), Nat.add_sub_cancel_left,
        List.head?_eq_getElem?]
      rfl
    rw [order_getElem? hp] at hb hr
    split at hb
    case isTrue hk =>
      refine ⟨s.parallelWork, ?_, fun b rest' hr => ?_⟩
      · rw [←Option.some.inj hb, advance_blockAt hp h.unlimited hk, hr]
      · exact ⟨h.unlimited, ⟨_, hnext b rest' hr⟩, fun p => by simp [hp] at p⟩
    case isFalse => cases hb

end HeapScan
