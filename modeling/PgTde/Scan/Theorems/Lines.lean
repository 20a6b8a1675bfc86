import PgTde.Index.Theorems.Scan
import PgTde.Scan.Theorems.Blocks

namespace ScanDirection

variable {α : Type} {dir : ScanDirection} {n k base : Nat} {f : Nat → Option α}

-- The next one of `n` positions, with `k` positions left.
def position (dir : ScanDirection) (n k : Nat) : Nat :=
  match dir with
  | .forward  => n - k
  | .backward => k - 1

-- The last `k` of `n` positions.
def left (dir : ScanDirection) (n : Nat) : Nat → List Nat
  | 0     => []
  | k + 1 => dir.position n (k + 1) :: left dir n k

def inOrder (dir : ScanDirection) (as : List α) : List α :=
  match dir with
  | .forward  => as
  | .backward => as.reverse

theorem position_lt (h : k < n) : dir.position n (k + 1) < n := by
  cases dir <;> simp only [position] <;> omega

theorem advance_position (h : k < n) (hk : k ≠ 0) :
    dir.advance (base + dir.position n (k + 1)) = base + dir.position n k := by
  cases dir <;> simp only [position, advance] <;> omega

theorem left_forward (h : k ≤ n) : forward.left n k = List.range' (n - k) k := by
  induction k
  case zero      => rfl
  case succ k hi =>
    rw [left, hi (by omega), position, List.range'_succ, show n - (k + 1) + 1 = n - k by omega]

theorem left_backward : backward.left n k = (List.range k).reverse := by
  induction k
  case zero      => rfl
  case succ k hi => simp [left, hi, position, List.range_succ]

theorem filterMap_left : (dir.left n n).filterMap f = dir.inOrder ((List.range n).filterMap f) := by
  cases dir
  case forward  => rw [left_forward (Nat.le_refl n), Nat.sub_self, ←List.range_eq_range', inOrder]
  case backward => rw [left_backward, inOrder, List.filterMap_reverse]

theorem mem_inOrder {a : α} {as : List α} : a ∈ dir.inOrder as ↔ a ∈ as := by
  cases dir
  case forward  => rfl
  case backward => exact List.mem_reverse

theorem nodup_inOrder {as : List α} (h : as.Nodup) : (dir.inOrder as).Nodup := by
  cases dir
  case forward  => exact h
  case backward => exact List.nodup_reverse.mpr h

end ScanDirection

namespace HeapScan

variable {Datum : Type} {scan : HeapScan Datum} {s : HeapScanState} {block : Nat} {page : HeapPage}
variable {n k line first : Nat} {visible : Nat → Outcome (Option ScanTuple)}
variable {entries : Nat → Option ScanTuple}

def keyTestStored (scan : HeapScan Datum) (t : ScanTuple) : Outcome Bool :=
  scan.keyTest t.tSelf t.tData

-- The loop over the lines finds the first tuple that satisfies the keys. It stops at its line.
theorem scanLines_finds (hv : ∀ i < n, visible (first + i) = .ok (entries i)) (hk : k ≤ n)
    (hl : k ≠ 0 → line = first + scan.dir.position n k) :
    match firstMatch scan.keyTestStored ((scan.dir.left n k).filterMap entries) with
    | .error e             => scan.scanLines visible k line = .error e
    | .ok none             => scan.scanLines visible k line = .ok none
    | .ok (some (t, rest)) => ∃ j < n,
      scan.scanLines visible k line = .ok (some (first + scan.dir.position n (j + 1), t)) ∧
      rest = (scan.dir.left n j).filterMap entries := by
  induction k generalizing line
  case zero      => rfl
  case succ k hi =>
    obtain rfl := hl (Nat.succ_ne_zero k)
    have hi := hi (Nat.le_of_succ_le hk) fun h => ScanDirection.advance_position hk h
    rw [scanLines, hv _ (ScanDirection.position_lt hk), ScanDirection.left, List.filterMap_cons]
    cases ht : entries (scan.dir.position n (k + 1))
    case none   => exact hi
    case some t =>
      simp only [Outcome.ok_bind]
      cases hb : scan.keyTestStored t
      case error e =>
        rw [firstMatch_cons_error hb]
        rw [keyTestStored] at hb
        rw [hb]
        rfl
      case ok b =>
        cases b
        case false =>
          rw [firstMatch_cons_false hb]
          rw [keyTestStored] at hb
          rw [hb]
          exact hi
        case true =>
          rw [firstMatch_cons_true hb]
          rw [keyTestStored] at hb
          rw [hb]
          exact ⟨k, hk, rfl, rfl⟩

def visibleTuples (scan : HeapScan Datum) (block : Nat) (page : HeapPage) : List ScanTuple :=
  (HeapTable.blockTuples block page).filter (scan.snapshot.satisfies ·.tSelf)

-- The state while the scan is on a page.
structure Loaded (scan : HeapScan Datum) (s : HeapScanState) (block : Nat) (page : HeapPage) : Prop where
  inited    : s.rsInited
  cblock    : s.rsCblock = some block
  on        : scan.relation.blocks[block]? = some page
  vistuples : scan.pagemode → s.rsVistuples = (scan.visibleTuples block page).map (·.tSelf.offnum)

-- The line pointers, or the visible tuples in page-at-a-time mode.
def count (scan : HeapScan Datum) (block : Nat) (page : HeapPage) : Nat :=
  if scan.pagemode then (scan.visibleTuples block page).length else page.getMaxOffsetNumber

def base (scan : HeapScan Datum) : Nat :=
  if scan.pagemode then 0 else 1

def view (scan : HeapScan Datum) (block : Nat) (page : HeapPage) (i : Nat) : Option ScanTuple :=
  if scan.pagemode then
    (scan.visibleTuples block page)[i]?
  else
    let tuple := page.linp[i]?.bind fun lp =>
      if lp.isNormal then some { tSelf := ⟨block, i + 1⟩, page, lp : ScanTuple } else none
    tuple.filter (scan.snapshot.satisfies ·.tSelf)

def lineLoop (scan : HeapScan Datum) : LineLoop :=
  if scan.pagemode then scan.pagemodeLines else scan.gettupLines

-- The lines of a loop with `k` of them left.
def AtLine (scan : HeapScan Datum) (block : Nat) (page : HeapPage) (k : Nat) (lines : Nat × Nat) : Prop :=
  lines.1 = k ∧ (k ≠ 0 → lines.2 = scan.base + scan.dir.position (scan.count block page) k)

-- What is left of a page when `k` lines are.
def leftOnPage (scan : HeapScan Datum) (block : Nat) (page : HeapPage) (k : Nat) : List ScanTuple :=
  (scan.dir.left (scan.count block page) k).filterMap (scan.view block page)

-- The loop over the lines goes over the visible tuples of a page.
structure Covers (scan : HeapScan Datum) (s : HeapScanState) (block : Nat) (page : HeapPage) : Prop where
  visible : ∀ i < scan.count block page,
    scan.lineLoop.visible s page block (scan.base + i) = .ok (scan.view block page i)
  start   : scan.AtLine block page (scan.count block page) (scan.lineLoop.startPage s page)
  next    : ∀ k < scan.count block page, scan.AtLine block page k <| scan.lineLoop.continuePage
    (scan.lineLoop.found (scan.base + scan.dir.position (scan.count block page) (k + 1)) s) page

theorem filterMap_range {α β : Type} {as : List α} {f : Nat → α → Option β} :
    (List.range as.length).filterMap (fun i => as[i]?.bind (f i)) = as.zipIdx.filterMap fun p => f p.2 p.1 := by
  induction as generalizing f
  case nil          => rfl
  case cons a as hi =>
    have hi := @hi fun i => f (i + 1)
    rw [List.length_cons, List.range_succ_eq_map, List.zipIdx_cons, List.zipIdx_succ, List.filterMap_cons,
      List.filterMap_cons, List.filterMap_map, List.filterMap_map]
    simp only [List.getElem?_cons_zero, Option.bind_some]
    cases f 0 a
    case none   => exact hi
    case some b => exact congrArg (b :: ·) hi

theorem filterMap_view :
    (List.range (scan.count block page)).filterMap (scan.view block page) = scan.visibleTuples block page := by
  by_cases hp : scan.pagemode
  case pos =>
    have hr := @filterMap_range _ _ (scan.visibleTuples block page) fun _ t => some t
    simp only [Option.bind_fun_some] at hr
    have hv : scan.view block page = fun i => (scan.visibleTuples block page)[i]? := by
      funext i
      rw [view, if_pos hp]
    rw [count, if_pos hp, hv, hr, List.filterMap_eq_map', List.zipIdx_map_fst]
  case neg =>
    have hv : scan.view block page = fun i => (page.linp[i]?.bind fun lp =>
        if lp.isNormal then some { tSelf := ⟨block, i + 1⟩, page, lp : ScanTuple } else none).filter
          (scan.snapshot.satisfies ·.tSelf) := by
      funext i
      rw [view, if_neg hp]
    rw [count, if_neg hp, hv, ←List.filter_filterMap, Page.getMaxOffsetNumber, filterMap_range, visibleTuples,
      HeapTable.blockTuples, List.zipIdx_succ, List.filterMap_map]
    rfl

theorem mem_visibleTuples {t : ScanTuple} (h : t ∈ scan.visibleTuples block page) :
    tupleAt page block t.tSelf.offnum = .ok (some t) := by
  obtain ⟨hb, -, rfl, hi, hn⟩ := HeapTable.mem_blockTuples (List.mem_of_mem_filter h)
  rw [tupleAt, hi]
  simp only [hn, if_true]
  obtain ⟨⟨blkno, offnum⟩, page, lp⟩ := t
  cases hb
  rfl

theorem covers_pagemode (hp : scan.pagemode)
    (hv : s.rsVistuples = (scan.visibleTuples block page).map (·.tSelf.offnum)) :
    scan.Covers s block page := by
  have hl : s.rsVistuples.length = scan.count block page := by rw [hv, List.length_map, count, if_pos hp]
  have hb : scan.base = 0 := if_pos hp
  have hloop : scan.lineLoop = scan.pagemodeLines := if_pos hp
  constructor
  case visible =>
    intro i hi
    rw [count, if_pos hp] at hi
    have hg := List.getElem?_eq_getElem hi
    rw [hloop, hb, Nat.zero_add, view, if_pos hp, hg]
    simp only [pagemodeLines, hv, List.getElem?_map, hg, Option.map_some]
    exact mem_visibleTuples (List.getElem_mem hi)
  case start =>
    rw [hloop, pagemodeLines, AtLine, hb]
    simp only [hl, true_and, ScanDirection.position]
    cases scan.dir <;> simp
  case next =>
    intro k hk
    rw [hloop, pagemodeLines, AtLine, hb]
    simp only [hl, ScanDirection.position]
    cases scan.dir <;> simp only <;> omega

theorem covers_gettup (hp : ¬scan.pagemode) : scan.Covers s block page := by
  have hc : scan.count block page = page.getMaxOffsetNumber := if_neg hp
  have hb : scan.base = 1 := if_neg hp
  have hloop : scan.lineLoop = scan.gettupLines := if_neg hp
  constructor
  case visible =>
    intro i hi
    rw [hc, Page.getMaxOffsetNumber] at hi
    have hg := List.getElem?_eq_getElem hi
    rw [hloop, gettupLines, hb, view, if_neg hp, Nat.add_comm]
    simp only [tupleAt, Page.getItemId, Nat.succ_ne_zero, if_false, Nat.add_sub_cancel, hg]
    rfl
  case start =>
    rw [hloop, gettupLines, AtLine, hb, hc]
    simp only [ScanDirection.position]
    cases scan.dir
    case forward  => exact ⟨rfl, fun _ => by simp⟩
    case backward => exact ⟨rfl, fun h => (Nat.add_sub_cancel' (Nat.pos_of_ne_zero h)).symm⟩
  case next =>
    intro k hk
    rw [hc] at hk
    rw [hloop, gettupLines, AtLine, hb, hc]
    simp only [ScanDirection.position]
    cases scan.dir <;> simp only <;> omega

theorem Loaded.covers (h : scan.Loaded s block page) : scan.Covers s block page := by
  by_cases hp : scan.pagemode
  case pos => exact covers_pagemode hp (h.vistuples hp)
  case neg => exact covers_gettup hp

end HeapScan
