import PgTde.Prune.Theorems.Execute
import PgTde.Prune.Theorems.Plaintext

-- The re-encryptions of a compaction stay within the page, and leave no trace on any tuple.
def Layout.Cancels (k : Keystream) (bn : Nat) (l : Layout) : Prop :=
  l.InBounds ∧ ∀ q ∈ l.masks k bn, ∀ j < q.1.item.len, q.2 j = 0

-- The page that the redo of XLOG_HEAP2_PRUNE makes of a page. This extension registers no redo function
-- for the record, so it is PostgreSQL's own: it moves the tuples' bytes as they are, to the places that
-- the compaction on the primary chooses, too.
structure HeapPage.Replayed (page : HeapPage) (plan : page.Plan) extends Page where
  line    : ∀ m ∈ (page.pruned plan).moves, ∀ lp,
    (page.pruned plan).linp[m.item.offsetindex]? = some lp →
    linp[m.item.offsetindex]? = some { lp with lpOff := m.dst }
  storage : ∀ (i : Nat) (lp : ItemIdData), linp[i]? = some lp → lp.hasStorage →
    ∃ m ∈ (page.pruned plan).moves, m.item.offsetindex = i
  bytes   : ∀ m ∈ (page.pruned plan).moves, ∀ j < m.item.len, mem (m.dst + j) = page.mem (m.src + j)

namespace HeapPage

variable {page : HeapPage} {P : Platform} {bn : Nat} {key : Block} {stack : Memory} {r : Page}

@[simp]
theorem clearAll_mem {cs : List (Nat × ItemIdData.Clearing)} : (page.clearAll cs).mem = page.mem := by
  induction cs generalizing page
  case nil          => rfl
  case cons c cs hi => exact hi

theorem pruned_mem {plan : page.Plan} : (page.pruned plan).mem = page.mem :=
  clearAll_mem

theorem moves_lp {m : Move} (h : m ∈ page.moves) :
    ∃ lp, page.linp[m.item.offsetindex]? = some lp ∧ lp.hasStorage ∧
      m.item = .ofLp m.item.offsetindex lp := by
  obtain ⟨lp, i, hl, hs, hi⟩ := mem_storage.mp (item_mem_storage h)
  have hix : m.item.offsetindex = i := by rw [hi]; rfl
  exact ⟨lp, hix ▸ hl, hs, hix ▸ hi⟩

theorem Repaired.sameTuples_replayed_iff {plan : page.Plan}
    (h : (page.pruned plan).Repaired (P.keystream key) bn r) (rp : page.Replayed plan) :
    Page.SameTuples P bn key rp.toPage r ↔
    ∀ q ∈ (page.pruned plan).layout.masks (P.keystream key) bn, ∀ j < q.1.item.len, q.2 j = 0 := by
  have hst {lp : ItemIdData} (q) (hq : q ∈ (page.pruned plan).layout.masks (P.keystream key) bn)
      (hm : q.1 ∈ (page.pruned plan).moves) (hi : q.1.item = .ofLp q.1.item.offsetindex lp) :
      Page.SameTuple P bn key rp.toPage { lp with lpOff := q.1.dst } r { lp with lpOff := q.1.dst } ↔
      ∀ j < q.1.item.len, q.2 j = 0 := by
    have hl : q.1.item.len = lp.lpLen := by rw [hi]; rfl
    have hv := storage_valid (item_mem_storage hm)
    have hh := storage_header (item_mem_storage hm)
    have hsz := hv.header
    have hal := hv.aligned
    have hdst := Move.dst_add_le_of_mem_plan (page.pruned plan).sum_le_special hm
    have hsp := (page.pruned plan).special_le
    simp only [sizeofHeapTupleHeaderData] at hsz
    have hho : tHoff rp.mem q.1.dst = tHoff (page.pruned plan).mem q.1.src := by
      rw [tHoff, tHoff, rp.bytes _ hm 22 (by omega), pruned_mem]
    have hr : ∀ j < lp.lpLen, r.mem (q.1.dst + j) = rp.mem (q.1.dst + j) ^^^ q.2 j := by
      intro j hj
      rw [h.tuples q hq j (by omega), rp.bytes _ hm j (by omega), pruned_mem]
    have hle : q.1.dst + lp.lpLen ≤ blcksz := by omega
    have hsame := @Page.sameTuple_iff P bn key rp.toPage r { lp with lpOff := q.1.dst } q.1.dst q.2
      (hho ▸ hh.1) (hho ▸ hl ▸ hh.2) hle (by omega) hr
    simpa only [Keystream.window_same, hl] using hsame
  constructor
  case mp =>
    intro hp q hq
    have hm : q.1 ∈ (page.pruned plan).moves := masks_fst ▸ List.mem_map_of_mem hq
    obtain ⟨lp, hl, hs, hi⟩ := moves_lp hm
    obtain ⟨lp', hl', hsame⟩ := hp _ _ (rp.line _ hm lp hl) hs
    rw [h.line hm hi hl hs, Option.some.injEq] at hl'
    exact (hst q hq hm hi).mp (hl' ▸ hsame)
  case mpr =>
    intro hq i lp hl hs
    obtain ⟨m, hm, hix⟩ := rp.storage i lp hl hs
    obtain ⟨lp₀, hl₀, hs₀, hi₀⟩ := moves_lp hm
    have hmm : m ∈ ((page.pruned plan).layout.masks (P.keystream key) bn).map (·.1) := masks_fst ▸ hm
    obtain ⟨q, hqm, he⟩ := List.mem_map.mp hmm
    subst he hix
    rw [rp.line _ hm lp₀ hl₀, Option.some.injEq] at hl
    subst hl
    exact ⟨_, h.line hm hi₀ hl₀ hs₀, (hst q hqm hm hi₀).mpr (hq q hqm)⟩

-- Replay and primary agree exactly on those pages on which the re-encryptions of the primary cancel out.
theorem replay_agrees_iff (page : HeapPage) (plan : page.Plan) (rp : page.Replayed plan) (P : Platform)
    (bn : Nat) (key : Block) (stack : Memory) :
    (∃ r, P.pgTdePagePruneExecute bn key stack plan.val page.toPage = .ok r ∧
      Page.SameTuples P bn key rp.toPage r) ↔
    (page.pruned plan).layout.Cancels (P.keystream key) bn := by
  rw [pgTdePagePruneExecute_eq]
  by_cases hb : (page.pruned plan).layout.InBounds
  case neg => simp [repair_undefined hb, Layout.Cancels, hb]
  case pos =>
    obtain ⟨r, he, hr⟩ := repair_ok P bn key stack hb
    simp only [he, Except.ok.injEq, exists_eq_left', hr.sameTuples_replayed_iff rp, Layout.Cancels, hb,
      true_and]

end HeapPage

-- AES-128 of the counter blocks 507 and 509 under the all-zero key.
def deadTuplePlatform : Platform := .x86 [
  (507, [0x44, 0xF0, 0x49, 0xA4, 0x91, 0x65, 0x96, 0x21, 0xC5, 0x58, 0xC2, 0x3B, 0x3E, 0xF8, 0xB8, 0xA3]),
  (509, [0x55, 0xA0, 0x70, 0x3B, 0x61, 0x2F, 0x67, 0x6C, 0xCC, 0xF2, 0x11, 0x98, 0xC8, 0x31, 0x85, 0x1F])]

-- A page with two adjacent tuples of 40 bytes, of which a prune makes the upper one dead.
def deadTuplePage : HeapPage where
  pdUpper         := 8112
  pdSpecial       := 8192
  pdHasFreeLines  := false
  linp            := [⟨8152, .normal, 40⟩, ⟨8112, .normal, 40⟩]
  mem a           := if a = 8152 + 22 ∨ a = 8112 + 22 then 24 else 0
  lower_le        := by decide
  upper_le        := by decide
  special_le      := emptySpecial_le
  special_aligned := emptySpecial_aligned
  tuples          := by
    simp only [List.forall_mem_cons, List.not_mem_nil, false_imp_iff, implies_true, and_true]
    exact ⟨fun _ => by constructor <;> decide, fun _ => by constructor <;> decide⟩
  disjoint        := by decide

def deadTuplePlan : deadTuplePage.Plan :=
  ⟨{ redirected := [], nowdead := [1], nowunused := [] }, by decide⟩

def deadTupleReplayed : deadTuplePage.Replayed deadTuplePlan where
  pdUpper        := 8152
  pdSpecial      := 8192
  pdHasFreeLines := false
  linp           := [⟨0, .dead, 0⟩, ⟨8152, .normal, 40⟩]
  mem            := deadTuplePage.mem
  line           := by
    intro m hm lp hl
    rw [show (deadTuplePage.pruned deadTuplePlan).moves = [⟨⟨1, 8112, 40, 40⟩, 8152⟩] from rfl,
      List.mem_singleton] at hm
    subst hm
    rw [show (deadTuplePage.pruned deadTuplePlan).linp = [⟨0, .dead, 0⟩, ⟨8112, .normal, 40⟩] from rfl]
      at hl
    cases hl
    rfl
  storage        := by
    intro i lp hl hs
    refine ⟨⟨⟨1, 8112, 40, 40⟩, 8152⟩, by decide, ?_⟩
    match i with
    | 0     => cases hl; simp [ItemIdData.hasStorage] at hs
    | 1     => rfl
    | i + 2 => simp at hl
  bytes          := by decide

-- On the primary, the data of the remaining tuple is re-encrypted for its new place. The replayed page
-- holds it as encrypted for its old one.
theorem replay_not_agrees_deadTuplePage :
    ¬∃ r, deadTuplePlatform.pgTdePagePruneExecute 0 (fun _ => 0) Memory.zero deadTuplePlan.val
        deadTuplePage.toPage = .ok r ∧
      Page.SameTuples deadTuplePlatform 0 (fun _ => 0) deadTupleReplayed.toPage r := by
  rw [HeapPage.pgTdePagePruneExecute_eq]
  rintro ⟨r, he, hs⟩
  have hb : (deadTuplePage.pruned deadTuplePlan).layout.InBounds := by decide
  obtain ⟨r', he', hr⟩ := HeapPage.repair_ok deadTuplePlatform 0 (fun _ => 0) Memory.zero hb
  rw [he, Except.ok.injEq] at he'
  have hm := List.head_mem (l := (deadTuplePage.pruned deadTuplePlan).layout.masks
    (deadTuplePlatform.keystream fun _ => 0) 0) (by decide)
  have h := (hr.sameTuples_replayed_iff deadTupleReplayed).mp (he' ▸ hs) _ hm 24 (by decide)
  revert h
  decide
