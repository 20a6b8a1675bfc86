import PgTde.Page.Theorems.Plaintext
import PgTde.Prune.Theorems.Repair

-- The re-encryptions of a compaction stay within the page, and what they do to each tuple, by the
-- ranges that they cover, is what the tuple's move calls for.
def Layout.Reencrypts (k : Keystream) (bn : Nat) (page : Page) (l : Layout) : Prop :=
  l.InBounds ∧ ∀ q ∈ l.masks k bn, ∀ j < q.1.item.len,
    q.2 j = q.1.required k bn (tHoff page.mem q.1.src) j

namespace HeapPage

variable {page : HeapPage} {P : Platform} {bn : Nat} {key : Block} {stack : Memory} {k : Keystream}
variable {r : Page} {m : Move} {lp : ItemIdData}

theorem masks_fst : (page.layout.masks k bn).map (·.1) = page.moves := by
  rw [Layout.masks, List.map_append, Move.map_fst_masks, List.map_map, ←layout_moves]
  exact congrArg (· ++ _) (List.map_id' _)

theorem moves_offsetindex_nodup : (page.moves.map (·.item.offsetindex)).Nodup := by
  have h := page.storage_offsetindex_nodup
  rwa [←page.map_item_moves, List.map_map] at h

theorem move_of_lp {i : Nat} (hl : page.linp[i]? = some lp) (hs : lp.hasStorage) :
    ∃ m ∈ page.moves, m.item = .ofLp i lp := by
  have hm : .ofLp i lp ∈ page.storage := mem_storage.mpr ⟨lp, i, hl, hs, rfl⟩
  rw [←page.map_item_moves] at hm
  exact List.mem_map.mp hm

-- Each line pointer with storage is kept, and points to the tuple's new place.
theorem Repaired.line (h : page.Repaired k bn r) (hm : m ∈ page.moves) {i : Nat}
    (hi : m.item = .ofLp i lp) (hl : page.linp[i]? = some lp) (hs : lp.hasStorage) :
    r.linp[i]? = some { lp with lpOff := m.dst } := by
  have hn := (tuple_of_getElem? hl hs).normal
  have hu : lp.isUsed := by
    simp only [ItemIdData.isNormal, decide_eq_true_eq] at hn
    simp [ItemIdData.isUsed, hn]
  obtain ⟨n, hlt, he⟩ := h.linp
  have hix : m.item.offsetindex = i := by rw [hi]; rfl
  have hnd := page.moves_offsetindex_nodup
  rw [←layout_moves, List.map_append, List.nodup_append] at hnd
  have hc : (page.linp.map LineScan.cleared)[i]? = some lp := by
    simp [hl, LineScan.cleared, hu]
  rw [he, List.getElem?_take_of_lt (hlt i lp hl hu)]
  rw [←layout_moves, List.mem_append] at hm
  cases hm
  case inr hm =>
    have hr := @Move.repoint_of_mem m _ (page.linp.map LineScan.cleared) hnd.2.1 hm
    rwa [hix, hc] at hr
  case inl hm =>
    have hne : ∀ n ∈ page.layout.moved, n.item.offsetindex ≠ i := fun n hn he =>
      hnd.2.2 _ (List.mem_map_of_mem hm) _ (List.mem_map_of_mem hn) (hix.trans he.symm)
    have hp := layout_inPlace hm
    rw [Move.repoint_of_not_mem hne, hc]
    simp only [Move.inPlace, Move.src, decide_eq_true_eq] at hp
    rw [hp, hi]
    rfl

theorem Repaired.sameTuples_iff (h : page.Repaired (P.keystream key) bn r) :
    Page.SameTuples P bn key page.toPage r ↔
    ∀ q ∈ page.layout.masks (P.keystream key) bn, ∀ j < q.1.item.len,
      q.2 j = q.1.required (P.keystream key) bn (tHoff page.mem q.1.src) j := by
  have hst {i : Nat} {lp : ItemIdData} (q) (hq : q ∈ page.layout.masks (P.keystream key) bn)
      (hm : q.1 ∈ page.moves) (hi : q.1.item = .ofLp i lp) (hl : page.linp[i]? = some lp)
      (hs : lp.hasStorage) :
      Page.SameTuple P bn key page.toPage lp r { lp with lpOff := q.1.dst } ↔
      ∀ j < q.1.item.len, q.2 j = q.1.required (P.keystream key) bn (tHoff page.mem q.1.src) j := by
    have ht := h.tuples q hq
    have hal := (storage_valid (item_mem_storage hm)).aligned
    rw [Move.required, Move.src, hi]
    rw [Move.src, hi] at ht
    have htu := tuple_of_getElem? hl hs
    refine Page.sameTuple_iff htu.header htu.hoff_le (Nat.le_trans htu.le_special page.special_le)
      (moves_valid hm).dst_le ?_
    intro j hj
    rw [hi] at hal
    exact ht j (Nat.lt_of_lt_of_le hj hal)
  constructor
  case mp =>
    intro hp q hq
    have hm : q.1 ∈ page.moves := masks_fst ▸ List.mem_map_of_mem hq
    obtain ⟨lp, i, hl, hs, hi⟩ := mem_storage.mp (item_mem_storage hm)
    obtain ⟨lp', hl', hsame⟩ := hp i lp hl hs
    rw [h.line hm hi hl hs, Option.some.injEq] at hl'
    exact (hst q hq hm hi hl hs).mp (hl' ▸ hsame)
  case mpr =>
    intro hq i lp hl hs
    obtain ⟨m, hm, hi⟩ := move_of_lp hl hs
    have hmm : m ∈ (page.layout.masks (P.keystream key) bn).map (·.1) := masks_fst ▸ hm
    obtain ⟨q, hqm, he⟩ := List.mem_map.mp hmm
    subst he
    exact ⟨_, h.line hm hi hl hs, (hst q hqm hm hi hl hs).mpr (hq q hqm)⟩

-- Compaction preserves the plaintext of the tuples exactly on those pages on which its re-encryptions
-- do what the tuples' moves call for.
theorem repair_preserves_iff (page : HeapPage) (P : Platform) (bn : Nat) (key : Block)
    (stack : Memory) :
    (∃ r, P.tdePageRepairFragmentation bn key stack page.toPage = .ok r ∧
      Page.SameTuples P bn key page.toPage r) ↔
    page.layout.Reencrypts (P.keystream key) bn page.toPage := by
  by_cases hb : page.layout.InBounds
  case neg => simp [repair_undefined hb, Layout.Reencrypts, hb]
  case pos =>
    obtain ⟨r, he, hr⟩ := repair_ok P bn key stack hb
    simp only [he, Except.ok.injEq, exists_eq_left', hr.sameTuples_iff, Layout.Reencrypts, hb,
      true_and]

end HeapPage

-- AES-128 of the counter blocks 507 and 510 under the all-zero key.
def shrinkingPlatform : Platform := .x86 [
  (507, [0x44, 0xF0, 0x49, 0xA4, 0x91, 0x65, 0x96, 0x21, 0xC5, 0x58, 0xC2, 0x3B, 0x3E, 0xF8, 0xB8, 0xA3]),
  (510, [0x7C, 0x20, 0x5B, 0x0B, 0x0D, 0xB2, 0xC4, 0x14, 0x39, 0x46, 0xE4, 0x09, 0x29, 0x74, 0xF2, 0xE5])]

-- A page with a tuple of 40 bytes, 40 bytes below `pd_special`, and a tuple of 32 bytes adjacent to it.
def shrinkingPage : HeapPage where
  pdUpper         := 8080
  pdSpecial       := 8192
  pdHasFreeLines  := false
  linp            := [⟨8112, .normal, 40⟩, ⟨8080, .normal, 32⟩]
  mem a           := if a = 8112 + 22 ∨ a = 8080 + 22 then 24 else 0
  lower_le        := by decide
  upper_le        := by decide
  special_le      := emptySpecial_le
  special_aligned := emptySpecial_aligned
  tuples          := by
    simp only [List.forall_mem_cons, List.not_mem_nil, false_imp_iff, implies_true, and_true]
    exact ⟨fun _ => by constructor <;> decide, fun _ => by constructor <;> decide⟩
  disjoint        := by decide

-- The first tuple is re-encrypted with the length of the second one, so that its last eight bytes stay
-- encrypted for its old place.
theorem repair_not_preserves_shrinkingPage :
    ¬∃ r, shrinkingPlatform.tdePageRepairFragmentation 0 (fun _ => 0) Memory.zero
        shrinkingPage.toPage = .ok r ∧
      Page.SameTuples shrinkingPlatform 0 (fun _ => 0) shrinkingPage.toPage r := by
  rintro ⟨r, he, hs⟩
  have hb : shrinkingPage.layout.InBounds := by decide
  obtain ⟨r', he', hr⟩ := HeapPage.repair_ok shrinkingPlatform 0 (fun _ => 0) Memory.zero hb
  rw [he, Except.ok.injEq] at he'
  have hm : (shrinkingPage.layout.masks (shrinkingPlatform.keystream fun _ => 0) 0).head (by decide) ∈
      shrinkingPage.layout.masks (shrinkingPlatform.keystream fun _ => 0) 0 := List.head_mem _
  have h := hr.sameTuples_iff.mp (he' ▸ hs) _ hm 32 (by decide)
  revert h
  decide
