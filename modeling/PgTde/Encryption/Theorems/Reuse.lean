import PgTde.Encryption.Theorems.Tuple
import PgTde.Library.Extent

-- Where a tuple is stored: its block, its offset in the page, the size of its header and its length.
structure Placement where
  bn   : Nat
  off  : Nat
  hoff : Nat
  len  : Nat
  bn_lt   : bn < 2 ^ 32 - 1
  header  : sizeofHeapTupleHeaderData ≤ hoff
  hoff_le : hoff ≤ len
  fits    : off + len ≤ blcksz

namespace Placement

variable {P : Platform} {key : Block} (p q : Placement) {page : Memory} {x : Nat}

-- The bytes of the relation file that the tuple takes up.
def fileExtent : Extent where
  start := p.bn * blcksz + p.off
  len   := p.len

-- The positions of the keystream that the code combines with the tuple's data.
def positions : List Nat :=
  List.range' (offsetInFile p.bn p.off) (p.len - p.hoff)

-- The same positions, counted from the start of the block.
def positionsInBlock : List Nat :=
  List.range' p.off (p.len - p.hoff)

theorem pgTdeCryptTuple_positions (h : tHoff page p.off = p.hoff) :
    P.pgTdeCryptTuple p.bn page p.off p.len key =
    .ok ((page.read (p.off + p.hoff) (p.len - p.hoff)).zipWith (· ^^^ P.keystream key ·) p.positions) := by
  have hf := p.fits
  have hh := p.hoff_le
  rw [Platform.pgTdeCryptTuple_eq (by omega) (by omega) (by omega), h]
  refine congrArg Except.ok <| List.ext_getElem (by simp [positions]) fun i _ _ => ?_
  simp [positions]

theorem encryptPageItem_positions {data : List UInt8} (h : data.length = p.len - p.hoff) :
    P.encryptPageItem p.bn p.off data key =
    .ok (data.zipWith (· ^^^ P.keystream key ·) p.positions) := by
  have hf := p.fits
  have hh := p.hoff_le
  have hb : blcksz ≤ 2 ^ 30 := by decide
  rw [Platform.encryptPageItem_eq (by omega) (by omega)]
  refine congrArg Except.ok <| List.ext_getElem (by simp [positions, h]) fun i _ _ => ?_
  simp [positions]

variable {p q}

-- The product of block number and block size is computed modulo 2^32.
theorem mem_positions :
    x ∈ p.positions ↔ x / blcksz = p.bn % 2 ^ 19 ∧ x % blcksz ∈ p.positionsInBlock := by
  have hf := p.fits
  have hh := p.header
  rw [positions, positionsInBlock, Platform.offsetInFile_eq (by omega), List.mem_range'_1, List.mem_range'_1]
  simp only [blcksz, sizeofHeapTupleHeaderData] at *
  omega

-- Two tuples share positions of the keystream only if their block numbers are different but equal
-- modulo 2^19, and their data overlaps in terms of offsets in the page.
theorem positions_disjoint_iff (h : p.fileExtent.Disjoint q.fileExtent) :
    List.Disjoint p.positions q.positions ↔
    ¬(p.bn ≠ q.bn ∧ p.bn % 2 ^ 19 = q.bn % 2 ^ 19 ∧
      ¬List.Disjoint p.positionsInBlock q.positionsInBlock) := by
  constructor
  case mp =>
    rintro hd ⟨_, hm, ho⟩
    refine ho fun x hp hq => ?_
    have hx : x < blcksz := by
      have hf := p.fits
      have hh := p.header
      rw [positionsInBlock, List.mem_range'_1] at hp
      simp only [sizeofHeapTupleHeaderData] at hh
      omega
    have h₁ : (p.bn % 2 ^ 19 * blcksz + x) / blcksz = p.bn % 2 ^ 19 := by
      simp only [blcksz] at *
      omega
    have h₂ : (p.bn % 2 ^ 19 * blcksz + x) % blcksz = x := by
      simp only [blcksz] at *
      omega
    apply hd (mem_positions.mpr ⟨h₁, h₂.symm ▸ hp⟩)
    exact mem_positions.mpr ⟨h₁.trans hm, h₂.symm ▸ hq⟩
  case mpr =>
    intro hn x hp hq
    rw [mem_positions] at hp hq
    by_cases hb : p.bn = q.bn
    case neg => exact hn ⟨hb, hp.1.symm.trans hq.1, fun hd => hd hp.2 hq.2⟩
    case pos =>
      have hp := hp.2
      have hq := hq.2
      rw [positionsInBlock, List.mem_range'_1] at hp hq
      simp only [Extent.Disjoint, fileExtent, hb] at h
      omega

-- Two tuples of 40 bytes in the blocks 0 and 1.
theorem positions_disjoint_iff_blocks :
    List.Disjoint
      (Placement.mk 0 8152 24 40 (by decide) (by decide) (by decide) (by decide)).positions
      (Placement.mk 1 8152 24 40 (by decide) (by decide) (by decide) (by decide)).positions ↔
    ¬((0 : Nat) ≠ 1 ∧ 0 % 2 ^ 19 = 1 % 2 ^ 19 ∧
      ¬List.Disjoint (List.range' 8152 (40 - 24)) (List.range' 8152 (40 - 24))) :=
  positions_disjoint_iff (by decide)

-- The blocks 0 and 2^19 are 4 GiB apart, and use the same part of the keystream.
theorem positions_not_disjoint_4GiB :
    ∃ p q : Placement, p.bn = 0 ∧ q.bn = 2 ^ 19 ∧ p.fileExtent.Disjoint q.fileExtent ∧
      ¬List.Disjoint p.positions q.positions := by
  refine ⟨⟨0, 8152, 24, 40, by decide, by decide, by decide, by decide⟩,
    ⟨2 ^ 19, 8152, 24, 40, by decide, by decide, by decide, by decide⟩, rfl, rfl, by decide, ?_⟩
  intro h
  have h₀ : 8152 ∈ List.range' (offsetInFile 0 8152) (40 - 24) := by decide
  have h₁ : 8152 ∈ List.range' (offsetInFile (2 ^ 19) 8152) (40 - 24) := by decide
  exact h h₀ h₁

end Placement
