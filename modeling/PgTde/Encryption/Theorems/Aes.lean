import PgTde.Encryption.Aes
import PgTde.Library.Keystream

open Cint

namespace Platform

variable (P : Platform) {key : Block} {b₁ b₂ j n : Nat} {data : Memory}

-- The keystream of a key: byte `p` is byte `p % 16` of the encrypted counter block `p / 16`.
def keystream (key : Block) : Keystream :=
  fun p => P.aes128 key (P.counterBlock (p / aesBlockSize)) (Fin.ofNat 16 p)

theorem counterBlock_low (j : Nat) {t : Fin 16} (h : t.val < 8) : P.counterBlock j t = 0 := by
  simp [counterBlock, h]

theorem counterBlock_high (j : Nat) {t : Fin 16} (h : 8 ≤ t.val) :
    P.counterBlock j t = P.counterByte j (15 - t.val) := by
  simp [counterBlock, Nat.not_lt.mpr h]

variable {P}

section

variable {v : Int}

-- The loop counter `v` is compared as the block number `j`.
theorem putCounterByte_eq (hv : uint64 v = j) (hj : b₁ ≤ j) (hb : j < b₁ + numAesBlocksInBatch) {i : Nat}
    (hi : i < 8) :
    P.putCounterByte b₁ v data i = .ok (data.write (16 * (j - b₁) + 15 - i) [P.counterByte v i]) := by
  simp only [numAesBlocksInBatch] at hb
  have h₂ : uint64 (16 * (uint64 v - b₁ : Int) + 15 - i) = 16 * (j - b₁) + 15 - i := by
    rw [hv, uint64_of_lt] <;> omega
  have h₃ : 16 * (j - b₁) + 15 - i < dataBytesPerAesBatch := by
    simp only [dataBytesPerAesBatch, numAesBlocksInBatch, aesBlockSize]
    omega
  simp only [putCounterByte, h₂, h₃, if_true]

-- The first `n` iterations of the inner loop fill the last `n` bytes of the block.
theorem putCounterBytes_eq (hv : uint64 v = j) (hj : b₁ ≤ j) (hb : j < b₁ + numAesBlocksInBatch)
    (hn : n ≤ 8) :
    (List.range n).foldlM (P.putCounterByte b₁ v) data = .ok fun x =>
      if 16 * (j - b₁) + 15 < x + n ∧ x ≤ 16 * (j - b₁) + 15
      then P.counterByte v (16 * (j - b₁) + 15 - x)
      else data x := by
  induction n
  case zero =>
    simp only [List.range_zero, List.foldlM_nil]
    congr
    ext x
    simp only [show ¬(16 * (j - b₁) + 15 < x + 0 ∧ x ≤ 16 * (j - b₁) + 15) by omega, if_false]
  case succ n hi =>
    have hl : n < 8 := by omega
    simp only [List.range_succ, List.foldlM_append, hi (by omega), List.foldlM_cons, List.foldlM_nil,
      Outcome.ok_bind, Outcome.pure_eq, putCounterByte_eq hv hj hb hl]
    refine congrArg Except.ok <| funext fun x => ?_
    simp only [Memory.write]
    by_cases hx : x = 16 * (j - b₁) + 15 - n
    case pos =>
      have hi : 16 * (j - b₁) + 15 - x = n := by omega
      have hr : 16 * (j - b₁) + 15 < x + (n + 1) ∧ x ≤ 16 * (j - b₁) + 15 := by omega
      simp [hr, hi, ←hx]
    case neg =>
      split
      case isTrue hl =>
        rw [List.getElem?_eq_none (by simp; omega)]
        simp only [Option.getD_none]
        split <;> split <;> first | rfl | omega
      case isFalse hl =>
        split <;> split <;> first | rfl | omega

end

-- What `data` holds once the counters up to `j` have been put there, where the loop counter has the value
-- `v n` for the block number `n`.
def countersOf (P : Platform) (v : Nat → Int) (b₁ j : Nat) : Memory :=
  fun x => if x < 16 * (j - b₁) ∧ 8 ≤ x % 16 then P.counterByte (v (b₁ + x / 16)) (15 - x % 16) else 0

section

variable {v : Nat → Int}

theorem putCounter_countersOf (hv : uint64 (v j) = j) (hj : b₁ ≤ j) (hb : j < b₁ + numAesBlocksInBatch) :
    P.putCounter b₁ (v j) (P.countersOf v b₁ j) = .ok (P.countersOf v b₁ (j + 1)) := by
  rw [putCounter, putCounterBytes_eq hv hj hb (Nat.le_refl 8)]
  refine congrArg Except.ok <| funext fun x => ?_
  simp only [countersOf]
  by_cases hx : 16 * (j - b₁) ≤ x ∧ x < 16 * (j + 1 - b₁)
  case neg =>
    rw [if_neg (by omega)]
    split <;> split <;> first | rfl | omega
  case pos =>
    have hd : b₁ + x / 16 = j := by omega
    by_cases ht : x % 16 < 8
    case pos => rw [if_neg (by omega), if_neg (by omega), if_neg (by omega)]
    case neg =>
      have hi : 16 * (j - b₁) + 15 - x = 15 - x % 16 := by omega
      rw [if_pos (by omega), if_pos (by omega), hd, hi]

-- The loop counter goes through the values for the block numbers from `b₁` to `b₂`.
structure Counts (v : Nat → Int) (b₁ b₂ : Nat) : Prop where
  compared : ∀ j, b₁ ≤ j → j ≤ b₂ → uint64 (v j) = j
  next     : ∀ j, b₁ ≤ j → j < b₂ → v j ≠ 2 ^ 31 - 1 ∧ v (j + 1) = v j + 1

theorem putCounters_countersOf {fuel : Nat} (hv : Counts v b₁ b₂) (hj : b₁ ≤ j)
    (hb : b₂ ≤ b₁ + numAesBlocksInBatch) (hl : j ≤ b₂) (hf : b₂ - j < fuel) :
    P.putCounters b₁ b₂ fuel (v j) (P.countersOf v b₁ j) = .ok (P.countersOf v b₁ b₂) := by
  induction fuel generalizing j
  case zero => omega
  case succ fuel hi =>
    have hu := hv.compared j hj hl
    rw [putCounters, hu]
    by_cases hjb : j < b₂
    case neg => simp [show j = b₂ by omega]
    case pos =>
      obtain ⟨hmax, hnext⟩ := hv.next j hj hjb
      simp only [hjb, if_true, putCounter_countersOf hu hj (by omega), hmax, if_false, ←hnext]
      exact hi (j := j + 1) (by omega) (by omega) (by omega)

theorem countersOf_self : P.countersOf v b₁ b₁ = Memory.zero := by
  funext x
  rw [countersOf, if_neg (by omega)]
  rfl

end

-- What `data` holds once the counters up to `j` have been put there.
def counters (P : Platform) (b₁ j : Nat) : Memory :=
  fun x => if x < 16 * (j - b₁) then P.counterBlock (b₁ + x / 16) (Fin.ofNat 16 x) else 0

theorem counters_eq : P.counters b₁ j = P.countersOf (fun n => n) b₁ j := by
  funext x
  simp only [counters, countersOf]
  by_cases hx : x < 16 * (j - b₁)
  case neg => rw [if_neg hx, if_neg fun h => hx h.left]
  case pos =>
    rw [if_pos hx]
    by_cases ht : 8 ≤ x % 16
    case pos =>
      rw [if_pos ⟨hx, ht⟩, counterBlock_high _ _ (by simpa using ht)]
      rfl
    case neg => rw [if_neg fun h => ht h.right, counterBlock_low _ _ (by simpa using ht)]

-- The loop counter does not overflow below 2^31.
theorem counts_of_lt (h : b₂ < 2 ^ 31) : Counts (fun n => n) b₁ b₂ where
  compared j _ hj := by rw [uint64_of_lt] <;> omega
  next j _ hj     := by
    push_cast
    omega

theorem aesRun2_counters :
    P.aesRun2 key (P.counters b₁ b₂) (16 * (b₂ - b₁)) =
    (List.range (16 * (b₂ - b₁))).map fun i => P.keystream key (16 * b₁ + i) := by
  apply List.map_congr_left
  intro x hx
  simp only [List.mem_range] at hx
  have hb : P.counterBlock ((16 * b₁ + x) / 16) =
      fun t => P.counters b₁ b₂ (16 * (x / 16) + t.val) := by
    funext t
    have := t.isLt
    rw [counters, if_pos (by omega)]
    congr 1
    · omega
    · ext
      simp
      omega
  simp only [keystream, aesBlockSize, hb]
  congr 1
  ext
  simp

-- `Aes128EncryptedZeroBlocks` yields the keystream of the requested blocks, as long as the block
-- numbers fit into its `int` loop counter.
theorem aes128EncryptedZeroBlocks_eq (h : b₁ ≤ b₂) (hb : b₂ ≤ b₁ + numAesBlocksInBatch)
    (hm : b₂ < 2 ^ 31) :
    P.aes128EncryptedZeroBlocks key b₁ b₂ =
    .ok ((List.range (16 * (b₂ - b₁))).map fun i => P.keystream key (16 * b₁ + i)) := by
  have hn : b₂ - b₁ ≤ 100 := by simp only [numAesBlocksInBatch] at hb; omega
  have hl : uint32 (uint64 (b₂ - b₁) * 16) = 16 * (b₂ - b₁) := by
    rw [uint64_of_lt (by omega) (by omega), uint32_of_lt] <;> omega
  have hp : P.putCounters b₁ b₂ (numAesBlocksInBatch + 1) b₁ Memory.zero = .ok (P.counters b₁ b₂) := by
    rw [counters_eq, ←countersOf_self]
    exact putCounters_countersOf (counts_of_lt hm) (Nat.le_refl _) hb h (by omega)
  rw [aes128EncryptedZeroBlocks, int32_of_lt (by omega) (by omega), hp, hl]
  simp only [Outcome.ok_bind, Outcome.pure_eq, aesRun2_counters]

end Platform
