import PgTde.Encryption.Ctr

open Cint

-- The arguments of `Aes128EncryptedZeroBlocks`.
structure BlockRange where
  blockNumber₁ : Nat
  blockNumber₂ : Nat
  le           : blockNumber₁ ≤ blockNumber₂
  le_batch     : blockNumber₂ ≤ blockNumber₁ + numAesBlocksInBatch
  lt           : blockNumber₂ < 2 ^ 64

-- The value of `int j` for a block number: its low 32 bits, as a signed number.
def loopCounter (n : Nat) : Int :=
  int32 n

namespace BlockRange

variable (r : BlockRange)

def count : Nat :=
  r.blockNumber₂ - r.blockNumber₁

-- The values of `j` that the loop goes through.
def loopValues : Nat → Int → List Int
  | 0, _        => []
  | fuel + 1, j => if uint64 j < r.blockNumber₂ then j :: loopValues fuel (j + 1) else []

-- The index of data[16*(j-blockNumber1)+15-i].
def index (j : Int) (i : Nat) : Nat :=
  uint64 (16 * (uint64 j - r.blockNumber₁ : Int) + 15 - i)

variable (P : Platform)

def putCounters : Outcome Memory :=
  P.putCounters r.blockNumber₁ r.blockNumber₂ (numAesBlocksInBatch + 1) (loopCounter r.blockNumber₁) Memory.zero

-- The function returns, and the blocks that it has fed to AES are those of the block numbers. It has written
-- within them only.
def FeedsCounters : Prop :=
  ∃ data, r.putCounters P = .ok data ∧
    (∀ key, P.aes128EncryptedZeroBlocks key r.blockNumber₁ r.blockNumber₂ =
      .ok (P.aesRun2 key data (r.count * 16))) ∧
    (∀ k < r.count, ∀ t : Fin 16, data (16 * k + t.val) = ctrBlock (r.blockNumber₁ + k) t) ∧
    ∀ j ∈ r.loopValues (numAesBlocksInBatch + 1) (loopCounter r.blockNumber₁), ∀ i < 8,
      r.index j i < r.count * 16

-- The shifts of `j` by its width and more have the bits of its sign, as far as they are used.
def ShiftsSign (n : Nat) : Prop :=
  ∀ i, 4 ≤ i → i < 8 → P.wideShr (loopCounter n) (8 * i) % 256 = (n / 256 ^ i : Nat) % 256

-- An `int` can hold the block numbers, and the shifts are defined as meant. If there are none, it is enough
-- that `blockNumber1` is not taken for a smaller number.
def FitsInt : Prop :=
  if r.blockNumber₁ = r.blockNumber₂ then
    r.blockNumber₁ < 2 ^ 32 ∨ 2 ^ 31 ≤ r.blockNumber₁ % 2 ^ 32
  else
    (r.blockNumber₂ < 2 ^ 31 ∨ 2 ^ 64 - 2 ^ 31 ≤ r.blockNumber₁) ∧
    ∀ n, r.blockNumber₁ ≤ n → n < r.blockNumber₂ → ShiftsSign P n

end BlockRange
