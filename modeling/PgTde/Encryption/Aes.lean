import PgTde.Fault
import PgTde.Library.Cint
import PgTde.Library.Memory

open Cint

def aesBlockSize : Nat := 16
def numAesBlocksInBatch : Nat := 100
def dataBytesPerAesBatch : Nat := numAesBlocksInBatch * aesBlockSize

def internalKeyLen : Nat := 16

abbrev Block := Fin 16 → UInt8

instance neZero_sixteen : NeZero 16 :=
  ⟨by decide⟩

-- What the cipher code rests on outside of this repository.
structure Platform where
  -- One block of OpenSSL's `EVP_aes_128_ecb`, as a function of the key and the input block.
  aes128 : Block → Block → Block
  -- The value of `j >> s` for an `int` `j` and a width `s ≥ 32`, which the C standard leaves open.
  wideShr : Int → Nat → Int

namespace Platform

variable (P : Platform)

def shr (j : Int) (s : Nat) : Int :=
  if s < 32 then j / 2 ^ s else P.wideShr j s

-- (j >> (8*i)) & 0xFF
def counterByte (j : Int) (i : Nat) : UInt8 :=
  .ofNat (P.shr j (8 * i) % 256).toNat

-- The block that the code feeds to AES for the block number `j`.
def counterBlock (j : Nat) : Block :=
  fun t => if t.val < 8 then 0 else P.counterByte j (15 - t.val)

-- data[16*(j-blockNumber1)+15-i] = (j >> (8*i)) & 0xFF
def putCounterByte (blockNumber₁ : Nat) (j : Int) (data : Memory) (i : Nat) : Outcome Memory :=
  let idx := uint64 (16 * (uint64 j - blockNumber₁ : Int) + 15 - i)
  if idx < dataBytesPerAesBatch
  then .ok (data.write idx [P.counterByte j i])
  else .error .undefined

def putCounter (blockNumber₁ : Nat) (j : Int) (data : Memory) : Outcome Memory :=
  (List.range 8).foldlM (P.putCounterByte blockNumber₁ j) data

-- for(int j=blockNumber1;j<blockNumber2;++j)
-- The fuel is the number of blocks that `data` has room for plus one, so it only runs out when an
-- iteration writes outside of `data` anyway.
def putCounters (blockNumber₁ blockNumber₂ : Nat) : Nat → Int → Memory → Outcome Memory
  | 0, _, _ => .error .undefined
  | fuel + 1, j, data =>
    if uint64 j < blockNumber₂ then do
      let data ← P.putCounter blockNumber₁ j data
      if j = 2 ^ 31 - 1 then .error .undefined
      putCounters blockNumber₁ blockNumber₂ fuel (j + 1) data
    else
      .ok data

-- AesRun2 in ECB mode
def aesRun2 (key : Block) (data : Memory) (dataLen : Nat) : List UInt8 :=
  (List.range dataLen).map fun x =>
    P.aes128 key (fun t => data (aesBlockSize * (x / aesBlockSize) + t.val)) (Fin.ofNat 16 x)

def aes128EncryptedZeroBlocks (key : Block) (blockNumber₁ blockNumber₂ : Nat) :
    Outcome (List UInt8) := do
  let dataLen := uint32 (uint64 (blockNumber₂ - blockNumber₁) * 16)
  let data ← P.putCounters blockNumber₁ blockNumber₂ (numAesBlocksInBatch + 1) (int32 blockNumber₁)
    Memory.zero
  return P.aesRun2 key data dataLen

end Platform

def Block.toNat (block : Block) : Nat :=
  (List.finRange 16).foldl (fun n t => 256 * n + (block t).toNat) 0

-- The platform that the code is built for: on x86, the width of a shift of an `int` counts modulo 32, so
-- that a counter block holds its number twice. `table` lists what AES-128 makes of some of these blocks
-- under one key.
def Platform.x86 (table : List (Nat × List UInt8)) : Platform where
  aes128 _ block t :=
    ((table.find? fun e => block.toNat = 2 ^ 32 * e.1 + e.1).bind (·.2[t.val]?)).getD 0
  wideShr j s := j / 2 ^ (s % 32)
