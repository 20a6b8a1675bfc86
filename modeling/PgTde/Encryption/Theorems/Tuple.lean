import PgTde.Encryption.Theorems.Aes
import PgTde.Encryption.Tuple

open Cint

theorem List.mapM_ok {f : Nat → Outcome UInt8} {g : Nat → UInt8} {is : List Nat}
    (h : ∀ i ∈ is, f i = .ok (g i)) : is.mapM f = .ok (is.map g) := by
  induction is
  case nil          => rfl
  case cons i is hi =>
    have ht := hi fun j hj => h j (List.mem_cons_of_mem _ hj)
    simp [List.mapM_cons, h i List.mem_cons_self, ht]

theorem cryptByte_eq {data encKey : List UInt8} {i j : Nat} (hi : i < data.length)
    (hj : j < encKey.length) : cryptByte data encKey i j = .ok (data[i] ^^^ encKey[j]) := by
  simp [cryptByte, hi, hj]

namespace Platform

variable {P : Platform} {key : Block} {data out : List UInt8} {start s e n fuel : Nat}

-- The part of the text that one batch contributes, where the text from byte `d` on is at hand.
theorem xor_take_add {k : Keystream} {d c : Nat} (hd : d ≤ data.length) :
    k.xor start (data.take (d + c)) =
    k.xor start (data.take d) ++ k.xor (start + d) ((data.drop d).take c) := by
  rw [List.take_add, Keystream.xor_append, List.length_take, Nat.min_eq_left hd]

theorem cryptBatch_eq {d c b₁ b₂ skipped : Nat} (hd : 16 * b₁ + skipped = start + d)
    (hc : d + c ≤ data.length) (hk : c + skipped ≤ 16 * (b₂ - b₁)) :
    (List.range c).mapM (fun i => cryptByte data
      ((List.range (16 * (b₂ - b₁))).map fun i => P.keystream key (16 * b₁ + i)) (d + i) (i + skipped)) =
    .ok ((P.keystream key).xor (start + d) ((data.drop d).take c)) := by
  have hm : ∀ i ∈ List.range c, cryptByte data
      ((List.range (16 * (b₂ - b₁))).map fun i => P.keystream key (16 * b₁ + i)) (d + i) (i + skipped) =
      .ok (data[d + i]?.getD 0 ^^^ P.keystream key (start + d + i)) := by
    intro i hi
    simp only [List.mem_range] at hi
    have hp : 16 * b₁ + (i + skipped) = start + d + i := by omega
    have hl : d + i < data.length := by omega
    rw [cryptByte_eq hl (by simp; omega)]
    simp [hp, hl]
  rw [List.mapM_ok hm]
  congr 1
  apply List.ext_getElem
  · simp; omega
  · intro i hi _
    have hi : d + i < data.length := by simp at hi; omega
    simp [hi]

-- The invariant of the batch loop: `out` is the encryption of the text's first `out.length` bytes,
-- and the next batch starts with the keystream byte of the byte behind them, behind `aesBlockNo`
-- skipped bytes in case of the first batch.
structure BatchInv (P : Platform) (key : Block) (start : Nat) (data : List UInt8)
    (aesBlockNo aesEndBlock s n : Nat) (out : List UInt8) : Prop where
  out_eq   : out = (P.keystream key).xor start (data.take out.length)
  out_le   : out.length ≤ data.length
  next     : s < aesEndBlock → 16 * s + (if n > 0 then 0 else aesBlockNo) = start + out.length
  finished : aesEndBlock ≤ s → out.length = data.length

namespace BatchInv

variable {aesBlockNo aesEndBlock : Nat}

theorem eq_xor (i : P.BatchInv key start data aesBlockNo aesEndBlock s n out)
    (h : aesEndBlock ≤ s) : out = (P.keystream key).xor start data := by
  have ho := i.out_eq
  rwa [i.finished h, List.take_length] at ho

theorem append {c : Nat} (i : P.BatchInv key start data aesBlockNo aesEndBlock s n out)
    (hc : out.length + c ≤ data.length)
    (hn : s + 100 < aesEndBlock → 16 * (s + 100) = start + (out.length + c))
    (hf : aesEndBlock ≤ s + 100 → out.length + c = data.length) :
    P.BatchInv key start data aesBlockNo aesEndBlock (s + 100) (n + 1)
      (out ++ (P.keystream key).xor (start + out.length) ((data.drop out.length).take c)) := by
  have hl : ((data.drop out.length).take c).length = c := by simp; omega
  constructor
  case out_eq   =>
    rw [List.length_append, Keystream.length_xor, hl, xor_take_add i.out_le, ←i.out_eq]
  case out_le   => simpa [hl] using hc
  case next     => simpa [hl] using hn
  case finished => simpa [hl] using hf

end BatchInv

-- The number of bytes that the batch from block `s` to block `b` contributes.
theorem currentBatchBytes_eq {d skipped b : Nat} (hl : data.length ≤ 2 ^ 30)
    (hb : b ≤ s + 100) (hs : s < b) (hk : skipped < 16) (hd : d ≤ data.length) :
    (if uint32 (d + uint32 ((b - s) * 16 - skipped)) > data.length
      then uint32 (data.length - d)
      else uint32 ((b - s) * 16 - skipped)) =
    min (16 * (b - s) - skipped) (data.length - d) := by
  have h : uint32 ((b - s) * 16 - skipped) = 16 * (b - s) - skipped := by
    rw [uint32_of_lt] <;> omega
  rw [h, uint32_of_lt (n := (d : Int) + _) (by omega) (by omega),
    uint32_of_lt (n := (data.length : Int) - d) (by omega) (by omega)]
  split <;> omega

theorem cryptBatches_eq {aesBlockNo aesEndBlock : Nat} (hs : start + data.length ≤ 2 ^ 34)
    (hl : data.length ≤ 2 ^ 30) (ha : aesBlockNo < 16)
    (he : aesEndBlock = (start + data.length + 15) / 16) (hf : aesEndBlock - s < fuel)
    (i : P.BatchInv key start data aesBlockNo aesEndBlock s n out) :
    P.cryptBatches key aesBlockNo aesEndBlock data fuel s n out =
    .ok ((P.keystream key).xor start data) := by
  induction fuel generalizing s n out
  case zero => omega
  case succ fuel hi =>
    rw [cryptBatches]
    split
    case isFalse h => rw [i.eq_xor (by omega)]
    case isTrue h =>
      have hle := i.out_le
      have hd := i.next h
      generalize hk : (if n > 0 then 0 else aesBlockNo) = skipped at hd
      have hk' : skipped < 16 := by split at hk <;> omega
      have hu : uint64 ((s : Int) + numAesBlocksInBatch) = s + 100 := by
        simp only [numAesBlocksInBatch]
        rw [uint64_of_lt] <;> omega
      generalize hb : min (s + 100) aesEndBlock = b
      have hz : P.aes128EncryptedZeroBlocks key s b =
          .ok ((List.range (16 * (b - s))).map fun i => P.keystream key (16 * s + i)) :=
        aes128EncryptedZeroBlocks_eq (by omega) (by simp only [numAesBlocksInBatch]; omega) (by omega)
      have hc := currentBatchBytes_eq (s := s) (b := b) hl (by omega) (by omega) hk' hle
      generalize hcc : min (16 * (b - s) - skipped) (data.length - out.length) = c at hc
      have hm : (List.range c).mapM (fun i => cryptByte data
          ((List.range (16 * (b - s))).map fun i => P.keystream key (16 * s + i))
          (out.length + i) (i + skipped)) =
          .ok ((P.keystream key).xor (start + out.length) ((data.drop out.length).take c)) :=
        cryptBatch_eq hd (by omega) (by omega)
      have h₁₆ : (aesBlockSize : Int) = 16 := rfl
      simp only [hu, hb, hz, h₁₆, Outcome.ok_bind, hc, hm]
      apply hi (by omega)
      exact i.append (by omega) (by omega) (by omega)

theorem pgTdeCrypt_eq (hs : start + data.length ≤ 2 ^ 34) (hl : data.length ≤ 2 ^ 30) :
    P.pgTdeCrypt start data key = .ok ((P.keystream key).xor start data) := by
  have he : uint64 ((start : Int) + data.length + (aesBlockSize - 1)) / aesBlockSize =
      (start + data.length + 15) / 16 := by
    have h₁₆ : (aesBlockSize : Int) = 16 := rfl
    rw [h₁₆, uint64_of_lt (by omega) (by omega), aesBlockSize]
    omega
  rw [pgTdeCrypt]
  apply cryptBatches_eq hs hl
  case ha => exact Nat.mod_lt _ (by decide)
  case he => exact he
  case hf => simp only [aesBlockSize] at he ⊢; omega
  case i  =>
    simp only [he]
    constructor
    case out_eq   => rfl
    case out_le   => simp
    case next     => intro; simp [aesBlockSize]; omega
    case finished => intro h; simp [aesBlockSize] at h ⊢; omega

section Move

variable {mem : Memory} {r rd w wd len left curr : Nat}

theorem moveEncryptedPieces_eq (hr : r + len ≤ 2 ^ 34) (hw : w + len ≤ 2 ^ 34)
    (hd : rd = wd ∨ rd + len ≤ wd ∨ wd + len ≤ rd) (hc : curr + left = len) (hf : left < fuel) :
    P.moveEncryptedPieces r rd w wd len key fuel left curr mem =
    .ok (mem.write (wd + curr) ((P.keystream key).xor (w + curr)
      ((P.keystream key).xor (r + curr) (mem.read (rd + curr) left)))) := by
  induction fuel generalizing left curr mem
  case zero => omega
  case succ fuel hi =>
    rw [moveEncryptedPieces]
    by_cases h : left > 0
    case neg => simp [show left = 0 by omega]
    case pos =>
      simp only [h, if_true]
      generalize hb : min (min dataBytesPerAesBatch len) left = b
      simp only [dataBytesPerAesBatch, numAesBlocksInBatch, aesBlockSize] at hb
      have hb₀ : 0 < b ∧ b ≤ left := by omega
      have hu : uint64 ((r : Int) + curr) = r + curr := by rw [uint64_of_lt] <;> omega
      have hv : uint64 ((w : Int) + curr) = w + curr := by rw [uint64_of_lt] <;> omega
      rw [hu, hv, pgTdeCrypt_eq (by simp; omega) (by simp; omega), Outcome.ok_bind,
        pgTdeCrypt_eq (by simp; omega) (by simp; omega), Outcome.ok_bind,
        hi (show curr + b + (left - b) = len by omega) (by omega)]
      have hs : left = b + (left - b) := by omega
      conv_rhs => rw [hs, Memory.read_add, Keystream.xor_append, Keystream.xor_append]
      rw [←Memory.write_append, Memory.read_write_disjoint (by simp; omega)]
      simp [Nat.add_assoc]

theorem pgTdeMoveEncryptedData_eq (hr : r + len ≤ 2 ^ 34) (hw : w + len ≤ 2 ^ 34)
    (hd : rd = wd ∨ rd + len ≤ wd ∨ wd + len ≤ rd) :
    P.pgTdeMoveEncryptedData mem r rd w wd len key =
    .ok (mem.write wd ((P.keystream key).xor w ((P.keystream key).xor r (mem.read rd len)))) := by
  rw [pgTdeMoveEncryptedData, moveEncryptedPieces_eq hr hw hd (by omega) (by omega)]
  rfl

end Move

theorem offsetInFile_eq {bn o : Nat} (h : o ≤ blcksz) :
    offsetInFile bn o = bn * blcksz % 2 ^ 32 + o := by
  simp only [blcksz] at *
  simp only [offsetInFile, blcksz, uint32]
  rw [uint64_of_lt] <;> omega

theorem offsetInFile_lt {bn o : Nat} (h : o ≤ blcksz) : offsetInFile bn o < 2 ^ 32 + 2 ^ 13 := by
  rw [offsetInFile_eq h]
  simp only [blcksz] at *
  omega

theorem pgTdeCryptTuple_eq {bn a len : Nat} {page : Memory} (ha : a ≤ blcksz) (hl : len ≤ blcksz)
    (hh : tHoff page a ≤ len) :
    P.pgTdeCryptTuple bn page a len key =
    .ok ((P.keystream key).xor (offsetInFile bn a)
      (page.read (a + tHoff page a) (len - tHoff page a))) := by
  have ho := @offsetInFile_lt bn _ ha
  simp only [blcksz] at hl
  have hd : tupleDataLen page a len = len - tHoff page a := by
    rw [tupleDataLen, uint32_of_lt] <;> omega
  rw [pgTdeCryptTuple, hd, pgTdeCrypt_eq] <;> simp <;> omega

theorem encryptPageItem_eq {bn a : Nat} (ha : a ≤ blcksz) (hl : data.length ≤ 2 ^ 30) :
    P.encryptPageItem bn a data key = .ok ((P.keystream key).xor (offsetInFile bn a) data) := by
  have ho := @offsetInFile_lt bn _ ha
  rw [encryptPageItem, pgTdeCrypt_eq] <;> omega

-- Re-encryption in place masks the data with the difference of the keystream at the two positions.
theorem reEncryptTupleData_eq {bn r w a len : Nat} {mem : Memory} (hr : r ≤ blcksz) (hw : w ≤ blcksz)
    (hl : len ≤ blcksz) :
    P.reEncryptTupleData mem bn r a bn w a len key =
    .ok (mem.mask ((P.keystream key).window (offsetInFile bn r) (offsetInFile bn w) a len)) := by
  have hr := @offsetInFile_lt bn _ hr
  have hw := @offsetInFile_lt bn _ hw
  simp only [blcksz] at hl
  rw [reEncryptTupleData, pgTdeMoveEncryptedData_eq (by omega) (by omega) (by simp),
    Keystream.write_reencrypt]

end Platform
