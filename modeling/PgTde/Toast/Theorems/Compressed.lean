import PgTde.Toast.Compressed
import PgTde.Toast.Theorems.Slice

open Cint

namespace ToastSlice

variable {s : ToastSlice} {P : Platform} {key : Block} {e : Nat} {result : Memory}

-- The byte `x` of the result, where `s` is the start of a compressed value's stored data.
def decompressible (s : ToastSlice) (k : Keystream) (x : Nat) : UInt8 :=
  if x < tdeToastCompressHeaderSize
  then s.data[x]?.getD 0
  else s.data[x]?.getD 0 ^^^ k (x - tdeToastCompressHeaderSize)

theorem getElem?_chunk {i : Nat} (hi : i < toastMaxChunkSize) :
    (s.chunk e)[i]? = s.data[e * toastMaxChunkSize + i]? := by
  rw [chunk, List.getElem?_take_of_lt hi, List.getElem?_drop]

-- Some bytes of a chunk, decrypted from a place in the keystream.
theorem xor_extract_chunk {k : Keystream} {a b p : Nat} (ha : a ≤ b) (hb : b ≤ (s.chunk e).length) :
    k.xor p ((s.chunk e).extract a b) =
    (List.range' (e * toastMaxChunkSize + a) (b - a)).map fun x =>
      s.data[x]?.getD 0 ^^^ k (p + (x - (e * toastMaxChunkSize + a))) := by
  apply List.ext_getElem
  case hl =>
    simp only [Keystream.length_xor, List.extract_eq_take_drop, List.length_take, List.length_drop, List.length_map,
      List.length_range']
    omega
  case h =>
    intro i hi _
    simp only [Keystream.length_xor, List.extract_eq_take_drop, List.length_take, List.length_drop] at hi
    have hc : a + i < (s.chunk e).length := by omega
    have hm : a + i < toastMaxChunkSize := by
      simp only [chunk, List.length_take] at hc
      omega
    have hd : s.data[e * toastMaxChunkSize + a + i]? = some (s.chunk e)[a + i] := by
      rw [Nat.add_assoc, ←getElem?_chunk hm, List.getElem?_eq_getElem hc]
    simp [hd]

theorem extract_chunk {a b : Nat} (ha : a ≤ b) (hb : b ≤ (s.chunk e).length) :
    (s.chunk e).extract a b =
    (List.range' (e * toastMaxChunkSize + a) (b - a)).map fun x => s.data[x]?.getD 0 := by
  have hx := @xor_extract_chunk s e (fun _ => 0) a b 0 ha hb
  rw [Keystream.xor_of_zero (fun _ _ => rfl)] at hx
  simpa using hx

-- The bytes of the first chunk, in which the header comes first.
theorem decompressible_first {k : Keystream} {n : Nat} (hn : tdeToastCompressHeaderSize ≤ n)
    (hl : n ≤ (s.chunk 0).length) :
    (s.chunk 0).extract 0 tdeToastCompressHeaderSize ++
      k.xor 0 ((s.chunk 0).extract tdeToastCompressHeaderSize n) =
    (List.range' 0 n).map (s.decompressible k) := by
  have hr := List.range'_append_1 (s := 0) (m := tdeToastCompressHeaderSize) (n := n - tdeToastCompressHeaderSize)
  rw [Nat.zero_add, show tdeToastCompressHeaderSize + (n - tdeToastCompressHeaderSize) = n by omega] at hr
  rw [extract_chunk (Nat.zero_le _) (by omega), xor_extract_chunk hn hl, ←hr, List.map_append, Nat.zero_mul,
    Nat.zero_add, Nat.zero_add, Nat.sub_zero]
  refine congrArg₂ _ (List.map_congr_left ?_) (List.map_congr_left ?_)
  case refine_1 =>
    intro x hx
    rw [List.mem_range'_1] at hx
    rw [decompressible, if_pos (by omega)]
  case refine_2 =>
    intro x hx
    rw [List.mem_range'_1] at hx
    rw [decompressible, if_neg (by omega), Nat.zero_add]

theorem copyChunk_first (ho : s.offset = 0) (hc : tdeToastCompressHeaderSize + 1 ≤ s.length) :
    P.copyChunk key s.startchunk s.endchunk s.offset s.length true 0 (s.chunk 0) result =
    .ok (result.write (s.chunkStart 0)
      ((List.range' (s.chunkStart 0) (s.chunkEnd 0 - s.chunkStart 0)).map
        (s.decompressible (P.keystream key)))) := by
  have hsz := s.size_lt
  have hs : s.startchunk = 0 := by simp [startchunk, ho]
  have hcs : s.chunkStart 0 = 0 := by simp [chunkStart]
  have hcl : (s.chunk 0).length ≤ s.data.length := by
    simp only [chunk, List.length_take, List.length_drop]
    omega
  rw [Platform.copyChunk]
  simp only [if_true]
  generalize h₁ : (if 0 = s.endchunk then (s.offset + s.length - 1) % toastMaxChunkSize
    else (s.chunk 0).length - 1) = c₁
  obtain ⟨hb₁, hlt⟩ := offset_of_end (by omega) (Nat.zero_le _) h₁
  have hce : tdeToastCompressHeaderSize + 1 ≤ s.chunkEnd 0 := by
    rw [chunkEnd]
    split
    case isTrue  => exact hc
    case isFalse => rw [chunkStart, ho]; decide
  have h₀ : (if 0 = s.startchunk then 0 % toastMaxChunkSize else 0) = 0 := by
    rw [hs, if_pos rfl, Nat.zero_mod]
  have hn : ¬(c₁ + 1 < 0 + tdeToastCompressHeaderSize ∨ (s.chunk 0).length ≤ c₁) := by omega
  have hu : uint64 (((0 : Nat) * toastMaxChunkSize : Int) - (0 : Nat) + (0 : Nat)) = 0 := by
    rw [uint64_of_lt] <;> omega
  have hv : uint64 (((0 : Nat) * toastMaxChunkSize : Int) - (0 : Nat) + ((0 : Nat) + tdeToastCompressHeaderSize : Nat)) =
      tdeToastCompressHeaderSize := by
    rw [uint64_of_lt] <;> omega
  have hx : ((s.chunk 0).extract 0 tdeToastCompressHeaderSize).length = 0 + tdeToastCompressHeaderSize := by
    simp only [List.extract_eq_take_drop, List.length_take, List.length_drop]
    omega
  simp only [ho, h₀, if_neg hn, hu, hv, Outcome.pure_eq]
  rw [Platform.pgTdeCrypt_eq (by simp; omega) (by simp; omega), Outcome.ok_bind]
  rw [hcs, Nat.sub_zero, show s.chunkEnd 0 = c₁ + 1 by omega,
    ←decompressible_first (by omega) (by omega), ←Memory.write_append, hx, Nat.zero_add, Nat.zero_add]

theorem copyChunk_later (ho : s.offset = 0) (hp : 0 < e) (he : e ≤ s.endchunk) :
    P.copyChunk key s.startchunk s.endchunk s.offset s.length true e (s.chunk e) result =
    .ok (result.write (s.chunkStart e)
      ((List.range' (s.chunkStart e) (s.chunkEnd e - s.chunkStart e)).map
        (s.decompressible (P.keystream key)))) := by
  have hsz := s.size_lt
  have hl := s.le
  have hs : s.startchunk = 0 := by simp [startchunk, ho]
  rw [Platform.copyChunk]
  simp only [if_true, if_neg (Nat.ne_of_gt hp)]
  generalize h₁ : (if e = s.endchunk then (s.offset + s.length - 1) % toastMaxChunkSize
    else (s.chunk e).length - 1) = c₁
  obtain ⟨hb₁, hlt⟩ := offset_of_end (by omega) he h₁
  have hse := s.chunkStart_le_chunkEnd (e := e)
  have hend := chunkEnd_le he
  have hcs : s.chunkStart e = e * toastMaxChunkSize := by simp [chunkStart, ho]
  have hcl : (s.chunk e).length ≤ s.data.length := by
    simp only [chunk, List.length_take, List.length_drop]
    omega
  have h₀ : ¬e = s.startchunk := by omega
  have h₄ : tdeToastCompressHeaderSize ≤ e * toastMaxChunkSize := by
    simp only [tdeToastCompressHeaderSize, toastMaxChunkSize]
    omega
  have hn : ¬(c₁ + 1 < 0 ∨ (s.chunk e).length ≤ c₁) := by omega
  have hu : uint64 ((e * toastMaxChunkSize : Int) - (0 : Nat) + ((0 : Nat) - tdeToastCompressHeaderSize)) =
      e * toastMaxChunkSize - tdeToastCompressHeaderSize := by
    rw [uint64_of_lt] <;> omega
  have hv : uint64 ((e * toastMaxChunkSize : Int) - (0 : Nat) + (0 : Nat)) = e * toastMaxChunkSize := by
    rw [uint64_of_lt] <;> omega
  simp only [if_neg h₀, ho, if_neg hn, hu, hv, Outcome.pure_eq]
  rw [Platform.pgTdeCrypt_eq (by simp; omega) (by simp; omega), Outcome.ok_bind,
    xor_extract_chunk (by omega) (by omega), hcs, show s.chunkEnd e - e * toastMaxChunkSize = c₁ + 1 by omega,
    Nat.add_zero, Nat.sub_zero]
  refine congrArg _ <| congrArg _ <| List.map_congr_left ?_
  intro x hx
  rw [List.mem_range'_1] at hx
  have hk : e * toastMaxChunkSize - tdeToastCompressHeaderSize + (x - e * toastMaxChunkSize) =
      x - tdeToastCompressHeaderSize := by omega
  rw [decompressible, if_neg (by omega), hk]

theorem copyChunk_compressed (ho : s.offset = 0) (hl : tdeToastCompressHeaderSize + 1 ≤ s.length)
    (he : e ≤ s.endchunk) :
    P.copyChunk key s.startchunk s.endchunk s.offset s.length true e (s.chunk e) result =
    .ok (result.write (s.chunkStart e)
      ((List.range' (s.chunkStart e) (s.chunkEnd e - s.chunkStart e)).map
        (s.decompressible (P.keystream key)))) := by
  cases e
  case zero => exact copyChunk_first ho hl
  case succ => exact copyChunk_later ho (Nat.succ_pos _) he

end ToastSlice

-- These are the arguments that the code uses.
theorem copyChunk_cipher {P : Platform} {key : Block} {startchunk endchunk sliceoffset slicelength curchunk : Nat}
    {compressed : Bool} {chunkdata : List UInt8} {result r : Memory}
    (h : P.copyChunk key startchunk endchunk sliceoffset slicelength compressed curchunk chunkdata result = .ok r) :
    let cipher := chunkCipher startchunk endchunk sliceoffset slicelength compressed curchunk chunkdata.length
    ∃ data plain, (data.length : Int) = cipher.2 ∧ P.pgTdeCrypt (uint64 cipher.1) data key = .ok plain := by
  simp only [Platform.copyChunk, chunkCipher] at h ⊢
  generalize (if curchunk = startchunk then sliceoffset % toastMaxChunkSize else 0) = c₀ at h ⊢
  generalize (if curchunk = endchunk then (sliceoffset + slicelength - 1) % toastMaxChunkSize
    else chunkdata.length - 1) = c₁ at h ⊢
  have tail {strt : Nat} {offset : Int} {m : List UInt8 → Outcome Memory}
      (h : (do
        if c₁ + 1 < strt ∨ chunkdata.length ≤ c₁ then (.error .undefined : Outcome Unit)
        let plain ← P.pgTdeCrypt (uint64 offset) (chunkdata.extract strt (c₁ + 1)) key
        m plain) = .ok r) :
      ∃ data plain, (data.length : Int) = c₁ - strt + 1 ∧ P.pgTdeCrypt (uint64 offset) data key = .ok plain := by
    split at h
    case isTrue  => cases h
    case isFalse hg =>
      obtain ⟨plain, hp, -⟩ := Outcome.bind_eq_ok_iff.mp h
      refine ⟨_, plain, ?_, hp⟩
      simp only [List.extract_eq_take_drop, List.length_take, List.length_drop]
      omega
  split at h
  case isTrue hc =>
    simp only [hc, if_true]
    split at h
    case isTrue h₀  => simpa only [if_pos h₀] using tail h
    case isFalse h₀ => simpa only [if_neg h₀] using tail h
  case isFalse hc => simpa only [if_neg hc] using tail h

namespace CompressedPrefix

variable {c : CompressedPrefix} {k : Keystream}

-- The stored data of the value.
def stored (c : CompressedPrefix) (k : Keystream) : ToastSlice where
  data    := c.header ++ k.xor 0 c.payload
  offset  := 0
  length  := c.length
  size_lt := by rw [List.length_append, Keystream.length_xor]; exact c.size_lt
  pos     := Nat.le_trans (Nat.succ_pos _) c.length_ge
  le      := by rw [List.length_append, Keystream.length_xor, Nat.zero_add]; exact c.length_le

theorem decompressible_stored :
    (List.range c.length).map ((c.stored k).decompressible k) =
    c.header ++ c.payload.take (c.length - tdeToastCompressHeaderSize) := by
  have hh := c.header_eq
  have hl := c.length_le
  have hg := c.length_ge
  apply List.ext_getElem
  case hl => simp; omega
  case h  =>
    intro i hi _
    rw [List.length_map, List.length_range] at hi
    simp only [List.getElem_map, List.getElem_range, ToastSlice.decompressible, stored]
    split
    case isTrue h  =>
      rw [List.getElem?_append_left (by omega), List.getElem_append_left (by omega),
        List.getElem?_eq_getElem (by omega), Option.getD_some]
    case isFalse h =>
      have hk : 0 + (i - c.header.length) = i - tdeToastCompressHeaderSize := by omega
      rw [List.getElem?_append_right (by omega), List.getElem_append_right (by omega),
        List.getElem?_eq_getElem (by simp; omega), Option.getD_some, Keystream.getElem_xor, List.getElem_take, hk,
        UInt8.xor_assoc, UInt8.xor_self, UInt8.xor_zero, List.get_eq_getElem]

-- The decryption of each chunk is within the keystream, and of some byte at least.
theorem chunkCipher_inside (c : CompressedPrefix) (e : Nat) :
    0 ≤ (chunkCipher 0 c.endchunk 0 c.length true e (c.chunksize e)).1 ∧
    0 < (chunkCipher 0 c.endchunk 0 c.length true e (c.chunksize e)).2 := by
  have hg := c.length_ge
  have hl := c.length_le
  simp only [chunkCipher, if_true, Nat.zero_mod, ite_self]
  generalize hc : (if e = c.endchunk then (0 + c.length - 1) % toastMaxChunkSize else c.chunksize e - 1) = c₁
  have h₁ (h₀ : e = 0) : tdeToastCompressHeaderSize ≤ c₁ := by
    rw [h₀] at hc
    split at hc
    all_goals
      simp only [chunksize, size, endchunk, toastMaxChunkSize, tdeToastCompressHeaderSize] at *
      omega
  by_cases h₀ : e = 0
  case pos =>
    have h₁ := h₁ h₀
    simp only [h₀, if_true, tdeToastCompressHeaderSize] at h₁ ⊢
    omega
  case neg =>
    simp only [if_neg h₀, toastMaxChunkSize, tdeToastCompressHeaderSize]
    omega

end CompressedPrefix
