import PgTde.Encryption.Theorems.Tuple
import PgTde.Toast.Slice

open Cint

-- PostgreSQL's `toast_save_datum`, which splits the data of a value into chunks. Whether a chunk is
-- stored with a short header depends on its length only, but does not matter here.
def toastSaveDatum (short : List UInt8 → Bool) (data : List UInt8) : List ToastChunk :=
  (List.range ((data.length - 1) / toastMaxChunkSize + 1)).map fun i =>
    let chunk := (data.drop (i * toastMaxChunkSize)).take toastMaxChunkSize
    ⟨i, if short chunk then .short chunk else .plain chunk⟩

-- A slice of a TOAST value, which has at most the size that a varlena header has room for.
structure ToastSlice where
  data    : List UInt8
  offset  : Nat
  length  : Nat
  size_lt : data.length < 2 ^ 30
  pos     : 1 ≤ length
  le      : offset + length ≤ data.length

namespace ToastSlice

variable (s : ToastSlice) {P : Platform} {key : Block} {e x : Nat} {result : Memory} {t : ToastRef}

abbrev startchunk : Nat :=
  s.offset / toastMaxChunkSize

abbrev endchunk : Nat :=
  (s.offset + s.length - 1) / toastMaxChunkSize

-- Where the part of the chunk `e` starts in the slice.
def chunkStart (e : Nat) : Nat :=
  e * toastMaxChunkSize - s.offset

def chunkEnd (e : Nat) : Nat :=
  if e = s.endchunk then s.length else s.chunkStart (e + 1)

def chunk (e : Nat) : List UInt8 :=
  (s.data.drop (e * toastMaxChunkSize)).take toastMaxChunkSize

-- The byte `x` of the result of the fetch, where `s` is a slice of the stored data.
def fetched (k : Keystream) (x : Nat) : UInt8 :=
  s.data[s.offset + x]?.getD 0 ^^^ k x

variable {s}

theorem length_chunk (h : e < s.endchunk) : (s.chunk e).length = toastMaxChunkSize := by
  have hl := s.le
  simp only [chunk, endchunk, toastMaxChunkSize, List.length_take, List.length_drop] at *
  omega

theorem offset_of_start (hs : s.startchunk ≤ e) {c : Nat}
    (h : (if e = s.startchunk then s.offset % toastMaxChunkSize else 0) = c) :
    e * toastMaxChunkSize + c = s.offset + s.chunkStart e := by
  by_cases hst : e = s.startchunk
  case pos =>
    rw [if_pos hst] at h
    simp only [startchunk, chunkStart, toastMaxChunkSize] at *
    omega
  case neg =>
    rw [if_neg hst] at h
    simp only [startchunk, chunkStart, toastMaxChunkSize] at *
    omega

theorem chunkEnd_le (he : e ≤ s.endchunk) : s.chunkEnd e ≤ s.length := by
  by_cases h : e = s.endchunk
  case pos => exact Nat.le_of_eq (if_pos h)
  case neg =>
    rw [chunkEnd, if_neg h]
    simp only [endchunk, chunkStart, toastMaxChunkSize] at *
    omega

theorem offset_of_end (hs : s.startchunk ≤ e) (he : e ≤ s.endchunk) {c : Nat}
    (h : (if e = s.endchunk then (s.offset + s.length - 1) % toastMaxChunkSize
      else (s.chunk e).length - 1) = c) :
    e * toastMaxChunkSize + c + 1 = s.offset + s.chunkEnd e ∧ c < (s.chunk e).length := by
  have hl := s.le
  have hp := s.pos
  by_cases hc : e = s.endchunk
  case pos =>
    rw [if_pos hc] at h
    rw [chunkEnd, if_pos hc]
    simp only [endchunk, chunk, toastMaxChunkSize, List.length_take, List.length_drop] at *
    omega
  case neg =>
    rw [if_neg hc, length_chunk (by omega)] at h
    rw [chunkEnd, if_neg hc, length_chunk (by omega)]
    simp only [startchunk, chunkStart, toastMaxChunkSize] at *
    omega

theorem chunkStart_le_chunkEnd :
    s.chunkStart e ≤ s.chunkEnd e := by
  have hp := s.pos
  by_cases hc : e = s.endchunk
  case pos =>
    rw [chunkEnd, if_pos hc]
    simp only [endchunk, chunkStart, toastMaxChunkSize] at *
    omega
  case neg =>
    rw [chunkEnd, if_neg hc]
    simp only [chunkStart, toastMaxChunkSize] at *
    omega

theorem copyChunk_eq (hs : s.startchunk ≤ e) (he : e ≤ s.endchunk) :
    P.copyChunk key s.startchunk s.endchunk s.offset s.length false e (s.chunk e) result =
    .ok (result.write (s.chunkStart e)
      ((List.range' (s.chunkStart e) (s.chunkEnd e - s.chunkStart e)).map
        (s.fetched (P.keystream key)))) := by
  have hsz := s.size_lt
  have hl := s.le
  rw [Platform.copyChunk]
  simp only [Bool.false_eq_true, if_false]
  generalize h₀ : (if e = s.startchunk then s.offset % toastMaxChunkSize else 0) = c₀
  generalize h₁ : (if e = s.endchunk then (s.offset + s.length - 1) % toastMaxChunkSize
    else (s.chunk e).length - 1) = c₁
  have hb₀ := offset_of_start hs h₀
  obtain ⟨hb₁, hlt⟩ := offset_of_end hs he h₁
  have hse := s.chunkStart_le_chunkEnd (e := e)
  have hend := chunkEnd_le he
  have hcl : (s.chunk e).length ≤ s.data.length := by
    simp only [chunk, List.length_take, List.length_drop]
    omega
  have hu : uint64 ((e * toastMaxChunkSize : Int) - s.offset + c₀) = s.chunkStart e := by
    rw [uint64_of_lt] <;> omega
  have hn : ¬(c₁ + 1 < c₀ ∨ (s.chunk e).length ≤ c₁) := by omega
  simp only [hu, if_neg hn, List.extract_eq_take_drop, Outcome.pure_eq]
  rw [Platform.pgTdeCrypt_eq (by simp; omega) (by simp; omega), Outcome.ok_bind]
  refine congrArg (fun bs => Except.ok (result.write _ bs)) ?_
  apply List.ext_getElem
  case hl =>
    simp only [Keystream.length_xor, List.length_take, List.length_drop, List.length_map,
      List.length_range']
    omega
  case h =>
    intro i hi _
    simp only [Keystream.length_xor, List.length_take, List.length_drop] at hi
    have hx : s.offset + (s.chunkStart e + i) < s.data.length := by omega
    have hc : c₀ + i < (s.chunk e).length := by omega
    have hd : (s.chunk e)[c₀ + i] = s.data[s.offset + (s.chunkStart e + i)] := by
      simp only [chunk, List.getElem_take, List.getElem_drop, ←Nat.add_assoc, hb₀]
    simp [fetched, hd, hx]

def row (s : ToastSlice) (short : List UInt8 → Bool) (e : Nat) : ToastChunk :=
  ⟨e, if short (s.chunk e) then .short (s.chunk e) else .plain (s.chunk e)⟩

variable {short : List UInt8 → Bool}

theorem filter_range {a b n : Nat} (h : b < n) (ha : a ≤ b + 1) :
    (List.range n).filter (fun i => a ≤ i ∧ i ≤ b) = List.range' a (b + 1 - a) := by
  have h₁ : List.range' a (b + 1 - a) ++ List.range' (b + 1) (n - (b + 1)) =
      List.range' a (n - a) := by
    have h := List.range'_append_1 (s := a) (m := b + 1 - a) (n := n - (b + 1))
    rwa [show a + (b + 1 - a) = b + 1 by omega,
      show b + 1 - a + (n - (b + 1)) = n - a by omega] at h
  have h₂ : List.range n = List.range' 0 a ++ List.range' a (n - a) := by
    have h := List.range'_append_1 (s := 0) (m := a) (n := n - a)
    rw [Nat.zero_add, show a + (n - a) = n by omega] at h
    rw [h, List.range_eq_range']
  have hlow : (List.range' 0 a).filter (fun i => a ≤ i ∧ i ≤ b) = [] := by
    simp only [List.filter_eq_nil_iff, List.mem_range'_1, decide_eq_true_eq]
    omega
  have hhigh : (List.range' (b + 1) (n - (b + 1))).filter (fun i => a ≤ i ∧ i ≤ b) = [] := by
    simp only [List.filter_eq_nil_iff, List.mem_range'_1, decide_eq_true_eq]
    omega
  rw [h₂, ←h₁, List.filter_append, List.filter_append, hlow, hhigh, List.nil_append, List.append_nil,
    List.filter_eq_self]
  simp only [List.mem_range'_1, decide_eq_true_eq]
  omega

theorem endchunk_lt : s.endchunk < (s.data.length - 1) / toastMaxChunkSize + 1 := by
  have hl := s.le
  have hp := s.pos
  simp only [endchunk, toastMaxChunkSize]
  omega

theorem startchunk_le : s.startchunk ≤ s.endchunk := by
  have hp := s.pos
  simp only [startchunk, endchunk, toastMaxChunkSize]
  omega

theorem scan_eq (ht : t.attrsize = s.data.length) :
    t.scan s.startchunk s.endchunk (toastSaveDatum short s.data) =
    (List.range' s.startchunk (s.endchunk + 1 - s.startchunk)).map (s.row short) := by
  have he := s.endchunk_lt
  have hs := s.startchunk_le
  have hd : toastSaveDatum short s.data =
    (List.range ((s.data.length - 1) / toastMaxChunkSize + 1)).map (s.row short) := rfl
  have hf : ((toastSaveDatum short s.data).filter fun c =>
      s.startchunk ≤ c.chunkSeq ∧ c.chunkSeq ≤ s.endchunk) =
      (List.range' s.startchunk (s.endchunk + 1 - s.startchunk)).map (s.row short) := by
    rw [hd, List.filter_map, ←filter_range he (by omega)]
    rfl
  rw [ToastRef.scan, ToastRef.totalchunks, ht]
  split
  case isTrue h =>
    rw [hd, h.1, h.2, List.range_eq_range', Nat.add_sub_cancel, Nat.sub_zero]
  case isFalse =>
    split
    case isFalse  => exact hf
    case isTrue h =>
      rw [←hf]
      refine List.filter_congr fun c _ => ?_
      rw [decide_eq_decide]
      omega

theorem checkChunk_eq (ht : t.attrsize = s.data.length) (he : e ≤ s.endchunk) :
    t.checkChunk s.startchunk s.endchunk e e (s.chunk e).length = .ok () := by
  have hl := s.le
  have hp := s.pos
  have hlen : (s.chunk e).length =
      if e < t.totalchunks - 1 then toastMaxChunkSize
      else t.attrsize - (t.totalchunks - 1) * toastMaxChunkSize := by
    have htc : t.totalchunks - 1 = (s.data.length - 1) / 1996 := by
      rw [ToastRef.totalchunks, ht]
      rfl
    rw [htc, ht]
    simp only [chunk, endchunk, toastMaxChunkSize, List.length_take, List.length_drop] at *
    split <;> omega
  rw [ToastRef.checkChunk]
  simp only [ne_eq, not_true_eq_false, if_false, ←hlen, if_neg (Nat.not_lt.mpr he)]

-- The loop writes the part of the slice from chunk `e` on, where each of its iterations writes a part of it.
theorem fetchChunks_of_copyChunk {compressed : Bool} {f : Nat → UInt8}
    (hf : ∀ e result, s.startchunk ≤ e → e ≤ s.endchunk →
      P.copyChunk key s.startchunk s.endchunk s.offset s.length compressed e (s.chunk e) result =
      .ok (result.write (s.chunkStart e)
        ((List.range' (s.chunkStart e) (s.chunkEnd e - s.chunkStart e)).map f)))
    (ht : t.attrsize = s.data.length) (hs : s.startchunk ≤ e) {n : Nat} (hn : e + n = s.endchunk + 1) :
    P.fetchChunks t key s.startchunk s.endchunk s.offset s.length compressed
      ((List.range' e n).map (s.row short)) e result =
    .ok (result.write (s.chunkStart e)
      ((List.range' (s.chunkStart e) (s.length - s.chunkStart e)).map f)) := by
  induction n generalizing e result
  case zero =>
    have h : s.length - s.chunkStart e = 0 := by
      simp only [endchunk, chunkStart, toastMaxChunkSize] at *
      omega
    rw [Nat.add_zero] at hn
    simp [Platform.fetchChunks, hn ▸ h, hn]
  case succ n hi =>
    have hd : t.chunkdata (s.row short e) = .ok (s.chunk e) := by
      by_cases h : short (s.chunk e) <;> simp [ToastRef.chunkdata, row, h]
    have hq : (s.row short e).chunkSeq = e := rfl
    have hse := s.chunkStart_le_chunkEnd (e := e)
    rw [List.range'_succ, List.map_cons, Platform.fetchChunks, hd, Outcome.ok_bind, hq,
      checkChunk_eq ht (by omega), Outcome.ok_bind, hf e _ hs (by omega), Outcome.ok_bind,
      hi (by omega) (by omega)]
    by_cases hc : e = s.endchunk
    case pos =>
      have hce : s.chunkEnd e = s.length := if_pos hc
      have h : s.length - s.chunkStart (e + 1) = 0 := by
        simp only [endchunk, chunkStart, toastMaxChunkSize] at *
        omega
      simp [h, hce]
    case neg =>
      have hce : s.chunkEnd e = s.chunkStart (e + 1) := if_neg hc
      have hle := chunkEnd_le (s := s) (e := e) (by omega)
      rw [hce] at hse hle ⊢
      have hw : s.chunkStart (e + 1) = s.chunkStart e +
          ((List.range' (s.chunkStart e) (s.chunkStart (e + 1) - s.chunkStart e)).map
            f).length := by
        simp only [List.length_map, List.length_range']
        omega
      have hr := List.range'_append_1 (s := s.chunkStart e)
        (m := s.chunkStart (e + 1) - s.chunkStart e) (n := s.length - s.chunkStart (e + 1))
      rw [show s.chunkStart e + (s.chunkStart (e + 1) - s.chunkStart e) = s.chunkStart (e + 1) by omega,
        show s.chunkStart (e + 1) - s.chunkStart e + (s.length - s.chunkStart (e + 1)) =
          s.length - s.chunkStart e by omega] at hr
      rw [←hr, List.map_append, ←Memory.write_append, ←hw]

theorem pgTdeFetchToastSlice_of_copyChunk {compressed : Bool} {f : Nat → UInt8}
    (hf : ∀ e result, s.startchunk ≤ e → e ≤ s.endchunk →
      P.copyChunk key s.startchunk s.endchunk s.offset s.length compressed e (s.chunk e) result =
      .ok (result.write (s.chunkStart e)
        ((List.range' (s.chunkStart e) (s.chunkEnd e - s.chunkStart e)).map f)))
    (ht : t.attrsize = s.data.length) :
    P.pgTdeFetchToastSlice (toastSaveDatum short s.data) key t s.offset s.length compressed result =
    .ok (result.write 0 ((List.range s.length).map f)) := by
  have hst : s.chunkStart s.startchunk = 0 := by
    simp only [chunkStart, startchunk, toastMaxChunkSize]
    omega
  rw [Platform.pgTdeFetchToastSlice]
  refine (congrArg (P.fetchChunks _ _ _ _ _ _ _ · _ _) (scan_eq ht)).trans ?_
  rw [fetchChunks_of_copyChunk hf ht (Nat.le_refl _) (by have := s.startchunk_le; omega), hst, Nat.sub_zero,
    List.range_eq_range']

-- Fetching a slice decrypts it with the start of the keystream.
theorem pgTdeFetchToastSlice_eq (ht : t.attrsize = s.data.length) :
    P.pgTdeFetchToastSlice (toastSaveDatum short s.data) key t s.offset s.length false result =
    .ok (result.write 0 ((List.range s.length).map (s.fetched (P.keystream key)))) :=
  pgTdeFetchToastSlice_of_copyChunk (fun _ _ => copyChunk_eq) ht

-- The same slice of the data that is stored once the value is encrypted.
def stored (s : ToastSlice) (k : Keystream) : ToastSlice where
  data    := k.xor 0 s.data
  offset  := s.offset
  length  := s.length
  size_lt := by simpa using s.size_lt
  pos     := s.pos
  le      := by simpa using s.le

theorem externalize_eq :
    P.pgTdeToastTupleExternalize key s.data = .ok (s.stored (P.keystream key)).data := by
  have hsz := s.size_lt
  rw [Platform.pgTdeToastTupleExternalize, Platform.pgTdeCrypt_eq (by omega) (by omega)]
  rfl

theorem fetched_stored {k : Keystream} {i : Nat} (hi : i < s.length) :
    (s.stored k).fetched k i = s.data.get ⟨s.offset + i, by have := s.le; omega⟩ ^^^
      (k (s.offset + i) ^^^ k i) := by
  have hl := s.le
  have hx : s.offset + i < s.data.length := by omega
  simp [fetched, stored, hx, UInt8.xor_assoc]

theorem fetched_eq_slice_iff {k : Keystream} :
    (List.range s.length).map ((s.stored k).fetched k) = (s.data.drop s.offset).take s.length ↔
    ∀ i < s.length, k (s.offset + i) = k i := by
  have hl := s.le
  rw [List.ext_getElem_iff]
  constructor
  case mp =>
    rintro ⟨_, h⟩ i hi
    have h := h i (by simpa using hi) (by simp; omega)
    simp only [List.getElem_map, List.getElem_range, List.getElem_take, List.getElem_drop,
      fetched_stored hi, List.get_eq_getElem, Keystream.mask_eq_self_iff,
      UInt8.xor_eq_zero_iff] at h
    exact h
  case mpr =>
    intro h
    refine ⟨by simp; omega, fun i hi _ => ?_⟩
    simp only [List.length_map, List.length_range] at hi
    simp only [List.getElem_map, List.getElem_range, List.getElem_take, List.getElem_drop,
      fetched_stored hi, List.get_eq_getElem, Keystream.mask_eq_self_iff,
      UInt8.xor_eq_zero_iff]
    exact h i hi

theorem fetch_stored_eq {valueid : Nat} {relname : String} :
    P.pgTdeFetchToastSlice (toastSaveDatum short (s.stored (P.keystream key)).data) key
      ⟨valueid, relname, s.data.length⟩ s.offset s.length false result =
    .ok (result.write 0 ((List.range s.length).map
      ((s.stored (P.keystream key)).fetched (P.keystream key)))) :=
  pgTdeFetchToastSlice_eq (s := s.stored (P.keystream key)) (by simp [stored])

theorem read_fetched {f : Nat → UInt8} {n : Nat} :
    (result.write 0 ((List.range n).map f)).read 0 n = (List.range n).map f := by
  have h := @Memory.read_write result 0 ((List.range n).map f)
  rwa [List.length_map, List.length_range] at h

-- A slice is fetched correctly exactly if the keystream at the slice's place in the value is the same as
-- at the value's start. In particular, this is the case for slices from the start of the value.
theorem fetch_eq_slice_iff (s : ToastSlice) (P : Platform) (key : Block) (short : List UInt8 → Bool)
    (valueid : Nat) (relname : String) (result : Memory) :
    (∃ stored r, P.pgTdeToastTupleExternalize key s.data = .ok stored ∧
      P.pgTdeFetchToastSlice (toastSaveDatum short stored) key ⟨valueid, relname, s.data.length⟩
        s.offset s.length false result = .ok r ∧
      r.read 0 s.length = (s.data.drop s.offset).take s.length) ↔
    ∀ i < s.length, P.keystream key (s.offset + i) = P.keystream key i := by
  rw [←fetched_eq_slice_iff]
  constructor
  case mp =>
    rintro ⟨stored, r, he, hf, hr⟩
    rw [externalize_eq, Except.ok.injEq] at he
    rw [←he, fetch_stored_eq, Except.ok.injEq] at hf
    rwa [←hf, read_fetched] at hr
  case mpr =>
    intro h
    exact ⟨_, _, externalize_eq, fetch_stored_eq, read_fetched.trans h⟩

end ToastSlice

-- AES-128 of the counter block 0 under the all-zero key.
def toastPlatform : Platform := .x86 [
  (0, [0x66, 0xE9, 0x4B, 0xD4, 0xEF, 0x8A, 0x2C, 0x3B, 0x88, 0x4C, 0xFA, 0x59, 0xCA, 0x34, 0x2B, 0x2E])]

-- The second byte of a value of 2000 bytes.
def secondByte : ToastSlice where
  data    := List.replicate 2000 0x61
  offset  := 1
  length  := 1
  size_lt := by rw [List.length_replicate]; decide
  pos     := by decide
  le      := by rw [List.length_replicate]; decide

theorem fetch_not_eq_secondByte :
    ¬∃ stored r, toastPlatform.pgTdeToastTupleExternalize (fun _ => 0) secondByte.data = .ok stored ∧
      toastPlatform.pgTdeFetchToastSlice (toastSaveDatum (fun _ => false) stored) (fun _ => 0)
        ⟨16385, "pg_toast_16384", secondByte.data.length⟩ secondByte.offset secondByte.length false
        Memory.zero = .ok r ∧
      r.read 0 secondByte.length = (secondByte.data.drop secondByte.offset).take secondByte.length := by
  rintro ⟨stored, r, he, hf, hr⟩
  rw [ToastSlice.externalize_eq, Except.ok.injEq] at he
  rw [←he, ToastSlice.fetch_stored_eq, Except.ok.injEq] at hf
  rw [←hf, ToastSlice.read_fetched, ToastSlice.fetched_eq_slice_iff] at hr
  exact absurd (hr 0 (by decide)) (by decide)
