import PgTde.Encryption.Ctr
import PgTde.Encryption.Theorems.Tuple

namespace Platform

variable {P : Platform} {key : Block} {data : List UInt8} {start len : Nat}

end Platform

-- AES-128 under the all-zero key, of the block with counter 1 that the code puts together and of the one that
-- has the counter in 64 bits.
def secondBlockPlatform : Platform :=
  { Platform.x86 [] with
    aes128 _ block t :=
      let bytes :=
        if block.toNat = 2 ^ 32 + 1 then
          [0x86, 0x5B, 0xCF, 0x8C, 0x57, 0xE3, 0x10, 0x5D, 0x9F, 0x52, 0xFF, 0xDF, 0xD3, 0x49, 0xD3, 0x44]
        else if block.toNat = 1 then
          [0x58, 0xE2, 0xFC, 0xCE, 0xFA, 0x7E, 0x30, 0x61, 0x36, 0x7F, 0x1D, 0x57, 0xA4, 0xE7, 0x45, 0x5A]
        else
          []
      bytes.getD t.val 0 }

namespace StreamData

variable {P : Platform} {key : Block} {len : Nat} {mem : Memory} {src dst : StreamData}

theorem move_eq (hs : src.startOffset < 2 ^ 33) (hd : dst.startOffset < 2 ^ 33) (hl : len < 2 ^ 32)
    (hb : src.SameOrDisjoint len dst) :
    src.move P key len mem dst = .ok (mem.write dst.data
      ((P.keystream key).xor dst.startOffset ((P.keystream key).xor src.startOffset (mem.read src.data len)))) :=
  P.pgTdeMoveEncryptedData_eq (by omega) (by omega) hb

theorem read_write {bs : List UInt8} (hl : bs.length = len) {a : Nat} : (mem.write a bs).read a len = bs := by
  rw [←hl, Memory.read_write]

theorem moved_write (hs : src.startOffset < 2 ^ 33) (hd : dst.startOffset < 2 ^ 33) (hl : len < 2 ^ 32) :
    P.Moved key len src dst mem (mem.write dst.data
      ((P.keystream key).xor dst.startOffset ((P.keystream key).xor src.startOffset (mem.read src.data len)))) where
  frame x hx              := by
    cases hx
    case inl hx => exact Memory.write_of_lt hx
    case inr hx => exact Memory.write_of_ge (by simpa using hx)
  plaintext d n hdn hn    := by
    refine ⟨_, P.pgTdeCrypt_eq (by simp; omega) (by simpa using hn), ?_⟩
    rw [P.pgTdeCrypt_eq (by simp; omega) (by simpa using hn), Except.ok.injEq]
    apply List.ext_getElem (by simp)
    intro i hi _
    have hi : i < n := by simpa using hi
    have ha (a : Nat) : a + d + i = a + (d + i) := Nat.add_assoc a d i
    simp only [Keystream.getElem_xor, List.get_eq_getElem, Memory.getElem_read, ha]
    rw [Memory.write_add (by simp; omega)]
    simp only [Keystream.getElem_xor, List.get_eq_getElem, Memory.getElem_read]
    rw [UInt8.xor_assoc, UInt8.xor_self, UInt8.xor_zero]

-- Moving data keeps its plaintext. It may be moved in two steps, and a move to where it is changes nothing.
theorem move_moved {last : StreamData} (hl : len < 2 ^ 32) (hs : src.startOffset < 2 ^ 33)
    (hd : dst.startOffset < 2 ^ 33) (he : last.startOffset < 2 ^ 33) (hsd : src.SameOrDisjoint len dst)
    (hde : dst.SameOrDisjoint len last) (hse : src.SameOrDisjoint len last) :
    ∃ mem', src.move P key len mem dst = .ok mem' ∧ P.Moved key len src dst mem mem' ∧
      (∃ mem₁ mem₂, dst.move P key len mem' last = .ok mem₁ ∧ src.move P key len mem last = .ok mem₂ ∧
        mem₁.read last.data len = mem₂.read last.data len) ∧
      (src = dst → mem' = mem) := by
  refine ⟨_, move_eq hs hd hl hsd, moved_write hs hd hl, ?_, ?_⟩
  case refine_1 =>
    refine ⟨_, _, move_eq hd he hl hde, move_eq hs he hl hse, ?_⟩
    rw [read_write (by simp), read_write (by simp), read_write (by simp), Keystream.xor_xor]
  case refine_2 =>
    rintro rfl
    rw [Keystream.xor_xor]
    apply Memory.write_of_read_eq
    rw [Memory.length_read]

end StreamData

-- Data of one byte in the first block goes to the second one.
theorem move_moved_secondBlock :
    ∃ mem', StreamData.move secondBlockPlatform (fun _ => 0) 1 .zero ⟨0, 0⟩ ⟨16, 0⟩ = .ok mem' ∧
      secondBlockPlatform.Moved (fun _ => 0) 1 ⟨0, 0⟩ ⟨16, 0⟩ .zero mem' ∧
      (∃ mem₁ mem₂, StreamData.move secondBlockPlatform (fun _ => 0) 1 mem' ⟨16, 0⟩ ⟨0, 1⟩ = .ok mem₁ ∧
        StreamData.move secondBlockPlatform (fun _ => 0) 1 .zero ⟨0, 0⟩ ⟨0, 1⟩ = .ok mem₂ ∧
        mem₁.read 1 1 = mem₂.read 1 1) ∧
      (StreamData.mk 0 0 = ⟨16, 0⟩ → mem' = .zero) :=
  StreamData.move_moved (by decide) (by decide) (by decide) (by decide) (.inl rfl) (.inr (by decide))
    (.inr (by decide))
