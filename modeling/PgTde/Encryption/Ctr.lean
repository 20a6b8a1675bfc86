import PgTde.Encryption.Tuple
import PgTde.Library.Extent

-- A block that ends in a counter of 64 bits, in big-endian order.
def ctrBlock (n : Nat) : Block :=
  fun t => if t.val < 8 then 0 else .ofNat (n / 256 ^ (15 - t.val))

namespace Platform

variable (P : Platform)

-- Byte `p` of the keystream of AES-128 in counter mode, with a nonce of zeros.
def ctr (key : Block) (p : Nat) : UInt8 :=
  P.aes128 key (ctrBlock (p / aesBlockSize)) (Fin.ofNat 16 p)

-- `pg_tde_crypt` is this mode of operation.
def CryptsInCtrMode (startOffset : Nat) (data : List UInt8) (key : Block) : Prop :=
  ∃ out, P.pgTdeCrypt startOffset data key = .ok out ∧ out.length = data.length ∧
    ∀ (i : Nat) b, data[i]? = some b → out[i]? = some (b ^^^ P.ctr key (startOffset + i))

-- The AES function maps a block with its counter in 64 bits to what it makes of the block that the code
-- puts together, as far as the data goes.
def CounterMatches (startOffset len : Nat) (key : Block) : Prop :=
  ∀ i < len, P.aes128 key (P.counterBlock ((startOffset + i) / aesBlockSize)) (Fin.ofNat 16 (startOffset + i)) =
    P.aes128 key (ctrBlock ((startOffset + i) / aesBlockSize)) (Fin.ofNat 16 (startOffset + i))

end Platform

-- Some encrypted data in memory, by its address and where it starts in the stream.
structure StreamData where
  startOffset : Nat
  data        : Nat

-- `len` bytes were moved within a memory: all others are as before, and every part of the data decrypts to
-- what it decrypted to before.
structure Platform.Moved (P : Platform) (key : Block) (len : Nat) (src dst : StreamData) (mem mem' : Memory) : Prop where
  frame     : ∀ x, x < dst.data ∨ dst.data + len ≤ x → mem' x = mem x
  plaintext : ∀ d n, d + n ≤ len → n ≤ 2 ^ 30 → ∃ plain,
    P.pgTdeCrypt (src.startOffset + d) (mem.read (src.data + d) n) key = .ok plain ∧
    P.pgTdeCrypt (dst.startOffset + d) (mem'.read (dst.data + d) n) key = .ok plain

namespace StreamData

-- Two places of data of some length are the same one, or they do not overlap.
def SameOrDisjoint (len : Nat) (src dst : StreamData) : Prop :=
  src.data = dst.data ∨ Extent.Disjoint ⟨src.data, len⟩ ⟨dst.data, len⟩

variable (P : Platform) (key : Block) (len : Nat) (mem : Memory) (src dst : StreamData)

def move : Outcome Memory :=
  P.pgTdeMoveEncryptedData mem src.startOffset src.data dst.startOffset dst.data len key

end StreamData
