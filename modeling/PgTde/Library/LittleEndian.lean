import Mathlib.Algebra.Order.Ring.Int

-- The bytes of a number, the least significant one first.
def toLittleEndian : Nat → Nat → List UInt8
  | 0, _            => []
  | width + 1, n => .ofNat n :: toLittleEndian width (n / 256)

def ofLittleEndian : List UInt8 → Nat
  | []      => 0
  | b :: bs => b.toNat + 256 * ofLittleEndian bs

@[simp]
theorem length_toLittleEndian {width n : Nat} : (toLittleEndian width n).length = width := by
  induction width generalizing n
  case zero    => rfl
  case succ hi => rw [toLittleEndian, List.length_cons, hi]

theorem ofLittleEndian_toLittleEndian {width n : Nat} (h : n < 256 ^ width) :
    ofLittleEndian (toLittleEndian width n) = n := by
  induction width generalizing n
  case zero          => simpa [toLittleEndian, ofLittleEndian, eq_comm] using h
  case succ width hi =>
    have hd : n / 256 < 256 ^ width := by
      rw [pow_succ] at h
      omega
    rw [toLittleEndian, ofLittleEndian, hi hd, UInt8.toNat_ofNat']
    omega

theorem ofLittleEndian_lt {bytes : List UInt8} : ofLittleEndian bytes < 256 ^ bytes.length := by
  induction bytes
  case nil          => exact Nat.one_pos
  case cons b bs hi =>
    have hb := b.toNat_lt
    rw [ofLittleEndian, List.length_cons, pow_succ]
    omega

def unsignedAt (width : Nat) (bytes : List UInt8) (a : Nat) : Nat :=
  ofLittleEndian ((bytes.drop a).take width)

theorem unsignedAt_lt {width a : Nat} {bytes : List UInt8} : unsignedAt width bytes a < 256 ^ width :=
  ofLittleEndian_lt.trans_le (Nat.pow_le_pow_right (by decide) (List.length_take_le _ _))

theorem unsignedAt_of_append {bytes l r : List UInt8} {a n width : Nat}
    (h : bytes = l ++ (toLittleEndian width n ++ r)) (hl : l.length = a)
    (hn : n < 256 ^ width) : unsignedAt width bytes a = n := by
  subst hl
  rw [unsignedAt, h, List.drop_left, List.take_left' length_toLittleEndian,
    ofLittleEndian_toLittleEndian hn]
