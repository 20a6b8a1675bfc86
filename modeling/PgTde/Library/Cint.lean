import Mathlib.Algebra.Order.Ring.Int

-- The integer conversions of C on a platform with 32-bit `int`, as operations on the values.
namespace Cint

variable {n : Int}

def uint16 (n : Int) : Nat :=
  (n % 2 ^ 16).toNat

def uint32 (n : Int) : Nat :=
  (n % 2 ^ 32).toNat

def uint64 (n : Int) : Nat :=
  (n % 2 ^ 64).toNat

-- The conversion to `int` keeps the low 32 bits, as every compiler PostgreSQL supports does.
def int32 (n : Int) : Int :=
  n.bmod (2 ^ 32)

theorem uint32_of_lt (h₀ : 0 ≤ n) (h : n < 2 ^ 32) : uint32 n = n.toNat := by
  simp only [uint32]
  omega

theorem uint64_of_lt (h₀ : 0 ≤ n) (h : n < 2 ^ 64) : uint64 n = n.toNat := by
  simp only [uint64]
  omega

theorem int32_of_lt (h₀ : 0 ≤ n) (h : n < 2 ^ 31) : int32 n = n := by
  simp only [int32, Int.bmod]
  split <;> omega

end Cint
