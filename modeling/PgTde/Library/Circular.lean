import PgTde.Library.Cint

-- Numbers modulo 2^32 that are compared by their difference. Those of the half circle that starts at `base` are in
-- the order of their distance from it.

namespace Circular

open Cint

variable {base a b : Nat}

def ahead (base n : Nat) : Nat :=
  (((n : Int) - base) % 2 ^ 32).toNat

def InHalf (base n : Nat) : Prop :=
  ahead base n < 2 ^ 31

theorem sub_neg_iff (ha : InHalf base a) (hb : InHalf base b) :
    int32 (a - b) < 0 ↔ ahead base a < ahead base b := by
  rw [InHalf, ahead] at ha hb
  rw [int32, Int.bmod_def, ahead, ahead]
  split <;> omega

end Circular

-- The least element so far. The key tells the order of those elements that have the property.
namespace Ratchet

variable {α : Type} {precedes : α → α → Bool} {key : α → Nat} {P : α → Prop} {a oldest : α} {as : List α}

def ratchet (precedes : α → α → Bool) (oldest a : α) : α :=
  if precedes a oldest then a else oldest

structure Below (key : α → Nat) (P : α → Prop) (a oldest : α) : Prop where
  within : P a
  le     : key a ≤ key oldest

theorem Below.trans {b c : α} (h : Below key P a b) (h' : Below key P b c) : Below key P a c where
  within := h.within
  le     := h.le.trans h'.le

section Order

variable (h : ∀ a b, P a → P b → (precedes a b ↔ key a < key b))

include h

theorem below_ratchet (ha : P a) (ho : P oldest) :
    Below key P (ratchet precedes oldest a) oldest ∧ key (ratchet precedes oldest a) ≤ key a := by
  have hlt := h a oldest ha ho
  rw [ratchet]
  split
  case isTrue hp  => exact ⟨⟨ha, (hlt.mp hp).le⟩, le_rfl⟩
  case isFalse hp => exact ⟨⟨ho, le_rfl⟩, not_lt.mp (mt hlt.mpr hp)⟩

theorem below_foldl (has : ∀ a ∈ as, P a) (ho : P oldest) :
    Below key P (as.foldl (ratchet precedes) oldest) oldest ∧
      ∀ a ∈ as, key (as.foldl (ratchet precedes) oldest) ≤ key a := by
  induction as generalizing oldest
  case nil            => exact ⟨⟨ho, le_rfl⟩, List.forall_mem_nil _⟩
  case cons a as hi   =>
    obtain ⟨ha, has⟩ := List.forall_mem_cons.mp has
    obtain ⟨hr, hle⟩ := below_ratchet h ha ho
    obtain ⟨hb, hall⟩ := hi has hr.within
    refine ⟨⟨hb.within, hb.le.trans hr.le⟩, ?_⟩
    exact List.forall_mem_cons.mpr ⟨hb.le.trans hle, hall⟩

end Order

end Ratchet
