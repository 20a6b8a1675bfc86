import Mathlib.Data.List.Nodup
import Mathlib.Data.List.Perm.Subperm
import Mathlib.Algebra.Order.Ring.Int

-- Ranges of addresses, each given by its start and its length.
structure Extent where
  start : Nat
  len   : Nat

namespace Extent

def Disjoint (a b : Extent) : Prop :=
  a.start + a.len ≤ b.start ∨ b.start + b.len ≤ a.start

instance : DecidableRel Disjoint :=
  fun _ _ => inferInstanceAs <| Decidable (_ ∨ _)

variable {a b : Extent} {as : List Extent} {lo hi : Nat}

theorem Disjoint.symm (h : a.Disjoint b) : b.Disjoint a :=
  Or.symm h

def addresses (a : Extent) : List Nat :=
  List.range' a.start a.len

theorem mem_addresses {x : Nat} : x ∈ a.addresses ↔ a.start ≤ x ∧ x < a.start + a.len := by
  simp [addresses]

theorem Disjoint.addresses (h : a.Disjoint b) : List.Disjoint a.addresses b.addresses := by
  intro x ha hb
  rw [mem_addresses] at ha hb
  cases h <;> omega

-- Disjoint extents need the space that they need one after the other.
theorem sum_len_le (hd : as.Pairwise Disjoint) (hr : ∀ a ∈ as, lo ≤ a.start ∧ a.start + a.len ≤ hi) :
    (as.map len).sum ≤ hi - lo := by
  have hn : (as.flatMap Extent.addresses).Nodup :=
    List.nodup_flatMap.mpr ⟨fun _ _ => List.nodup_range', hd.imp Disjoint.addresses⟩
  have hs : as.flatMap Extent.addresses ⊆ List.range' lo (hi - lo) := by
    intro x hx
    obtain ⟨a, ha, hx⟩ := List.mem_flatMap.mp hx
    rw [mem_addresses] at hx
    have := hr a ha
    rw [List.mem_range'_1]
    omega
  have hl := (List.subperm_of_subset hn hs).length_le
  simpa [List.length_flatMap, Extent.addresses] using hl

-- The extents fill the space up to `hi`, each one right below its predecessor.
def Tiles (lo : Nat) : Nat → List Extent → Prop
  | hi, []      => hi = lo
  | hi, a :: as => a.start + a.len = hi ∧ Tiles lo a.start as

theorem Tiles.sum_len (h : Tiles lo hi as) : lo + (as.map len).sum = hi := by
  induction as generalizing hi
  case nil          => exact h.symm
  case cons a as ih =>
    have := ih h.2
    simp only [List.map_cons, List.sum_cons, ←h.1]
    omega

theorem Tiles.le_of_mem (h : Tiles lo hi as) (ha : a ∈ as) : lo ≤ a.start ∧ a.start + a.len ≤ hi := by
  induction as generalizing hi
  case nil          => simp at ha
  case cons b as ih =>
    have hb := h.2.sum_len
    have he := h.1
    cases List.mem_cons.mp ha
    case inl ha => subst ha; omega
    case inr ha => have := ih h.2 ha; omega

theorem Tiles.disjoint (h : Tiles lo hi as) : as.Pairwise Disjoint := by
  induction as generalizing hi
  case nil          => exact .nil
  case cons a as ih => exact .cons (fun b hb => .inr (h.2.le_of_mem hb).2) (ih h.2)

end Extent
