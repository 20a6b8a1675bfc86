import Mathlib.Algebra.Order.Ring.Int

-- A byte memory is the contents of one object (a page, a local array), addressed from its start.
-- Addresses past the object's end stand for whatever lies behind it.
abbrev Memory := Nat → UInt8

namespace Memory

variable {m m₁ m₂ : Memory} {a b n x : Nat} {bs : List UInt8} {f g : Nat → UInt8}

def zero : Memory :=
  fun _ => 0

def read (m : Memory) (a n : Nat) : List UInt8 :=
  (List.range n).map fun i => m (a + i)

def write (m : Memory) (a : Nat) (bs : List UInt8) : Memory :=
  fun x => if a ≤ x then bs[x - a]?.getD (m x) else m x

-- This models both `memcpy` and `memmove`: all `n` bytes are read before any of them is written.
def copy (m : Memory) (a : Nat) (src : Memory) (b n : Nat) : Memory :=
  m.write a (src.read b n)

def mask (m : Memory) (f : Nat → UInt8) : Memory :=
  fun x => m x ^^^ f x

@[simp]
theorem length_read : (m.read a n).length = n := by
  simp [read]

@[simp]
theorem getElem_read {i : Nat} (h : i < (m.read a n).length) : (m.read a n)[i] = m (a + i) := by
  simp [read]

@[simp]
theorem read_zero : m.read a 0 = [] :=
  rfl

theorem getElem?_read {i : Nat} (h : i < n) : (m.read a n)[i]? = some (m (a + i)) := by
  simp [read, h]

theorem read_congr (h : ∀ i < n, m₁ (a + i) = m₂ (b + i)) : m₁.read a n = m₂.read b n := by
  apply List.map_congr_left
  intro i hi
  exact h i (List.mem_range.mp hi)

theorem read_eq_iff : m₁.read a n = m₂.read b n ↔ ∀ i < n, m₁ (a + i) = m₂ (b + i) where
  mpr     := read_congr
  mp h i hi := by
    have h := congrArg (·[i]?) h
    simpa [getElem?_read hi] using h

theorem read_add (k : Nat) : m.read a (n + k) = m.read a n ++ m.read (a + n) k := by
  simp [read, List.range_add, Function.comp_def, Nat.add_assoc]

theorem drop_read (k : Nat) : (m.read a n).drop k = m.read (a + k) (n - k) := by
  apply List.ext_getElem (by simp)
  intro i _ _
  simp [Nat.add_assoc]

theorem write_of_lt (h : x < a) : m.write a bs x = m x := by
  simp [write, Nat.not_le.mpr h]

theorem write_of_ge (h : a + bs.length ≤ x) : m.write a bs x = m x := by
  have : bs[x - a]? = none := List.getElem?_eq_none (by omega)
  simp [write, this]

theorem write_add {i : Nat} (h : i < bs.length) : m.write a bs (a + i) = bs[i] := by
  simp [write, h]

@[simp]
theorem write_nil : m.write a [] = m := by
  ext x
  simp [write]

theorem read_write : (m.write a bs).read a bs.length = bs := by
  apply List.ext_getElem (by simp)
  intro i _ hi
  simp [write_add hi]

-- Writing what is already there.
theorem write_of_read_eq (h : m.read a bs.length = bs) : m.write a bs = m := by
  funext x
  by_cases hx : x < a ∨ a + bs.length ≤ x
  case pos =>
    cases hx
    case inl hx => exact write_of_lt hx
    case inr hx => exact write_of_ge hx
  case neg =>
    obtain ⟨i, rfl⟩ : ∃ i, x = a + i := ⟨x - a, by omega⟩
    have hi : i < bs.length := by omega
    have hb := congrArg (·[i]?) h
    simp only [getElem?_read hi, List.getElem?_eq_getElem hi, Option.some.injEq] at hb
    rw [write_add hi, hb]

theorem write_append {cs : List UInt8} :
    (m.write a bs).write (a + bs.length) cs = m.write a (bs ++ cs) := by
  funext x
  by_cases h : a + bs.length ≤ x
  case pos =>
    have ha : a ≤ x := by omega
    have hl : bs.length ≤ x - a := by omega
    have hs : x - a - bs.length = x - (a + bs.length) := by omega
    simp [write, h, ha, List.getElem?_append_right hl, List.getElem?_eq_none hl, hs]
  case neg =>
    rw [write_of_lt (by omega)]
    by_cases ha : a ≤ x
    case neg => rw [write_of_lt (by omega), write_of_lt (by omega)]
    case pos => simp [write, ha, List.getElem?_append_left (show x - a < bs.length by omega)]

theorem read_write_disjoint (h : b + n ≤ a ∨ a + bs.length ≤ b) :
    (m.write a bs).read b n = m.read b n := by
  apply read_congr
  intro i hi
  cases h
  case inl h => exact write_of_lt (by omega)
  case inr h => exact write_of_ge (by omega)

-- The bytes are written within the part that is read.
theorem read_write_within {i : Nat} (h : i + bs.length ≤ n) :
    (m.write (a + i) bs).read a n = (m.read a n).take i ++ bs ++ (m.read a n).drop (i + bs.length) := by
  have hn : n = i + (bs.length + (n - (i + bs.length))) := by omega
  have hl : (m.write (a + i) bs).read a i = m.read a i := read_write_disjoint (.inl (Nat.le_refl _))
  have hr : (m.write (a + i) bs).read (a + i + bs.length) (n - (i + bs.length)) =
      m.read (a + (i + bs.length)) (n - (i + bs.length)) := by
    rw [read_write_disjoint (.inr (Nat.le_refl _)), Nat.add_assoc]
  have ht : (m.read a n).take i = m.read a i := by
    conv_lhs => rw [hn, read_add]
    exact List.take_left' length_read
  conv_lhs => rw [hn, read_add, read_add, hl, read_write, hr]
  rw [ht, drop_read, List.append_assoc]

theorem copy_of_lt {src : Memory} (h : x < a) : m.copy a src b n x = m x :=
  write_of_lt h

theorem copy_of_ge {src : Memory} (h : a + n ≤ x) : m.copy a src b n x = m x :=
  write_of_ge (by simpa using h)

theorem copy_add {src : Memory} {i : Nat} (h : i < n) : m.copy a src b n (a + i) = src (b + i) := by
  simp [copy, write_add, h]

-- A copy between equal addresses of two objects.
theorem copy_same {src : Memory} :
    m.copy a src a n x = if a ≤ x ∧ x < a + n then src x else m x := by
  by_cases h : a ≤ x ∧ x < a + n
  case pos =>
    obtain ⟨i, rfl⟩ : ∃ i, x = a + i := ⟨x - a, by omega⟩
    rw [copy_add (by omega), if_pos h]
  case neg =>
    rw [if_neg h]
    by_cases hx : x < a
    case pos => exact copy_of_lt hx
    case neg => exact copy_of_ge (by omega)

@[simp]
theorem copy_zero {src : Memory} : m.copy a src b 0 = m := by
  simp [copy]

@[simp]
theorem mask_apply : m.mask f x = m x ^^^ f x :=
  rfl

theorem write_eq_mask {bs : List UInt8} (h : ∀ i (hi : i < bs.length), bs[i] = m (a + i) ^^^ f (a + i))
    (hf : ∀ x, x < a ∨ a + bs.length ≤ x → f x = 0) : m.write a bs = m.mask f := by
  ext x
  by_cases hx : x < a ∨ a + bs.length ≤ x
  case pos =>
    cases hx
    case inl hl => simp [write_of_lt hl, hf x (.inl hl)]
    case inr hr => simp [write_of_ge hr, hf x (.inr hr)]
  case neg =>
    obtain ⟨i, rfl⟩ : ∃ i, x = a + i := ⟨x - a, by omega⟩
    rw [write_add (by omega), h]
    rfl

end Memory
