import PgTde.Library.Keystream
import PgTde.Toast.Insert

namespace Varlena

variable {value value' : Memory}

theorem varhdrsz_pos : 0 < varhdrsz value := by
  rw [varhdrsz]
  split
  case isTrue  => decide
  case isFalse => split <;> decide

theorem isExternal_of_isCompressed (h : isCompressed value = true) : isExternal value = false := by
  rw [isCompressed, decide_eq_true_eq] at h
  rw [isExternal, decide_eq_false_iff_not]
  intro he
  rw [he] at h
  exact absurd h (by decide)

-- The macros only look at the value, most of them at its first byte.
section

variable (h : value' 0 = value 0)

include h

theorem isExternal_congr : isExternal value' = isExternal value := by
  rw [isExternal, isExternal, h]

theorem isShort_congr : isShort value' = isShort value := by
  rw [isShort, isShort, h]

theorem isCompressed_congr : isCompressed value' = isCompressed value := by
  rw [isCompressed, isCompressed, h]

theorem varhdrsz_congr : varhdrsz value' = varhdrsz value := by
  rw [varhdrsz, varhdrsz, isShort_congr h, isCompressed_congr h]

theorem varsizeShort_congr : varsizeShort value' = varsizeShort value := by
  rw [varsizeShort, varsizeShort, h]

end

section

variable (hw : WellFormed value) (hv : ∀ i < varsizeAny value, value' i = value i)

include hw hv

theorem first_congr : value' 0 = value 0 :=
  hv 0 <| Nat.lt_of_lt_of_le varhdrsz_pos hw

theorem varsize_congr (hs : isShort value = false) : varsize value' = varsize value := by
  have hl : 4 ≤ varsizeAny value := by
    refine Nat.le_trans ?_ hw
    rw [varhdrsz, hs, if_neg Bool.false_ne_true]
    split <;> decide
  have hr : value'.read 0 4 = value.read 0 4 := by
    apply Memory.read_congr
    intro i hi
    rw [Nat.zero_add]
    exact hv i (by omega)
  rw [varsize, varsize, hr]

theorem varsizeAny_congr : varsizeAny value' = varsizeAny value := by
  have h₀ := first_congr hw hv
  by_cases he : isExternal value = true
  case pos =>
    have h₁ : value' 1 = value 1 := by
      apply hv
      rw [varsizeAny, if_pos he]
      split <;> decide
    rw [varsizeAny, varsizeAny, isExternal_congr h₀, if_pos he, if_pos he, h₁]
  case neg =>
    rw [varsizeAny, varsizeAny, isExternal_congr h₀, if_neg he, if_neg he, isShort_congr h₀]
    by_cases hs : isShort value = true
    case pos => rw [if_pos hs, if_pos hs, varsizeShort_congr h₀]
    case neg => rw [if_neg hs, if_neg hs, varsize_congr hw hv (by simpa using hs)]

end

-- The size of the data, as the code computes it for a value that is not external.
theorem dataSize_eq (hw : WellFormed value) (he : isExternal value = false) :
    ((if isShort value then varsizeShort value else varsize value : Nat) - varhdrsz value : Int) =
    (varsizeAny value - varhdrsz value : Nat) := by
  have hs : (if isShort value then varsizeShort value else varsize value) = varsizeAny value := by
    rw [varsizeAny, he, if_neg Bool.false_ne_true]
  rw [hs, Int.ofNat_sub hw]

theorem varsizeAny_lt : varsizeAny value < 2 ^ 30 := by
  rw [varsizeAny]
  split
  case isTrue  => split <;> decide
  case isFalse =>
    split
    case isTrue  =>
      have := UInt8.toNat_lt (value 0)
      rw [varsizeShort]
      omega
    case isFalse =>
      have := UInt8.toNat_lt (value 0)
      have := UInt8.toNat_lt (value 1)
      have := UInt8.toNat_lt (value 2)
      have := UInt8.toNat_lt (value 3)
      simp only [varsize, Memory.read, List.range, List.range.loop, List.map, ofLittleEndian, Nat.zero_add]
      omega

end Varlena

namespace ToastDatum

variable {newtup newtup' : Memory} {datum datum' : ToastDatum}

@[simp]
theorem length_bytes : (datum.bytes newtup).length = Varlena.varsizeAny (datum.memory newtup) := by
  rw [bytes, Memory.length_read]

theorem Apart.symm (h : datum.Apart newtup datum') : datum'.Apart newtup datum := by
  cases datum <;> cases datum'
  case inTuple.inTuple => exact Extent.Disjoint.symm h
  all_goals trivial

theorem apart_copy {bytes : List UInt8} : datum.Apart newtup (copy bytes) := by
  cases datum <;> trivial

theorem copy_apart {bytes : List UInt8} : (copy bytes).Apart newtup datum :=
  apart_copy.symm

-- What encrypting a saved value changes in the tuple.
def encryption (k : Keystream) (newtup : Memory) : ToastDatum → Nat → UInt8
  | inTuple off => fun x =>
    let value := (inTuple off).memory newtup
    if off + Varlena.varhdrsz value ≤ x ∧ x < off + Varlena.varsizeAny value
    then k (x - (off + Varlena.varhdrsz value))
    else 0
  | copy _      => fun _ => 0

variable {k : Keystream}

-- The byte at position `x` of the data is encrypted with the keystream at that position.
theorem encryption_data {off x : Nat} (hx : x + Varlena.varhdrsz ((inTuple off).memory newtup) <
      Varlena.varsizeAny ((inTuple off).memory newtup)) :
    (inTuple off).encryption k newtup (off + Varlena.varhdrsz ((inTuple off).memory newtup) + x) = k x := by
  simp only [encryption]
  rw [if_pos (by omega), Nat.add_sub_cancel_left]

theorem encryption_eq_zero {off : Nat} (h : ∀ x, x + Varlena.varhdrsz ((inTuple off).memory newtup) <
      Varlena.varsizeAny ((inTuple off).memory newtup) → k x = 0) (x : Nat) :
    (inTuple off).encryption k newtup x = 0 := by
  simp only [encryption]
  split
  case isTrue  => exact h _ (by omega)
  case isFalse => rfl

-- The data of another value is not affected.
theorem encryption_of_apart {off x : Nat} (h : (inTuple off).Apart newtup datum) (hx : off ≤ x)
    (hl : x < off + ((inTuple off).bytes newtup).length) : datum.encryption k newtup x = 0 := by
  cases datum
  case copy         => rfl
  case inTuple off' =>
    simp only [Apart, Extent.Disjoint, length_bytes] at h hl
    exact if_neg (by omega)

theorem encryption_apart (h : datum.Apart newtup datum') (x : Nat) :
    datum.encryption k newtup x = 0 ∨ datum'.encryption k newtup x = 0 := by
  cases datum
  case copy        => exact .inl rfl
  case inTuple off =>
    by_cases hx : off ≤ x ∧ x < off + ((inTuple off).bytes newtup).length
    case pos => exact .inr <| encryption_of_apart h hx.left hx.right
    case neg =>
      rw [length_bytes] at hx
      exact .inl <| if_neg (by omega)

-- Encrypting the data of a value in the tuple.
theorem write_encryption {off : Nat} {value : Memory} (hw : Varlena.WellFormed value)
    (hv : (inTuple off).memory newtup = value) :
    newtup.write (off + Varlena.varhdrsz value)
      (k.xor 0 (value.read (Varlena.varhdrsz value) (Varlena.varsizeAny value - Varlena.varhdrsz value))) =
    newtup.mask ((inTuple off).encryption k newtup) := by
  rw [Varlena.WellFormed] at hw
  apply Memory.write_eq_mask
  case h  =>
    intro i hi
    rw [Keystream.length_xor, Memory.length_read] at hi
    have he : (inTuple off).encryption k newtup (off + Varlena.varhdrsz value + i) = k i := by
      simp only [encryption, hv]
      rw [if_pos (by omega), Nat.add_sub_cancel_left]
    have hm : value (Varlena.varhdrsz value + i) = newtup (off + Varlena.varhdrsz value + i) := by
      rw [Nat.add_assoc]
      exact congrFun hv.symm _
    rw [he, Keystream.getElem_xor, List.get_eq_getElem, Memory.getElem_read, Nat.zero_add, hm]
  case hf =>
    intro x hx
    rw [Keystream.length_xor, Memory.length_read] at hx
    simp only [encryption, hv]
    exact if_neg (by omega)

-- A value whose bytes are the same in another version of the tuple.
section

variable (hw : datum.WellFormed newtup)
  (hv : ∀ i < (datum.bytes newtup).length, datum.memory newtup' i = datum.memory newtup i)

include hw hv

theorem varsizeAny_congr :
    Varlena.varsizeAny (datum.memory newtup') = Varlena.varsizeAny (datum.memory newtup) :=
  Varlena.varsizeAny_congr hw.left (by simpa using hv)

theorem bytes_congr : datum.bytes newtup' = datum.bytes newtup := by
  rw [bytes, bytes, varsizeAny_congr hw hv]
  apply Memory.read_congr
  intro i hi
  rw [Nat.zero_add]
  exact hv i (by simpa using hi)

theorem first_congr : datum.memory newtup' 0 = datum.memory newtup 0 :=
  Varlena.first_congr hw.left (by simpa using hv)

theorem isExternal_congr :
    Varlena.isExternal (datum.memory newtup') = Varlena.isExternal (datum.memory newtup) :=
  Varlena.isExternal_congr (first_congr hw hv)

theorem encryption_congr : datum.encryption k newtup' = datum.encryption k newtup := by
  cases datum
  case copy    => rfl
  case inTuple =>
    funext x
    simp only [encryption, varsizeAny_congr hw hv, Varlena.varhdrsz_congr (first_congr hw hv)]

theorem wellFormed_congr : datum.WellFormed newtup' := by
  constructor
  case left  =>
    rw [Varlena.WellFormed, varsizeAny_congr hw hv, Varlena.varhdrsz_congr (first_congr hw hv)]
    exact hw.left
  case right =>
    cases datum
    case inTuple => trivial
    case copy    => exact hw.right

end

end ToastDatum
