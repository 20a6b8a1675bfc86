import Mathlib.Data.Nat.Bitwise
import PgTde.Library.Flags
import PgTde.Page.Header

variable {tup l r ctid : List UInt8} {m₁ m₂ : UInt16}

-- The two infomasks of a header that is put together from its fields.
theorem tInfomask2_append (hl : l.length = 18) :
    tInfomask2 (l ++ toLittleEndian 2 m₂.toNat ++ toLittleEndian 2 m₁.toNat ++ r) = m₂ := by
  rw [tInfomask2, unsignedAt_of_append (l := l) (n := m₂.toNat) (r := toLittleEndian 2 m₁.toNat ++ r)
    (by simp only [List.append_assoc]) hl m₂.toNat_lt, UInt16.ofNat_toNat]

theorem tInfomask_append (hl : l.length = 18) :
    tInfomask (l ++ toLittleEndian 2 m₂.toNat ++ toLittleEndian 2 m₁.toNat ++ r) = m₁ := by
  rw [tInfomask, unsignedAt_of_append (l := l ++ toLittleEndian 2 m₂.toNat) (n := m₁.toNat) (r := r)
    (by simp only [List.append_assoc]) (by simp [hl]) m₁.toNat_lt, UInt16.ofNat_toNat]

theorem drop_append (hl : l.length = 18) :
    (l ++ toLittleEndian 2 m₂.toNat ++ toLittleEndian 2 m₁.toNat ++ r).drop 22 = r :=
  List.drop_left' (by simp [hl])

theorem hasexternal_iff {n : Nat} (hn : n < 2 ^ 16) :
    UInt16.ofNat n &&& heapHasexternal ≠ 0 ↔ n / 4 % 2 = 1 := by
  have he : heapHasexternal.toNat = 2 ^ 2 := rfl
  rw [Ne, ←UInt16.toNat_inj, UInt16.toNat_and, UInt16.toNat_ofNat_of_lt' hn, he, Nat.and_two_pow,
    Nat.testBit_eq_decide_div_mod_eq]
  by_cases h : n / 2 ^ 2 % 2 = 1 <;> simp at h ⊢

theorem heapTupleHasExternal_iff : heapTupleHasExternal tup ↔ tInfomask tup &&& heapHasexternal ≠ 0 := by
  have hb : (tup[20]?.getD 0).toNat = unsignedAt 2 tup 20 % 256 ∧ unsignedAt 2 tup 20 < 2 ^ 16 := by
    rw [unsignedAt, ←List.head?_drop]
    rcases tup.drop 20 with _ | ⟨b, _ | ⟨c, bs⟩⟩
    · simp [ofLittleEndian]
    · have hb := b.toNat_lt
      simp only [List.head?_cons, Option.getD_some, List.take_succ_cons, List.take_nil, ofLittleEndian]
      omega
    · have hb := b.toNat_lt
      have hc := c.toNat_lt
      simp only [List.head?_cons, Option.getD_some, List.take_succ_cons, List.take_zero, ofLittleEndian]
      omega
  rw [tInfomask, hasexternal_iff hb.2, heapTupleHasExternal, decide_eq_true_iff, hb.1]
  omega

section Store

variable {change : XmaxChange} {cid : UInt32} {iscombo : Bool}

-- The flags about nulls and external values.
theorem infomask_storeXmax {m h : UInt16} (hx : heapXmaxBits &&& h = 0)
    (hm : ~~~(heapXmaxBits ||| heapMoved) &&& h = h) (hc₀ : heapCombocid &&& h = 0)
    (hc₁ : ~~~heapCombocid &&& h = h) :
    (if iscombo then (m &&& ~~~(heapXmaxBits ||| heapMoved) ||| change.infomask) ||| heapCombocid
      else (m &&& ~~~(heapXmaxBits ||| heapMoved) ||| change.infomask) &&& ~~~heapCombocid) &&& h = m &&& h := by
  have hch := UInt16.and_eq_zero_of_subset change.infomask_bits hx
  cases iscombo
  case true  => rw [if_pos rfl, UInt16.keep_or hc₀, UInt16.keep_or hch, UInt16.keep_and hm]
  case false => rw [if_neg (by decide), UInt16.keep_and hc₁, UInt16.keep_or hch, UInt16.keep_and hm]

-- What is stored in the header of a tuple has nothing to do with its attributes.
structure KeepsAttributes (tup tup' : List UInt8) : Prop where
  nulls    : tInfomask tup' &&& heapHasnull = tInfomask tup &&& heapHasnull
  natts    : tInfomask2 tup' &&& heapNattsMask = tInfomask2 tup &&& heapNattsMask
  data     : tup'.drop 22 = tup.drop 22
  external : heapTupleHasExternal tup' = heapTupleHasExternal tup

theorem keepsAttributes_append (hl : l.length = 18)
    (h₁ : ∀ h, h = heapHasnull ∨ h = heapHasexternal → m₁ &&& h = tInfomask tup &&& h)
    (h₂ : m₂ &&& heapNattsMask = tInfomask2 tup &&& heapNattsMask) :
    KeepsAttributes tup (l ++ toLittleEndian 2 m₂.toNat ++ toLittleEndian 2 m₁.toNat ++ tup.drop 22) where
  nulls    := by rw [tInfomask_append hl, h₁ _ (.inl rfl)]
  natts    := by rw [tInfomask2_append hl, h₂]
  data     := drop_append hl
  external := by
    rw [Bool.eq_iff_iff, heapTupleHasExternal_iff, heapTupleHasExternal_iff, tInfomask_append hl, h₁ _ (.inr rfl)]

theorem storeXmax_keeps (change : XmaxChange) (cid : UInt32) (iscombo : Bool) (ht : 22 ≤ tup.length)
    (hc : ctid.length = 6) :
    KeepsAttributes tup (storeXmax change cid iscombo ctid tup) := by
  apply keepsAttributes_append
  case hl => simp [hc]; omega
  case h₁ =>
    rintro h (rfl | rfl)
    · exact infomask_storeXmax (by decide) (by decide) (by decide) (by decide)
    · exact infomask_storeXmax (by decide) (by decide) (by decide) (by decide)
  case h₂ =>
    have hm : heapKeysUpdated &&& heapNattsMask = 0 := by decide
    have hch := UInt16.and_eq_zero_of_subset change.infomask2_bits hm
    rw [UInt16.keep_and (by decide), UInt16.keep_or hch, UInt16.keep_and (by decide)]

theorem storeKilled_keeps (ht : 22 ≤ tup.length) (hc : ctid.length = 6) :
    KeepsAttributes tup (storeKilled ctid tup) := by
  apply keepsAttributes_append
  case hl => simp [hc]; omega
  case h₁ =>
    rintro h (rfl | rfl)
    · exact UInt16.keep_and (by decide)
    · exact UInt16.keep_and (by decide)
  case h₂ => exact UInt16.keep_and (by decide)

end Store
