import PgTde.Page.Theorems.Header
import PgTde.Visibility.Truthful

section Flags

variable {tup : List UInt8} {m f g hints : UInt16} {a width : Nat}

-- A single flag of a mask is set or not.
theorem UInt16.and_flag_eq (k : Nat) (hf : f.toBitVec = BitVec.twoPow 16 k) : m &&& f = 0 ∨ m &&& f = f := by
  have h := BitVec.and_twoPow m.toBitVec k
  rw [←hf] at h
  split at h
  case isTrue  => exact .inr (UInt16.toBitVec_inj.mp h)
  case isFalse => exact .inl (UInt16.toBitVec_inj.mp h)

theorem heapTupleHas_eq_true : heapTupleHas f tup = true ↔ tInfomask tup &&& f ≠ 0 :=
  decide_eq_true_iff

theorem heapTupleHas_eq_false : heapTupleHas f tup = false ↔ tInfomask tup &&& f = 0 := by
  rw [heapTupleHas, decide_eq_false_iff_not, not_not]

theorem heapTupleHas_or : heapTupleHas (f ||| g) tup = (heapTupleHas f tup || heapTupleHas g tup) := by
  rw [Bool.eq_iff_iff, Bool.or_eq_true, heapTupleHas_eq_true, heapTupleHas_eq_true, heapTupleHas_eq_true,
    UInt16.and_comm, UInt16.or_and_distrib_right, Ne, UInt16.or_eq_zero_iff, UInt16.and_comm f, UInt16.and_comm g]
  tauto

-- Both hints about t_xmin are set.
theorem heapTupleHeaderXminFrozen_eq :
    heapTupleHeaderXminFrozen tup = (heapTupleHas heapXminCommitted tup && heapTupleHas heapXminInvalid tup) := by
  have hf : heapXminFrozen = heapXminCommitted ||| heapXminInvalid := rfl
  have hc := @UInt16.and_flag_eq (tInfomask tup) heapXminCommitted 8 rfl
  have hi := @UInt16.and_flag_eq (tInfomask tup) heapXminInvalid 9 rfl
  rw [heapTupleHeaderXminFrozen, hf, UInt16.and_comm, UInt16.or_and_distrib_right, UInt16.and_comm _ (tInfomask tup),
    UInt16.and_comm _ (tInfomask tup), heapTupleHas, heapTupleHas]
  obtain hc | hc := hc <;> obtain hi | hi := hi <;> rw [hc, hi] <;> decide

theorem heapTupleHeaderXminInvalid_eq :
    heapTupleHeaderXminInvalid tup = (!heapTupleHas heapXminCommitted tup && heapTupleHas heapXminInvalid tup) := by
  have hf : heapXminFrozen = heapXminCommitted ||| heapXminInvalid := rfl
  have hc := @UInt16.and_flag_eq (tInfomask tup) heapXminCommitted 8 rfl
  have hi := @UInt16.and_flag_eq (tInfomask tup) heapXminInvalid 9 rfl
  rw [heapTupleHeaderXminInvalid, hf, UInt16.and_comm, UInt16.or_and_distrib_right,
    UInt16.and_comm _ (tInfomask tup), UInt16.and_comm _ (tInfomask tup), heapTupleHas, heapTupleHas]
  obtain hc | hc := hc <;> obtain hi | hi := hi <;> rw [hc, hi] <;> decide

-- A tuple that has not been moved has neither of the flags for that.
theorem heapTupleHas_movedOff (h : ¬heapTupleHas heapMoved tup) : heapTupleHas heapMovedOff tup = false := by
  have hm : heapMoved = heapMovedOff ||| heapMovedIn := rfl
  rw [hm, heapTupleHas_or, Bool.or_eq_true, not_or, Bool.not_eq_true] at h
  exact h.left

theorem heapTupleHas_movedIn (h : ¬heapTupleHas heapMoved tup) : heapTupleHas heapMovedIn tup = false := by
  have hm : heapMoved = heapMovedOff ||| heapMovedIn := rfl
  rw [hm, heapTupleHas_or, Bool.or_eq_true, not_or, Bool.not_eq_true, Bool.not_eq_true] at h
  exact h.right

end Flags

section Store

variable {tup : List UInt8} {f g hints hints' : UInt16} {a width : Nat}

@[simp]
theorem length_storeHints (h : 22 ≤ tup.length) : (storeHints hints tup).length = tup.length := by
  simp only [storeHints, List.length_append, List.length_take, length_toLittleEndian, List.length_drop]
  omega

theorem tInfomask_storeHints (h : 20 ≤ tup.length) : tInfomask (storeHints hints tup) = tInfomask tup ||| hints := by
  have hl : (tup.take 20).length = 20 := by
    rw [List.length_take]
    omega
  rw [tInfomask, storeHints, List.append_assoc, unsignedAt_of_append rfl hl (tInfomask tup ||| hints).toNat_lt,
    UInt16.ofNat_toNat]

-- Other fields in front of the infomask are kept.
theorem unsignedAt_storeHints (h : 20 ≤ tup.length) (ha : a + width ≤ 20) :
    unsignedAt width (storeHints hints tup) a = unsignedAt width tup a := by
  have hl : (tup.take 20).length = 20 := by
    rw [List.length_take]
    omega
  rw [unsignedAt, unsignedAt, storeHints, List.append_assoc, List.drop_append_of_le_length (by omega),
    List.take_append_of_le_length (by rw [List.length_drop]; omega), List.drop_take, List.take_take,
    Nat.min_eq_left (by omega)]

theorem heapTupleHas_storeHints (h : 20 ≤ tup.length) :
    heapTupleHas f (storeHints hints tup) = (heapTupleHas f tup || decide (hints &&& f ≠ 0)) := by
  rw [Bool.eq_iff_iff, Bool.or_eq_true, heapTupleHas_eq_true, heapTupleHas_eq_true, tInfomask_storeHints h,
    UInt16.or_and_distrib_right, Ne, UInt16.or_eq_zero_iff, decide_eq_true_iff]
  tauto

-- Flags that are no hints are kept.
theorem heapTupleHas_storeHints_of_subset (h : 20 ≤ tup.length) (hh : hints &&& ~~~heapHints = 0)
    (hf : heapHints &&& f = 0) : heapTupleHas f (storeHints hints tup) = heapTupleHas f tup := by
  rw [heapTupleHas_storeHints h, UInt16.and_eq_zero_of_subset hh hf]
  exact Bool.or_false _

theorem storeHints_zero (h : 22 ≤ tup.length) : storeHints 0 tup = tup := by
  have hb : toLittleEndian 2 (tInfomask tup).toNat = (tup.drop 20).take 2 := by
    obtain ⟨b, c, l, hd⟩ : ∃ b c l, tup.drop 20 = b :: c :: l := by
      rcases hd : tup.drop 20 with _ | ⟨b, _ | ⟨c, l⟩⟩
      · exact absurd (congrArg List.length hd) (by rw [List.length_drop, List.length_nil]; omega)
      · exact absurd (congrArg List.length hd) (by rw [List.length_drop, List.length_singleton]; omega)
      · exact ⟨b, c, l, rfl⟩
    have hb := b.toNat_lt
    have hc := c.toNat_lt
    have he : ofLittleEndian [b, c] = b.toNat + 256 * c.toNat := by simp [ofLittleEndian]
    rw [tInfomask, unsignedAt, hd, List.take_succ_cons, List.take_succ_cons, List.take_zero, he,
      UInt16.toNat_ofNat_of_lt' (by show _ < 2 ^ 16; omega)]
    simp only [toLittleEndian, List.cons.injEq, and_true, ←UInt8.toNat_inj, UInt8.toNat_ofNat']
    omega
  have hs : (tup.drop 20).take 2 ++ tup.drop 22 = tup.drop 20 := by
    rw [show tup.drop 22 = (tup.drop 20).drop 2 by rw [List.drop_drop], List.take_append_drop]
  rw [storeHints, UInt16.or_zero, hb, List.append_assoc, hs, List.take_append_drop]

theorem storeHints_storeHints (h : 22 ≤ tup.length) :
    storeHints hints' (storeHints hints tup) = storeHints (hints ||| hints') tup := by
  have hl : (tup.take 20).length = 20 := by
    rw [List.length_take]
    omega
  have ht : (storeHints hints tup).take 20 = tup.take 20 := by
    rw [storeHints, List.append_assoc, List.take_left' hl]
  have hd : (storeHints hints tup).drop 22 = tup.drop 22 :=
    List.drop_left' (by rw [List.length_append, hl, length_toLittleEndian])
  rw [storeHints, ht, hd, tInfomask_storeHints (by omega), storeHints, UInt16.or_assoc]

end Store
