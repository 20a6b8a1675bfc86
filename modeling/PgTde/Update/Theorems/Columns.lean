import PgTde.Update.Hot

section

variable {tupdesc : TupleDesc} {externalCols : Bitmapset} {oldtup newtup : HeapTupleData} {info : ColumnsInfo}
variable {attidx a : Nat}

-- The attribute is added to the modified ones.
def Modified (tupdesc : TupleDesc) (oldtup newtup : HeapTupleData) (attidx : Nat) : Prop :=
  let attrnum : Int := attidx + firstLowInvalidHeapAttributeNumber
  attrnum = 0 ∨ attrnum < 0 ∧ attrnum ≠ tableOidAttributeNumber ∨
  ¬pgTdeAttrEquals attrnum (pgTdeGetattr tupdesc oldtup attrnum) (pgTdeGetattr tupdesc newtup attrnum)

theorem check_modified (h : Modified tupdesc oldtup newtup attidx) :
    (info.check tupdesc externalCols oldtup newtup attidx).modified = insert attidx info.modified := by
  simp only [Modified] at h
  rw [ColumnsInfo.check]
  split
  case isTrue     => rfl
  case isFalse h₀ =>
    split
    case isTrue     => rfl
    case isFalse h₁ => rw [if_pos ((h.resolve_left h₀).resolve_left h₁)]

theorem check_not_modified (h : ¬Modified tupdesc oldtup newtup attidx) :
    (info.check tupdesc externalCols oldtup newtup attidx).modified = info.modified := by
  simp only [Modified, not_or] at h
  obtain ⟨h₀, h₁, h₂⟩ := h
  simp only [ColumnsInfo.check]
  rw [if_neg h₀, if_neg h₁, if_neg h₂]
  -- Only the flag about external values may change.
  cases pgTdeGetattr tupdesc oldtup (attidx + firstLowInvalidHeapAttributeNumber)
  case none => rfl
  case some =>
    simp only
    split
    · rfl
    · split <;> rfl

theorem mem_check_iff : a ∈ (info.check tupdesc externalCols oldtup newtup attidx).modified ↔
    a ∈ info.modified ∨ a = attidx ∧ Modified tupdesc oldtup newtup a := by
  by_cases h : Modified tupdesc oldtup newtup attidx
  case pos =>
    rw [check_modified h, Finset.mem_insert, or_comm]
    exact or_congr_right ⟨fun he => ⟨he, he ▸ h⟩, And.left⟩
  case neg =>
    rw [check_not_modified h]
    refine ⟨.inl, fun ha => ha.resolve_right ?_⟩
    rintro ⟨rfl, hm⟩
    exact h hm

-- The loop, from any state on.
theorem mem_foldl_check_iff {attidxs : List Nat} :
    a ∈ (attidxs.foldl (ColumnsInfo.check tupdesc externalCols oldtup newtup) info).modified ↔
    a ∈ info.modified ∨ a ∈ attidxs ∧ Modified tupdesc oldtup newtup a := by
  induction attidxs generalizing info
  case nil              => simp
  case cons attidx l hi =>
    rw [List.foldl_cons, hi, mem_check_iff, List.mem_cons]
    tauto

theorem mem_modified_iff {interestingCols : Bitmapset} :
    a ∈ (heapDetermineColumnsInfo tupdesc externalCols oldtup newtup interestingCols).modified ↔
    a ∈ interestingCols ∧ Modified tupdesc oldtup newtup a := by
  rw [heapDetermineColumnsInfo, mem_foldl_check_iff, Finset.mem_sort]
  simp

-- Datums are compared by their bytes.
theorem pgTdeAttrEquals_iff {attrnum : Int} {value1 value2 : Option (List UInt8)} (h : attrnum > 0) :
    pgTdeAttrEquals attrnum value1 value2 ↔ value1 = value2 := by
  cases value1 <;> cases value2 <;> simp [pgTdeAttrEquals, not_le.mpr h]

-- Both tuples belong to the same table.
theorem modified_iff {oid : UInt32} {oldData newData : List UInt8} :
    Modified tupdesc ⟨oid, oldData⟩ ⟨oid, newData⟩ a ↔
    let attrnum : Int := a + firstLowInvalidHeapAttributeNumber
    attrnum = 0 ∨ attrnum < 0 ∧ attrnum ≠ tableOidAttributeNumber ∨
    attrnum > 0 ∧ tupdesc.heapGetattr oldData attrnum.toNat ≠ tupdesc.heapGetattr newData attrnum.toNat := by
  simp only [Modified]
  generalize (a : Int) + firstLowInvalidHeapAttributeNumber = attrnum
  rcases lt_trichotomy attrnum 0 with h | h | h
  · have hn : ¬attrnum > 0 := by omega
    simp [pgTdeGetattr, hn, pgTdeAttrEquals]
  · simp [h]
  · rw [pgTdeAttrEquals_iff h]
    simp [pgTdeGetattr, h]

end

theorem EncryptedTuple.length_data {P : Platform} (t : EncryptedTuple P) :
    t.data.length = t.lp.lpLen - t.hoff := by
  have h := congrArg List.length t.stored
  simpa [EncryptedTuple.hoff] using h.symm

-- The header of the copy and the decrypted data are the plaintext.
theorem EncryptedTuple.oldtupDecrypted_eq {P : Platform} (t : EncryptedTuple P) (newPtr : Memory) :
    P.oldtupDecrypted t.bn t.key newPtr t.page.mem t.lp = .ok t.plain := by
  have hf := t.fits
  have hh := t.header
  have hl := t.length_data
  simp only [sizeofHeapTupleHeaderData] at hh
  have hoff : tHoff (newPtr.copy 0 t.page.mem t.lp.lpOff t.hoff) 0 = t.hoff :=
    congrArg UInt8.toNat (Memory.copy_add (show 22 < tHoff t.page.mem t.lp.lpOff by omega))
  have hlen : t.lp.lpLen = t.hoff + t.data.length := by
    have hle := t.hoff_le
    simp only [EncryptedTuple.hoff] at hl ⊢
    omega
  rw [Platform.oldtupDecrypted, Platform.pgTdeCryptTuple_eq (by omega) (by omega) t.hoff_le, t.stored,
    Keystream.xor_xor, Outcome.ok_bind]
  have hcopy : (newPtr.copy 0 t.page.mem t.lp.lpOff t.hoff).read 0 t.hoff = t.page.mem.read t.lp.lpOff t.hoff :=
    Memory.read_congr fun i hi => Memory.copy_add hi
  simp only [EncryptedTuple.hoff] at hoff
  rw [hoff, hlen, Memory.read_add, Memory.read_write_disjoint (.inl (by simp [EncryptedTuple.hoff])),
    Nat.zero_add]
  exact congrArg Except.ok (congr_arg₂ (· ++ ·) hcopy Memory.read_write)
