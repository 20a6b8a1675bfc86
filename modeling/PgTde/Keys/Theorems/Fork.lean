import PgTde.Keys.Fork
import PgTde.Keyring.Theorems.Latest

open KeyringCache

section Bytes

variable {bytes l r : List UInt8} {a n width : Nat}

theorem byteArray_of_append {f : Fin n → UInt8} (h : bytes = l ++ (List.ofFn f ++ r))
    (hl : l.length = a) : byteArray n bytes a = f := by
  funext t
  have ht := t.isLt
  rw [byteArray, h, List.getElem?_append_right (by omega), List.getElem?_append_left (by simp; omega)]
  simp [show a + t.val - l.length = t.val by omega, ht]

theorem overwrite_overwrite {s t : List UInt8} (ha : a ≤ bytes.length) (h : s.length = t.length) :
    overwrite (overwrite bytes a s) a t = overwrite bytes a t := by
  have hl : (bytes.take a).length = a := List.length_take_of_le ha
  have hd : (bytes.take a ++ s ++ bytes.drop (a + s.length)).drop (a + s.length) =
      bytes.drop (a + s.length) := List.drop_left' (by simp [hl])
  have ht : (bytes.take a ++ s ++ bytes.drop (a + s.length)).take a = bytes.take a := by
    rw [List.append_assoc, List.take_left' hl]
  rw [overwrite, overwrite, ←h, hd, ht, overwrite, h]

theorem byteArray_overwrite {f : Fin n → UInt8} (ha : a ≤ bytes.length) :
    byteArray n (overwrite bytes a (List.ofFn f)) a = f :=
  byteArray_of_append (by rw [overwrite, List.append_assoc]) (List.length_take_of_le ha)

theorem ofFn_byteArray (h : a + n ≤ bytes.length) :
    List.ofFn (byteArray n bytes a) = (bytes.drop a).take n := by
  apply List.ext_getElem
  · simp
    omega
  · intro i hi _
    have hlt : a + i < bytes.length := by
      simp only [List.length_ofFn] at hi
      omega
    simp [byteArray, hlt]

theorem overwrite_byteArray (h : a + n ≤ bytes.length) :
    overwrite bytes a (List.ofFn (byteArray n bytes a)) = bytes := by
  rw [overwrite, List.length_ofFn, ofFn_byteArray h, ←List.drop_drop, List.append_assoc,
    List.take_append_drop, List.take_append_drop]

theorem length_overwrite {s : List UInt8} (h : a + s.length ≤ bytes.length) :
    (overwrite bytes a s).length = bytes.length := by
  simp [overwrite]
  omega

end Bytes

namespace RelFileLocator

@[simp]
theorem length_bytes {rlocator : RelFileLocator} : rlocator.bytes.length = sizeofRelFileLocator := by
  simp [bytes, sizeofRelFileLocator]

theorem ofBytes_bytes {rlocator : RelFileLocator} {r : List UInt8} :
    ofBytes (rlocator.bytes ++ r) = rlocator := by
  have h₁ : unsignedAt 4 (rlocator.bytes ++ r) 0 = rlocator.spcOid.toNat :=
    @unsignedAt_of_append _ [] _ _ _ _ (by rw [bytes, List.append_assoc, List.append_assoc]; rfl) rfl
      rlocator.spcOid.toNat_lt
  have h₂ : unsignedAt 4 (rlocator.bytes ++ r) 4 = rlocator.dbOid.toNat :=
    unsignedAt_of_append (by rw [bytes, List.append_assoc, List.append_assoc]) length_toLittleEndian
      rlocator.dbOid.toNat_lt
  have h₃ : unsignedAt 4 (rlocator.bytes ++ r) 8 = rlocator.relNumber.toNat :=
    unsignedAt_of_append (by rw [bytes, List.append_assoc]) (by simp) rlocator.relNumber.toNat_lt
  simp [ofBytes, h₁, h₂, h₃]

end RelFileLocator

namespace InternalKey

@[simp]
theorem length_bytes {key : InternalKey} : key.bytes.length = sizeofInternalKey := by
  simp [bytes, sizeofInternalKey]

theorem ofBytes_bytes {key : InternalKey} {bs l r : List UInt8} {a : Nat}
    (h : bs = l ++ (key.bytes ++ r)) (hl : l.length = a) : ofBytes bs a = key := by
  simp only [bytes, List.append_assoc] at h
  have h₁ : byteArray 16 bs a = key.key := byteArray_of_append h hl
  have h₂ : unsignedAt 8 bs (a + 16) = key.startLoc.toNat :=
    @unsignedAt_of_append _ (l ++ List.ofFn key.key) _ _ _ _
      (by rw [h, List.append_assoc]) (by simp [hl]) key.startLoc.toNat_lt
  have h₃ : unsignedAt 8 bs (a + 24) = key.endLoc.toNat :=
    @unsignedAt_of_append _ (l ++ (List.ofFn key.key ++ toLittleEndian 8 key.startLoc.toNat)) _ _ _ _
      (by rw [h]; simp only [List.append_assoc]; rfl) (by simp [hl]) key.endLoc.toNat_lt
  have h₄ : unsignedAt 8 bs (a + 32) = key.ctx.toNat :=
    @unsignedAt_of_append _ (l ++ (List.ofFn key.key ++ (toLittleEndian 8 key.startLoc.toNat ++
      toLittleEndian 8 key.endLoc.toNat))) _ _ _ _
      (by rw [h]; simp only [List.append_assoc]; rfl) (by simp [hl]) key.ctx.toNat_lt
  simp [ofBytes, h₁, h₂, h₃, h₄]

end InternalKey

namespace RelKeysData

variable {keys : RelKeysData} {key : InternalKey}

theorem length_header : (List.ofFn keys.masterKeyName.name ++
    toLittleEndian 8 keys.internalKeysLen.toNat).length = sizeOfRelKeysDataHeader := by
  rw [List.length_append, List.length_ofFn, length_toLittleEndian, sizeOfRelKeysDataHeader]

theorem bytes_eq (h : keys.internalKey = [key]) :
    keys.bytes = (List.ofFn keys.masterKeyName.name ++
      toLittleEndian 8 keys.internalKeysLen.toNat) ++ (key.bytes ++ []) := by
  rw [bytes, h, List.flatMap_singleton, List.append_nil]

theorem length_bytes (h : keys.internalKey = [key]) : keys.bytes.length = sizeOfRelKeysData 1 := by
  rw [bytes_eq h, List.length_append, length_header, List.append_nil, InternalKey.length_bytes,
    sizeOfRelKeysData, Nat.mul_one]

theorem ofBytes_bytes (h : keys.internalKey = [key]) : ofBytes keys.bytes = keys := by
  have h₁ : byteArray 256 keys.bytes 0 = keys.masterKeyName.name :=
    @byteArray_of_append _ [] _ _ _ _ (by rw [bytes, List.append_assoc]; rfl) rfl
  have h₂ : unsignedAt 8 keys.bytes 256 = keys.internalKeysLen.toNat :=
    unsignedAt_of_append (by rw [bytes, List.append_assoc]) List.length_ofFn
      keys.internalKeysLen.toNat_lt
  have h₃ : InternalKey.ofBytes keys.bytes sizeOfRelKeysDataHeader = key :=
    InternalKey.ofBytes_bytes (bytes_eq h) length_header
  have h₄ : (keys.bytes.length - sizeOfRelKeysDataHeader) / sizeofInternalKey = 1 := by
    rw [length_bytes h]
    decide
  simp [ofBytes, h₁, h₂, h₃, h₄, ←h]

end RelKeysData
