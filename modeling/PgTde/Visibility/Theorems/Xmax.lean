import PgTde.Visibility.RowVersion
import PgTde.Visibility.Theorems.Update

section Bits

variable {mode strongest : TupleLock} {members : List MultiXactMember} {m c f : UInt16}

theorem lockBits_cases (P : UInt16 → Prop) (h₁ : P heapXmaxExclLock) (h₂ : P heapXmaxShrLock)
    (h₃ : P heapXmaxKeyshrLock) : P (lockBits mode) := by
  cases mode
  case keyShare       => exact h₃
  case share          => exact h₂
  case noKeyExclusive => exact h₁
  case exclusive      => exact h₁

-- The hint bits of a multixact without and with an updating member.
theorem getMultiXactIdHintBits_cases (members : List MultiXactMember) (P : UInt16 → Prop)
    (hu : members.any (·.status.isUpdate) → ∀ mode, P (heapXmaxIsMulti ||| lockBits mode))
    (hl : ¬members.any (·.status.isUpdate) → ∀ mode, P (heapXmaxIsMulti ||| lockBits mode ||| heapXmaxLockOnly)) :
    P (getMultiXactIdHintBits members).1 := by
  simp only [getMultiXactIdHintBits]
  split
  case isTrue h  => exact hu h _
  case isFalse h => exact hl h _

-- Flags within a mask, as to another mask that contains it or has none of its flags.
theorem UInt16.subset_keep {mask : UInt16} (hf : mask &&& f = f) (hc : c &&& mask = mask) : c &&& f = f := by
  rw [←hf, ←UInt16.and_assoc, hc]

theorem UInt16.subset_disjoint {mask : UInt16} (hf : mask &&& f = f) (hc : c &&& mask = 0) : c &&& f = 0 := by
  rw [←hf, ←UInt16.and_assoc, hc, UInt16.zero_and]

-- Flags that are replaced by new ones.
theorem UInt16.replace_and {new mask : UInt16} (hf : mask &&& f = 0) : (m &&& mask ||| new) &&& f = new &&& f := by
  rw [UInt16.or_and_distrib_right, UInt16.and_assoc, hf, UInt16.and_zero, UInt16.zero_or]

end Bits

-- The header of a tuple with a certain xmax.
structure XmaxIs (new : NewXmax) (tup : List UInt8) : Prop where
  xmax : heapTupleHeaderGetRawXmax tup = new.xmax
  bits : ∀ f, heapXmaxBits &&& f = f → tInfomask tup &&& f = new.infomask &&& f

-- The header of a tuple with another xmax.
structure XmaxStored (new : NewXmax) (tup tup' : List UInt8) : Prop extends XmaxIs new tup' where
  length : tup'.length = tup.length
  xmin   : heapTupleHeaderGetRawXmin tup' = heapTupleHeaderGetRawXmin tup
  hints  : ∀ f, heapXminFrozen &&& f = f → tInfomask tup' &&& f = tInfomask tup &&& f
  moved  : ¬heapTupleHas heapMoved tup → ¬heapTupleHas heapMoved tup'

section Stores

variable {tup c ctid : List UInt8} {new : NewXmax} {change : XmaxChange} {cid : UInt32} {iscombo : Bool}
variable {m₁ m₂ : UInt16}

theorem xmaxStored_append (hl : 22 ≤ tup.length) (hc : c.length = 4) (hct : ctid.length = 6)
    (hx : new.xmax < 2 ^ 32) (hb : ∀ f, heapXmaxBits &&& f = f → m₁ &&& f = new.infomask &&& f)
    (hh : ∀ f, heapXminFrozen &&& f = f → m₁ &&& f = tInfomask tup &&& f)
    (hm : tInfomask tup &&& heapMoved = 0 → m₁ &&& heapMoved = 0) :
    XmaxStored new tup (tup.take 4 ++ toLittleEndian 4 new.xmax ++ c ++ ctid ++
      toLittleEndian 2 m₂.toNat ++ toLittleEndian 2 m₁.toNat ++ tup.drop 22) := by
  have ht : (tup.take 4).length = 4 := by
    rw [List.length_take]
    omega
  have hl₁ : (tup.take 4 ++ toLittleEndian 4 new.xmax ++ c ++ ctid).length = 18 := by simp [ht, hc, hct]
  have hi := @tInfomask_append (tup.take 4 ++ toLittleEndian 4 new.xmax ++ c ++ ctid) (tup.drop 22) m₁ m₂ hl₁
  constructor
  case length   =>
    simp only [List.length_append, ht, length_toLittleEndian, hc, hct, List.length_drop]
    omega
  case xmin     =>
    simp only [heapTupleHeaderGetRawXmin, unsignedAt, List.drop_zero, List.append_assoc]
    rw [List.take_left' ht]
  case toXmaxIs =>
    refine ⟨?_, by rw [hi]; exact hb⟩
    simp only [heapTupleHeaderGetRawXmax, List.append_assoc]
    exact unsignedAt_of_append rfl ht hx
  case hints    => rw [hi]; exact hh
  case moved    =>
    simp only [heapTupleHas_eq_true, not_not, hi]
    exact hm

theorem xmaxStored_storeLock (hl : 22 ≤ tup.length) (hct : ctid.length = 6) (hx : new.xmax < 2 ^ 32)
    (hn : new.infomask &&& ~~~heapXmaxBits = 0) : XmaxStored new tup (storeLock new ctid tup) := by
  simp only [storeLock]
  refine xmaxStored_append hl (by simp; omega) ?_ hx ?_ ?_ ?_
  case refine_1 =>
    split
    · exact hct
    · simp
      omega
  case refine_2 => exact fun f hf => UInt16.replace_and (UInt16.subset_disjoint hf (by decide))
  case refine_3 =>
    intro f hf
    have hd := UInt16.subset_disjoint hf (show heapXmaxBits &&& heapXminFrozen = 0 by decide)
    rw [UInt16.keep_or (UInt16.and_eq_zero_of_subset hn hd),
      UInt16.keep_and (UInt16.subset_keep hf (by decide))]
  case refine_4 =>
    intro hm
    rw [UInt16.keep_or (UInt16.and_eq_zero_of_subset hn (by decide)), UInt16.keep_and (by decide), hm]

-- The infomask after an update or a deletion.
theorem infomask_stored_bits {m : UInt16} {f : UInt16} (hf : heapXmaxBits &&& f = f) :
    (if iscombo then (m &&& ~~~(heapXmaxBits ||| heapMoved) ||| change.infomask) ||| heapCombocid
      else (m &&& ~~~(heapXmaxBits ||| heapMoved) ||| change.infomask) &&& ~~~heapCombocid) &&& f =
    change.infomask &&& f := by
  have hr := @UInt16.replace_and m f change.infomask _ (UInt16.subset_disjoint hf
    (show ~~~(heapXmaxBits ||| heapMoved) &&& heapXmaxBits = 0 by decide))
  cases iscombo
  case true  => rw [if_pos rfl, UInt16.keep_or (UInt16.subset_disjoint hf (by decide)), hr]
  case false => rw [if_neg (by decide), UInt16.keep_and (UInt16.subset_keep hf (by decide)), hr]

theorem xmaxStored_change {m₂ : UInt16} (hl : 22 ≤ tup.length) (hct : ctid.length = 6)
    (hn : new = ⟨change.xmax.toNat, change.infomask, change.infomask2⟩) :
    XmaxStored new tup (tup.take 4 ++ toLittleEndian 4 change.xmax.toNat ++ toLittleEndian 4 cid.toNat ++ ctid ++
      toLittleEndian 2 m₂.toNat ++ toLittleEndian 2
        (if iscombo
          then (tInfomask tup &&& ~~~(heapXmaxBits ||| heapMoved) ||| change.infomask) ||| heapCombocid
          else (tInfomask tup &&& ~~~(heapXmaxBits ||| heapMoved) ||| change.infomask) &&& ~~~heapCombocid).toNat ++
      tup.drop 22) := by
  subst hn
  refine xmaxStored_append hl length_toLittleEndian hct change.xmax.toNat_lt ?_ ?_ ?_
  case refine_1 => exact fun f hf => infomask_stored_bits hf
  case refine_2 =>
    exact fun f hf => infomask_storeXmax (UInt16.subset_disjoint hf (by decide))
      (UInt16.subset_keep hf (by decide)) (UInt16.subset_disjoint hf (by decide))
      (UInt16.subset_keep hf (by decide))
  case refine_3 =>
    intro _
    have hch := UInt16.and_eq_zero_of_subset change.infomask_bits (show heapXmaxBits &&& heapMoved = 0 by decide)
    have hr := @UInt16.replace_and (tInfomask tup) heapMoved change.infomask
      (~~~(heapXmaxBits ||| heapMoved)) (by decide)
    cases iscombo
    case true  => rw [if_pos rfl, UInt16.keep_or (by decide), hr, hch]
    case false => rw [if_neg (by decide), UInt16.keep_and (by decide), hr, hch]

theorem RowVersion.Stores.xmaxStored {isUpdate : Bool} {tup' : List UInt8}
    (h : RowVersion.Stores new tup isUpdate tup') (hl : 22 ≤ tup.length)
    (hn : new.infomask &&& ~~~heapXmaxBits = 0) : XmaxStored new tup tup' := by
  cases h
  case lock hx hct   => exact xmaxStored_storeLock hl hct hx hn
  case delete hn hct => exact xmaxStored_change hl hct hn
  case update hn hct => exact xmaxStored_change hl hct hn

end Stores
