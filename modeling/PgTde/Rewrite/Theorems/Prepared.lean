import PgTde.Page.Theorems.Header
import PgTde.Rewrite.Theorems.State

section Header

variable {tup tup' ctid l r : List UInt8} {m m₁ m₂ h : UInt16}

-- The flags of the one mask that are taken over by the other.
theorem infomask_copied {x y mask : UInt16} (hm : mask &&& h = h) :
    (x &&& ~~~mask ||| y &&& mask) &&& h = y &&& h := by
  have hn : ~~~mask &&& h = 0 := by
    rw [←hm, ←UInt16.and_assoc, UInt16.not_and_self, UInt16.zero_and]
  rw [UInt16.or_and_distrib_right, UInt16.and_assoc, hn, UInt16.and_zero, UInt16.zero_or, UInt16.keep_and hm]

theorem tInfomask_storeCtid (hc : ctid.length = 6) (hl : 18 ≤ tup.length) :
    tInfomask (storeCtid ctid tup) = tInfomask tup := by
  rw [tInfomask, unsignedAt, drop_storeCtid hc hl (by decide)]
  rfl

theorem take_storeCtid (hl : 12 ≤ tup.length) {n : Nat} (hn : n ≤ 12) :
    (storeCtid ctid tup).take n = tup.take n := by
  rw [storeCtid, List.append_assoc, List.take_append_of_le_length (by rw [List.length_take]; omega), List.take_take,
    Nat.min_eq_left hn]

-- The address of a tuple that has been stored.
theorem ctid_storeCtid (hc : ctid.length = 6) (hl : 12 ≤ tup.length) :
    ((storeCtid ctid tup).drop 12).take 6 = ctid := by
  rw [storeCtid, List.append_assoc, List.drop_left' (by rw [List.length_take]; omega), List.take_left' hc]

-- The xmin of a header is that of another one with the same flags.
theorem heapTupleHeaderGetXmin_congr (hf : tInfomask tup' &&& heapXminFrozen = tInfomask tup &&& heapXminFrozen)
    (hx : tup'.take 4 = tup.take 4) : heapTupleHeaderGetXmin tup' = heapTupleHeaderGetXmin tup := by
  rw [heapTupleHeaderGetXmin, heapTupleHeaderGetXmin, heapTupleHeaderXminFrozen, heapTupleHeaderXminFrozen, hf,
    unsignedAt, unsignedAt, List.drop_zero, List.drop_zero, hx]

theorem heapTupleHeaderGetXmin_of_frozen (hf : tInfomask tup &&& heapXminFrozen = heapXminFrozen) :
    heapTupleHeaderGetXmin tup = frozenTransactionId := by
  rw [heapTupleHeaderGetXmin, heapTupleHeaderXminFrozen, if_pos (by rw [decide_eq_true_iff]; exact hf)]

-- A tuple with another header of 22 bytes.
structure Reheaded (tup tup' : List UInt8) : Prop where
  length : tup'.length = tup.length
  drop   : tup'.drop 22 = tup.drop 22

theorem reheaded_append (hl : l.length = 18) (ht : 22 ≤ tup.length) :
    Reheaded tup (l ++ toLittleEndian 2 m₂.toNat ++ toLittleEndian 2 m₁.toNat ++ tup.drop 22) where
  length := by
    simp only [List.length_append, hl, length_toLittleEndian, List.length_drop]
    omega
  drop   := drop_append hl

theorem Reheaded.trans {tup₁ tup₂ tup₃ : List UInt8} (h : Reheaded tup₁ tup₂) (h' : Reheaded tup₂ tup₃) :
    Reheaded tup₁ tup₃ where
  length := h'.length.trans h.length
  drop   := h'.drop.trans h.drop

theorem reheaded_storeCtid (hc : ctid.length = 6) (hl : 18 ≤ tup.length) :
    Reheaded tup (storeCtid ctid tup) where
  length := length_storeCtid hc hl
  drop   := drop_storeCtid hc hl (by decide)

theorem Reheaded.itemHoff_eq (h : Reheaded tup tup') : itemHoff tup' = itemHoff tup := by
  have hd := congrArg (·[0]?) h.drop
  simp only [List.getElem?_drop] at hd
  rw [itemHoff, itemHoff, hd]

theorem Reheaded.userData_eq (h : Reheaded tup tup') (hh : 22 ≤ itemHoff tup) : userData tup' = userData tup := by
  obtain ⟨n, hn⟩ := Nat.exists_eq_add_of_le hh
  rw [userData, userData, h.itemHoff_eq, hn, ←List.drop_drop, ←List.drop_drop, h.drop]

end Header

namespace HeapTupleFreeze

variable {frz : HeapTupleFreeze} {tup : List UInt8}

-- The header fields in front of the infomasks.
theorem length_fields (hl : 22 ≤ tup.length) : (tup.take 4 ++ toLittleEndian 4 frz.xmax.toNat ++
    (match frz.xvac with
      | none      => (tup.take 12).drop 8
      | some xvac => toLittleEndian 4 xvac.toNat) ++ (tup.take 18).drop 12).length = 18 := by
  cases frz.xvac
  case none =>
    simp only [List.length_append, List.length_take, List.length_drop, length_toLittleEndian]
    omega
  case some =>
    simp only [List.length_append, List.length_take, List.length_drop, length_toLittleEndian]
    omega

theorem pgTdeExecuteFreezeTuple_reheaded (hl : 22 ≤ tup.length) :
    Reheaded tup (frz.pgTdeExecuteFreezeTuple tup) :=
  reheaded_append (length_fields hl) hl

theorem tInfomask_pgTdeExecuteFreezeTuple (hl : 22 ≤ tup.length) :
    tInfomask (frz.pgTdeExecuteFreezeTuple tup) = frz.infomask :=
  tInfomask_append (length_fields hl)

theorem take_pgTdeExecuteFreezeTuple (hl : 22 ≤ tup.length) :
    (frz.pgTdeExecuteFreezeTuple tup).take 4 = tup.take 4 := by
  simp only [pgTdeExecuteFreezeTuple, List.append_assoc]
  exact List.take_left' (by rw [List.length_take]; omega)

end HeapTupleFreeze

namespace LiveTuple

variable {routines : ChainRoutines} {freezeXid : Nat} {t : LiveTuple} {next : Option ItemPointer}

-- What the header of the new tuple says about its xmin.
structure Marked (freezeXid : Nat) (old tup : List UInt8) : Prop where
  xmin    : tup.take 4 = old.take 4
  updated : tInfomask tup &&& heapUpdated = tInfomask old &&& heapUpdated
  frozen  : tInfomask tup &&& heapXminFrozen = tInfomask old &&& heapXminFrozen ∨
    tInfomask tup &&& heapXminFrozen = heapXminFrozen ∧
      transactionIdPrecedes (heapTupleHeaderGetXmin old) freezeXid

theorem length_ge (tup : FormedTuple) : 24 ≤ tup.bytes.length :=
  Nat.le_trans tup.header tup.hoff_le

theorem Marked.getXmin {old tup : List UInt8} (h : Marked freezeXid old tup)
    (hf : tInfomask tup &&& heapXminFrozen ≠ heapXminFrozen) :
    heapTupleHeaderGetXmin tup = heapTupleHeaderGetXmin old := by
  obtain h' | h' := h.frozen
  · exact heapTupleHeaderGetXmin_congr h' h.xmin
  · exact absurd h'.left hf

theorem prepared_spec (hr : routines.Freezes freezeXid) :
    Reheaded t.newTuple.bytes (t.prepared routines) ∧
    Marked freezeXid t.oldTuple.tData.bytes (t.prepared routines) := by
  have ho := length_ge t.oldTuple.tData
  have hn := length_ge t.newTuple
  have hl : (t.oldTuple.tData.bytes.take 12 ++ (t.newTuple.bytes.take 18).drop 12).length = 18 := by
    simp only [List.length_append, List.length_take, List.length_drop]
    omega
  simp only [prepared]
  generalize hm₁ : tInfomask t.newTuple.bytes &&& ~~~heapXactMask ||| tInfomask t.oldTuple.tData.bytes &&& heapXactMask = m₁
  generalize tInfomask2 t.newTuple.bytes &&& ~~~heap2XactMask = m₂
  generalize htup : t.oldTuple.tData.bytes.take 12 ++ (t.newTuple.bytes.take 18).drop 12 ++
    toLittleEndian 2 m₂.toNat ++ toLittleEndian 2 m₁.toNat ++ t.newTuple.bytes.drop 22 = tup
  have hr₁ : Reheaded t.newTuple.bytes tup := htup ▸ reheaded_append hl (by omega)
  have hi : tInfomask tup = m₁ := htup ▸ tInfomask_append hl
  have hx : tup.take 4 = t.oldTuple.tData.bytes.take 4 := by
    rw [←htup]
    simp only [List.append_assoc]
    rw [List.take_append_of_le_length (by rw [List.length_take]; omega), List.take_take]
    rfl
  have hlen := hr₁.length
  have hc : invalidItemPointer.length = 6 := rfl
  have hu : tInfomask tup &&& heapUpdated = tInfomask t.oldTuple.tData.bytes &&& heapUpdated := by
    rw [hi, ←hm₁]
    exact infomask_copied (by decide)
  have hf : tInfomask tup &&& heapXminFrozen = tInfomask t.oldTuple.tData.bytes &&& heapXminFrozen := by
    rw [hi, ←hm₁]
    exact infomask_copied (by decide)
  split
  case h_1 =>
    refine ⟨hr₁.trans (reheaded_storeCtid hc (by omega)), ?_, ?_, ?_⟩
    · rw [take_storeCtid (by omega) (by decide), hx]
    · rw [tInfomask_storeCtid hc (by omega), hu]
    · rw [tInfomask_storeCtid hc (by omega)]
      exact .inl hf
  case h_2 frz hfrz =>
    have hr₂ : Reheaded tup (frz.pgTdeExecuteFreezeTuple tup) :=
      HeapTupleFreeze.pgTdeExecuteFreezeTuple_reheaded (by omega)
    have hlen₂ := hr₂.length
    refine ⟨(hr₁.trans hr₂).trans (reheaded_storeCtid hc (by omega)), ?_, ?_, ?_⟩
    · rw [take_storeCtid (by omega) (by decide), HeapTupleFreeze.take_pgTdeExecuteFreezeTuple (by omega), hx]
    · rw [tInfomask_storeCtid hc (by omega), HeapTupleFreeze.tInfomask_pgTdeExecuteFreezeTuple (by omega),
        hr.updated tup frz hfrz, hu]
    · rw [tInfomask_storeCtid hc (by omega), HeapTupleFreeze.tInfomask_pgTdeExecuteFreezeTuple (by omega)]
      obtain h | ⟨h, hp⟩ := hr.xmin tup frz hfrz
      · exact .inl (h.trans hf)
      · exact .inr ⟨h, heapTupleHeaderGetXmin_congr hf hx ▸ hp⟩

theorem length_prepared (hr : routines.Freezes freezeXid) : 24 ≤ (t.prepared routines).length := by
  have hn := length_ge t.newTuple
  have hl := (prepared_spec (t := t) hr).left.length
  omega

theorem linked_reheaded (hr : routines.Freezes freezeXid) :
    Reheaded t.newTuple.bytes (t.linked routines next) := by
  have hl := length_prepared (t := t) hr
  cases next
  case none     => exact (prepared_spec hr).left
  case some tid => exact (prepared_spec hr).left.trans (reheaded_storeCtid rfl (by omega))

-- Its address is of no consequence for the chains.
theorem tInfomask_linked (hr : routines.Freezes freezeXid) :
    tInfomask (t.linked routines next) = tInfomask (t.prepared routines) := by
  have hl := length_prepared (t := t) hr
  cases next
  case none     => rfl
  case some tid => exact tInfomask_storeCtid rfl (by omega)

theorem getXmin_linked (hr : routines.Freezes freezeXid) :
    heapTupleHeaderGetXmin (t.linked routines next) = heapTupleHeaderGetXmin (t.prepared routines) := by
  have hl := length_prepared (t := t) hr
  cases next
  case none     => rfl
  case some tid =>
    refine heapTupleHeaderGetXmin_congr (congrArg (· &&& heapXminFrozen) (tInfomask_linked hr)) ?_
    exact take_storeCtid (by omega) (by decide)

end LiveTuple
