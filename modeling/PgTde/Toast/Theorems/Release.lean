import PgTde.Page.Theorems.AddItem
import PgTde.Page.Theorems.Header
import PgTde.Toast.Release

open Cint

variable {P : Platform} {deform : DeformTuple}

-- An operation calls the toaster.
def TupleRemoval.toasts (op : TupleRemoval deform) (oldtup : List UInt8) : Bool :=
  match op with
  | .update _ _ _ newtup _ _ =>
    heapTupleHasExternal oldtup ∨ heapTupleHasExternal newtup ∨ newtup.length > toastTupleThreshold
  | _                        => heapTupleHasExternal oldtup

namespace StoredTuple

variable (t : StoredTuple P deform)

-- The plaintext with the keystream on its data.
def masked : List UInt8 :=
  encryptedItem (P.keystream t.key) t.bn t.lp.lpOff t.plain

-- The keystream does not affect which external values are found in the tuple, where the toaster is called.
def Unaffected (op : TupleRemoval deform) : Prop :=
  op.toasts t.plain → ∃ values, deform.run t.masked = .ok values ∧
    op.unneeded t.masked values = op.unneeded t.plain t.values

end StoredTuple

section Tuple

variable {tup tup' : List UInt8} {values : List (Option Nat)}

theorem KeepsAttributes.same (h : KeepsAttributes tup tup') : SameAttributes tup tup' where
  nulls := h.nulls
  natts := h.natts
  data  := h.data

theorem drop_of_keeps (h : KeepsAttributes tup tup') {off : Nat} (ho : 22 ≤ off) : tup'.drop off = tup.drop off := by
  obtain ⟨n, rfl⟩ : ∃ n, off = 22 + n := ⟨off - 22, by omega⟩
  rw [←List.drop_drop, h.data, List.drop_drop]

-- The attributes of a tuple are behind its fixed header, which does not matter for them.
theorem toastPointer_of_keeps (h : KeepsAttributes tup tup') (ht : 22 ≤ itemHoff tup)
    (hd : deform.run tup = .ok values) (value : Option Nat) (hv : value ∈ values) :
    toastPointer tup' value = toastPointer tup value := by
  cases value
  case none     => rfl
  case some off => rw [toastPointer, toastPointer, drop_of_keeps h (Nat.le_trans ht (deform.data _ _ _ hd hv))]

theorem unneeded_of_keeps (h : KeepsAttributes tup tup') (ht : 22 ≤ itemHoff tup)
    (hd : deform.run tup = .ok values) (op : TupleRemoval deform) :
    op.unneeded tup' values = op.unneeded tup values := by
  have hp := toastPointer_of_keeps h ht hd
  have he : toastDeleteExternal tup' values = toastDeleteExternal tup values :=
    List.filterMap_congr hp
  cases op
  case delete                       => exact he
  case abortSpeculative             => exact he
  case update newtup newvalues _    =>
    apply List.filterMap_congr
    intro a ha
    simp only [hp _ (List.of_mem_zip ha).1]

-- No value of a tuple without external values is deleted.
theorem unneeded_eq_nil (h : toastDeleteExternal tup values = []) (op : TupleRemoval deform) :
    op.unneeded tup values = [] := by
  cases op
  case delete                    => exact h
  case abortSpeculative          => exact h
  case update newtup newvalues _ =>
    rw [toastDeleteExternal, List.filterMap_eq_nil_iff] at h
    apply List.filterMap_eq_nil_iff.mpr
    intro a ha
    simp only [h _ (List.of_mem_zip ha).1]

end Tuple

namespace StoredTuple

variable (t : StoredTuple P deform)

theorem plain_eq : t.plain = t.onPage.take (tHoff t.page t.lp.lpOff) ++
    (P.keystream t.key).xor (offsetInFile t.bn t.lp.lpOff)
      (t.onPage.drop (tHoff t.page t.lp.lpOff)) := by
  have hs := t.stored
  have hf := t.fits
  simp only [Platform.pgTdeExecStoreBufferHeapTuple, Platform.execStoreTuple, ne_eq, t.ordinary, not_false_eq_true,
    if_true, Platform.pgTdeCryptTuple_eq (P := P) (show t.lp.lpOff ≤ blcksz by omega) (by omega) t.hoff_le,
    Outcome.ok_bind, Outcome.pure_eq, Except.ok.injEq] at hs
  rw [←hs, onPage, Memory.drop_read]

theorem length_onPage : t.onPage.length = t.lp.lpLen :=
  Memory.length_read

theorem getElem?_plain {i : Nat} (h : i < tHoff t.page t.lp.lpOff) : t.plain[i]? = t.onPage[i]? := by
  have hl := t.hoff_le
  rw [plain_eq, List.getElem?_append_left (by rw [List.length_take, length_onPage]; omega),
    List.getElem?_take_of_lt h]

theorem itemHoff_plain : itemHoff t.plain = tHoff t.page t.lp.lpOff := by
  have hh := t.header
  have hl := t.hoff_le
  simp only [sizeofHeapTupleHeaderData] at hh
  rw [itemHoff, getElem?_plain t (by omega), onPage, Memory.getElem?_read (by omega)]
  rfl

theorem length_plain : t.plain.length = t.lp.lpLen := by
  rw [plain_eq, List.length_append, Keystream.length_xor, ←List.length_append, List.take_append_drop, length_onPage]

theorem onPage_eq : t.onPage = t.masked := by
  have hl : (t.onPage.take (tHoff t.page t.lp.lpOff)).length = tHoff t.page t.lp.lpOff := by
    have hl := t.hoff_le
    rw [List.length_take, length_onPage]
    omega
  rw [masked, encryptedItem, itemHoff_plain, plain_eq, List.take_left' hl, List.drop_left' hl, Keystream.xor_xor,
    List.take_append_drop]

theorem le_itemHoff : 22 ≤ itemHoff t.masked := by
  have hh := t.header
  have hl := t.hoff_le
  simp only [sizeofHeapTupleHeaderData] at hh
  rw [masked, itemHoff_encryptedItem, itemHoff_plain]
  case hf => simp only [itemHoff_plain, sizeofHeapTupleHeader]; omega
  case hh => rw [itemHoff_plain, length_plain]; exact hl
  omega

theorem hasExternal_masked : heapTupleHasExternal t.masked = heapTupleHasExternal t.plain := by
  have hh := t.header
  simp only [sizeofHeapTupleHeaderData] at hh
  rw [heapTupleHasExternal, heapTupleHasExternal, ←onPage_eq, getElem?_plain t (by omega)]

variable {t}

-- Looking for values in the tuple with a changed header.
theorem map_of_keeps {tup' : List UInt8} (h : KeepsAttributes t.masked tup') (op : TupleRemoval deform) :
    (deform.run tup').map (op.unneeded tup') = (deform.run t.masked).map (op.unneeded t.masked) := by
  rw [deform.same _ _ h.same]
  cases hd : deform.run t.masked
  case error     => rfl
  case ok values => exact congrArg Except.ok (unneeded_of_keeps h t.le_itemHoff hd op)

-- The operations look for external values in the tuple as it is on the page.
theorem deleted_eq (op : TupleRemoval deform) : t.deleted op =
    if op.toasts t.plain then (deform.run t.masked).map (op.unneeded t.masked) else .ok [] := by
  have hl : 22 ≤ t.masked.length := by
    have hh := t.header
    have hl := t.hoff_le
    simp only [sizeofHeapTupleHeaderData] at hh
    rw [←onPage_eq, length_onPage]
    omega
  have hs : (itemPointer t.bn t.offnum).length = 6 := rfl
  have hc (changingPart : Bool) :
      (if changingPart then movedPartitions else itemPointer t.bn t.offnum).length = 6 := by
    cases changingPart <;> rfl
  cases op
  case delete change cid iscombo changingPart =>
    have hk := storeXmax_keeps change cid iscombo hl (hc changingPart)
    rw [←map_of_keeps hk]
    simp only [deleted, pgTdeDelete, onPage_eq, t.ordinary, if_false, hk.external, hasExternal_masked,
      TupleRemoval.toasts]
    rfl
  case abortSpeculative =>
    have hk := storeKilled_keeps hl hs
    rw [←map_of_keeps hk]
    simp only [deleted, pgTdeAbortSpeculative, onPage_eq, hk.external, hasExternal_masked, TupleRemoval.toasts]
    rfl
  case update change cid iscombo newtup newvalues hn =>
    have hk := storeXmax_keeps change cid iscombo hl hs
    rw [←map_of_keeps hk]
    simp only [deleted, pgTdeUpdate, onPage_eq, t.ordinary, if_false, hasExternal_masked, TupleRemoval.toasts,
      pgTdeToastUpdate, hn, Outcome.ok_bind]
    rfl

-- The external values that the operation does not need any more are deleted iff they are still found under the
-- keystream.
theorem deletesUnneeded_iff (op : TupleRemoval deform) : t.DeletesUnneeded op ↔ t.Unaffected op := by
  rw [DeletesUnneeded, deleted_eq, Unaffected]
  by_cases h : op.toasts t.plain
  case pos =>
    simp only [h, if_true, forall_const]
    cases deform.run t.masked
    case error => simp [Except.map]
    case ok    => simp [Except.map]
  case neg =>
    have he : op.unneeded t.plain t.values = [] := by
      apply unneeded_eq_nil
      apply t.noExternal
      cases op
      case delete           => exact h
      case abortSpeculative => exact h
      case update           => intro he; simp [TupleRemoval.toasts, he] at h
    simp [h, he]

-- In particular if the keystream does not change the data at all.
theorem unaffected_of_idle (h : ∀ i < t.plain.length - itemHoff t.plain,
    P.keystream t.key (offsetInFile t.bn t.lp.lpOff + i) = 0) (op : TupleRemoval deform) : t.Unaffected op := by
  have hm : t.masked = t.plain := by
    rw [masked, encryptedItem, Keystream.xor_of_zero (by simpa using h), List.take_append_drop]
  intro _
  exact ⟨t.values, hm ▸ t.deformed, by rw [hm]⟩

end StoredTuple

-- Where the only column of a table is, if it is of variable length: unless it is null or missing, it is where
-- the data starts.
def onlyColumn (tup : List UInt8) : Option Nat :=
  if tInfomask2 tup &&& heapNattsMask = 0 then
    none
  else if tInfomask tup &&& heapHasnull ≠ 0 ∧ tup[23]?.getD 0 &&& 1 = 0 then
    none
  else
    some (itemHoff tup)

theorem onlyColumn_same {tup tup' : List UInt8} (h : SameAttributes tup tup') : onlyColumn tup' = onlyColumn tup := by
  have hd (i : Nat) : tup'[22 + i]? = tup[22 + i]? := by
    rw [←List.getElem?_drop, h.data, List.getElem?_drop]
  simp only [onlyColumn, h.nulls, h.natts, itemHoff, show tup'[22]? = tup[22]? from hd 0,
    show tup'[23]? = tup[23]? from hd 1]

theorem onlyColumn_data {tup : List UInt8} {off : Nat} (h : onlyColumn tup = some off) : itemHoff tup ≤ off := by
  rw [onlyColumn] at h
  by_cases h₁ : tInfomask2 tup &&& heapNattsMask = 0
  case pos => simp [h₁] at h
  case neg =>
    by_cases h₂ : tInfomask tup &&& heapHasnull ≠ 0 ∧ tup[23]?.getD 0 &&& 1 = 0
    case pos => rw [if_neg h₁, if_pos h₂] at h; cases h
    case neg =>
      rw [if_neg h₁, if_neg h₂] at h
      exact Nat.le_of_eq (Option.some.inj h)

-- PostgreSQL's `heap_deform_tuple` for such a table.
def deformOnlyColumn : DeformTuple where
  run tup               := .ok [onlyColumn tup]
  same _ _ h            := by rw [onlyColumn_same h]
  data _ _ _ h hv       := by
    rw [←Except.ok.inj h, List.mem_singleton] at hv
    exact onlyColumn_data hv.symm

-- AES-128 of the counter blocks 509 and 510 under the all-zero key.
def externalPlatform : Platform := .x86 [
  (509, [0x55, 0xA0, 0x70, 0x3B, 0x61, 0x2F, 0x67, 0x6C, 0xCC, 0xF2, 0x11, 0x98, 0xC8, 0x31, 0x85, 0x1F]),
  (510, [0x7C, 0x20, 0x5B, 0x0B, 0x0D, 0xB2, 0xC4, 0x14, 0x39, 0x46, 0xE4, 0x09, 0x29, 0x74, 0xF2, 0xE5])]

-- A tuple with one attribute, which is external: the value 16400 of the TOAST table 16390.
def externalItem : List UInt8 :=
  List.replicate 18 0 ++ [1, 0, 6, 0, 24, 0] ++
    [1, 18, 100, 0, 0, 0, 96, 0, 0, 0, 0x10, 0x40, 0, 0, 0x06, 0x40, 0, 0]

def externalTuple : StoredTuple externalPlatform deformOnlyColumn where
  relkind    := .relation
  ordinary   := by decide
  key        := fun _ => 0
  bn         := 0
  page       := Memory.zero.write 8144 (encryptedItem (externalPlatform.keystream fun _ => 0) 0 8144 externalItem)
  offnum     := 1
  lp         := ⟨8144, .normal, 42⟩
  fits       := by decide
  header     := by decide
  hoff_le    := by decide
  plain      := externalItem
  stored     := by
    rw [Platform.pgTdeExecStoreBufferHeapTuple, Platform.execStoreTuple, if_pos (by decide),
      Platform.pgTdeCryptTuple_eq (by decide) (by decide) (by decide)]
    decide
  values     := [some 24]
  deformed   := by decide
  noExternal := by decide

def externalDelete : TupleRemoval deformOnlyColumn :=
  .delete { xmax := 700, infomask := 0, infomask2 := 0x2000, infomask_bits := by decide, infomask2_bits := by decide }
    0 false false

-- The pointer is not found in the encrypted tuple, so that the external value is left behind.
theorem not_deletesUnneeded_externalTuple : ¬externalTuple.DeletesUnneeded externalDelete := by
  rw [StoredTuple.DeletesUnneeded, StoredTuple.deleted_eq]
  decide
