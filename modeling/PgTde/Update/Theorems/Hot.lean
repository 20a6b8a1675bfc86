import PgTde.Insert.Theorems.Log
import PgTde.Update.Theorems.Columns

variable {P : Platform}

section

variable {l tup : List UInt8} {n : Nat}

-- A tuple with a header.
structure Formed (tup : List UInt8) : Prop where
  header  : sizeofHeapTupleHeaderData ≤ itemHoff tup
  hoff_le : itemHoff tup ≤ tup.length

theorem FormedTuple.formed (t : FormedTuple) : Formed t.bytes where
  header  := t.header
  hoff_le := t.hoff_le

-- Other values of the fields in front of t_hoff.
theorem Formed.of_drop (h : Formed tup) (hl : l.length = n) (hn : n ≤ 22) : Formed (l ++ tup.drop n) := by
  have hh := h.header
  have hle := h.hoff_le
  simp only [sizeofHeapTupleHeaderData] at hh
  have he : itemHoff (l ++ tup.drop n) = itemHoff tup := by
    rw [itemHoff, List.getElem?_append_right (by omega), List.getElem?_drop, hl, Nat.add_sub_cancel' hn]
    rfl
  constructor
  case header  => exact he ▸ h.header
  case hoff_le =>
    rw [he, List.length_append, List.length_drop]
    omega

theorem Formed.length_ge (h : Formed tup) : 24 ≤ tup.length :=
  h.header.trans h.hoff_le

theorem Formed.prepareNewtup {xid cid xmax : UInt32} {infomask infomask2 : UInt16} (h : Formed tup) :
    Formed (prepareNewtup xid cid xmax infomask infomask2 tup) := by
  have hl := h.length_ge
  apply h.of_drop
  case hl => simp; omega
  case hn => decide

theorem Formed.storeHeapOnly {b : Bool} (h : Formed tup) : Formed (storeHeapOnly b tup) := by
  have hl := h.length_ge
  apply h.of_drop
  case hl => simp; omega
  case hn => decide

end

namespace EncryptedTuple

variable {t : EncryptedTuple P} {page r : Page}

theorem keptBy_page (t : EncryptedTuple P) : t.KeptBy t.page where
  item        := t.item
  upper_le    := t.upper_le
  bytes _ _ _ := rfl

-- Changes of the header in front of t_hoff.
theorem KeptBy.changeHeader {f : List UInt8 → List UInt8} (h : t.KeptBy page) :
    t.KeptBy (page.changeHeader t.lp f) where
  item     := h.item
  upper_le := h.upper_le
  bytes    := by
    intro a hl hr
    rw [←h.bytes a hl hr]
    exact Memory.write_of_ge (by rw [List.length_take]; omega)

-- Another tuple that is put on the page.
theorem KeptBy.put {add : PageAddItem} {key : Block} {bn : Nat} {heaptup : List UInt8} (h : t.KeptBy page)
    (hf : Formed heaptup) (hr : P.pgTdeRelationPutHeapTuple add key bn page heaptup false = .ok r) :
    t.KeptBy r := by
  have hfits := t.fits
  have hu := h.upper_le
  have ho := run_ne_invalid hr
  have hs := add.stored page heaptup ho
  have ha : Platform.Addable page heaptup := by
    have hsp := hs.space
    have hm := le_maxalign heaptup.length
    exact ⟨by omega, by omega, hf.header, hf.hoff_le⟩
  have hp := Platform.put_of_ok ha hr
  constructor
  case item     =>
    have hn : t.offnum ≠ (add.run page heaptup).2 := by
      intro hn
      refine hs.unused t.lp (hn ▸ h.item) ?_
      have hh := t.header
      have hle := t.hoff_le
      simp only [sizeofHeapTupleHeaderData] at hh
      simp only [ItemIdData.hasStorage, ne_eq, decide_not, Bool.not_eq_true', decide_eq_false_iff_not]
      omega
    rw [Platform.pgTdeRelationPutHeapTuple_eq ha, if_neg ho] at hr
    rw [←Except.ok.inj hr]
    exact (hs.lines _ hn).trans h.item
  case upper_le =>
    rw [hp.upper]
    omega
  case bytes    =>
    intro a hl hr
    rw [hp.above a (by omega), h.bytes a hl hr]

theorem KeptBy.userData_eq (h : t.KeptBy page) : t.userData page = t.userData t.page := by
  have hh := t.header
  have hle := t.hoff_le
  simp only [sizeofHeapTupleHeaderData] at hh
  refine Memory.read_congr fun i hi => ?_
  simp only [EncryptedTuple.hoff] at hi ⊢
  exact h.bytes _ (by omega) (by omega)

end EncryptedTuple

namespace UpdateCall

variable {u : UpdateCall P} {page : Page}

theorem passes_kept {passes : List (UInt16 × Meanwhile u.old)} (h : u.old.KeptBy page) :
    u.old.KeptBy (passes.foldl u.checkPass page) := by
  induction passes generalizing page
  case nil             => exact h
  case cons pass _ hi => exact hi (pass.2.kept _ h.changeHeader)

theorem checkVisibility_kept (u : UpdateCall P) : u.old.KeptBy u.checkVisibility :=
  (passes_kept u.old.keptBy_page).changeHeader

theorem findBuffer_kept {heaptup : List UInt8} {pagefree : Nat} {relocks : List (Meanwhile u.old × Bool)}
    (h : u.old.KeptBy page) : u.old.KeptBy (u.findBuffer heaptup relocks pagefree page).page := by
  induction relocks generalizing page pagefree
  case nil =>
    rw [findBuffer]
    split <;> exact h
  case cons relock relocks hi =>
    have h := relock.1.kept _ h
    simp only [findBuffer]
    split
    case isTrue  => exact h
    case isFalse =>
      split
      · exact hi h
      · exact h

theorem findBuffer_heaptup {heaptup : List UInt8} {pagefree : Nat} {relocks : List (Meanwhile u.old × Bool)} :
    (u.findBuffer heaptup relocks pagefree page).heaptup = heaptup := by
  induction relocks generalizing page pagefree
  case nil =>
    rw [findBuffer]
    split <;> rfl
  case cons relock relocks hi =>
    simp only [findBuffer]
    split
    case isTrue  => rfl
    case isFalse =>
      split
      · exact hi
      · rfl

section

variable {lockmode : LockTupleMode} {cid : UInt32} {iscombo : Bool} {newtup : List UInt8}

theorem prepareStore_kept (h : u.old.KeptBy page) :
    u.old.KeptBy (u.prepareStore lockmode cid iscombo page newtup).page := by
  simp only [prepareStore]
  split
  case isTrue  => exact findBuffer_kept h.changeHeader
  case isFalse => exact h

theorem prepareStore_formed (h : Formed newtup) :
    Formed (u.prepareStore lockmode cid iscombo page newtup).heaptup := by
  simp only [prepareStore]
  split
  case isFalse => exact h
  case isTrue  =>
    rw [findBuffer_heaptup]
    split
    · exact FormedTuple.formed _
    · exact h

end

theorem store_kept {change : XmaxChange} {cid : UInt32} {iscombo useHotUpdate : Bool} {place : Place}
    {pages : Page × Option (Nat × Page)} (h : u.old.KeptBy place.page) (hf : Formed place.heaptup)
    (hr : u.store change cid iscombo useHotUpdate place = .ok pages) : u.old.KeptBy pages.1 := by
  obtain ⟨page, newbuf, heaptup⟩ := place
  cases newbuf
  case same  =>
    obtain ⟨q, hq, hr⟩ := Outcome.bind_eq_ok_iff.mp hr
    cases hr
    exact (h.changeHeader.put hf.storeHeapOnly hq).changeHeader
  case other =>
    obtain ⟨q, hq, hr⟩ := Outcome.bind_eq_ok_iff.mp hr
    cases hr
    exact h.changeHeader.changeHeader

theorem determineColumns_eq (u : UpdateCall P) : u.determineColumns = .ok (
    heapDetermineColumnsInfo u.tupdesc u.idAttrs ⟨u.tTableOid, u.old.plain⟩
      ⟨u.tTableOid, u.newtup.bytes⟩ u.interestingAttrs) := by
  rw [determineColumns, u.old.oldtupDecrypted_eq]
  rfl

-- The attributes are compared with those of the plaintext.
theorem modified_eq (u : UpdateCall P) :
    (heapDetermineColumnsInfo u.tupdesc u.idAttrs ⟨u.tTableOid, u.old.plain⟩
      ⟨u.tTableOid, u.newtup.bytes⟩ u.interestingAttrs).modified = u.interestingAttrs.filter u.Differs := by
  ext a
  rw [mem_modified_iff, modified_iff, Finset.mem_filter]
  rfl

theorem disjoint_of_useHotUpdate {modifiedAttrs : Bitmapset} {newbuf : NewBuf}
    (h : u.useHotUpdate modifiedAttrs newbuf) : Disjoint modifiedAttrs u.hotAttrs := by
  cases newbuf
  case same  => simpa [useHotUpdate] using h
  case other => cases h

theorem updateTuple_kept {modifiedAttrs : Bitmapset} {lockmode : LockTupleMode} {r : UpdateResult}
    (hp : u.old.KeptBy page) (h : u.updateTuple modifiedAttrs lockmode page = .ok r) :
    r.modifiedAttrs = modifiedAttrs ∧ (r.useHotUpdate → Disjoint modifiedAttrs u.hotAttrs) ∧
      u.old.KeptBy r.page := by
  obtain ⟨pages, hs, h⟩ := Outcome.bind_eq_ok_iff.mp h
  cases h
  exact ⟨rfl, disjoint_of_useHotUpdate,
    store_kept (prepareStore_kept hp) (prepareStore_formed u.newtup.formed.prepareNewtup) hs⟩

-- What an update that returns has done.
theorem pgTdeUpdate_kept {r : UpdateResult} (h : u.pgTdeUpdate = .ok r) :
    ∃ info, u.determineColumns = .ok info ∧ r.modifiedAttrs = info.modified ∧
      (r.useHotUpdate → Disjoint info.modified u.hotAttrs) ∧ u.old.KeptBy r.page := by
  rw [pgTdeUpdate] at h
  split at h
  case isTrue  => cases h
  case isFalse =>
    obtain ⟨info, hi, h⟩ := Outcome.bind_eq_ok_iff.mp h
    refine ⟨info, hi, ?_⟩
    simp only at h
    split at h
    case isTrue  => cases h
    case isFalse =>
      split at h
      case isTrue  =>
        cases h
        exact ⟨rfl, (absurd · Bool.false_ne_true), u.checkVisibility_kept⟩
      case isFalse => exact updateTuple_kept u.checkVisibility_kept h

end UpdateCall
