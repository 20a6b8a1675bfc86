import PgTde.Page.Theorems.RoundTrip
import PgTde.Rewrite.Table

section Header

variable {tup ctid : List UInt8} {k : Keystream} {bn a : Nat}

theorem length_storeCtid (hc : ctid.length = 6) (hl : 18 ≤ tup.length) :
    (storeCtid ctid tup).length = tup.length := by
  rw [storeCtid, List.length_append, List.length_append, List.length_take, List.length_drop, hc]
  omega

theorem drop_storeCtid (hc : ctid.length = 6) (hl : 18 ≤ tup.length) {n : Nat} (hn : 18 ≤ n) :
    (storeCtid ctid tup).drop n = tup.drop n := by
  obtain ⟨m, rfl⟩ := Nat.exists_eq_add_of_le hn
  have h : (tup.take 12 ++ ctid).length = 18 := by
    rw [List.length_append, List.length_take, hc]
    omega
  rw [storeCtid, ←List.drop_drop, List.drop_left' h, List.drop_drop]

theorem storeCtid_storeCtid {ctid' : List UInt8} (hc : ctid.length = 6) (hl : 12 ≤ tup.length) :
    storeCtid ctid' (storeCtid ctid tup) = storeCtid ctid' tup := by
  have ht : (tup.take 12).length = 12 := by
    rw [List.length_take]
    omega
  have h : (tup.take 12 ++ ctid).length = 18 := by rw [List.length_append, ht, hc]
  rw [storeCtid, storeCtid, List.drop_left' h, List.append_assoc (tup.take 12), List.take_left' ht, storeCtid]

theorem itemHoff_storeCtid (hc : ctid.length = 6) (hl : 18 ≤ tup.length) :
    itemHoff (storeCtid ctid tup) = itemHoff tup := by
  have h := congrArg (·[4]?) (drop_storeCtid hc hl (Nat.le_refl 18))
  simp only [List.getElem?_drop] at h
  rw [itemHoff, itemHoff, h]

-- The address is not encrypted.
theorem encryptedItem_storeCtid (hc : ctid.length = 6) (hl : itemHoff tup ≤ tup.length)
    (hh : sizeofHeapTupleHeaderData ≤ itemHoff tup) :
    encryptedItem k bn a (storeCtid ctid tup) = storeCtid ctid (encryptedItem k bn a tup) := by
  have hh' : 18 ≤ itemHoff tup := Nat.le_trans (by decide) hh
  have h : (tup.take 12 ++ ctid).length = 18 := by
    rw [List.length_append, List.length_take, hc]
    omega
  have ht : (storeCtid ctid tup).take (itemHoff tup) = storeCtid ctid (tup.take (itemHoff tup)) := by
    rw [storeCtid, List.take_append, h, List.take_of_length_le (h ▸ hh'), storeCtid, List.take_take,
      Nat.min_eq_left (by omega), List.drop_take]
  have hl' : 18 ≤ (tup.take (itemHoff tup)).length := by
    rw [List.length_take]
    omega
  rw [encryptedItem, itemHoff_storeCtid hc (by omega), drop_storeCtid hc (by omega) (by omega), ht, encryptedItem]
  simp only [storeCtid]
  rw [List.take_append_of_le_length (by omega), List.drop_append_of_le_length hl', List.append_assoc]

end Header

-- A tuple that has been stored at a place of the new heap, with its data not encrypted.
structure PlacedTuple where
  loc   : ItemPointer
  bytes : List UInt8

namespace Page

variable {k : Keystream} {bn off : Nat} {page p : Page} {es : List PlacedTuple} {item final : List UInt8}

-- A tuple of the page, which is encrypted for its place.
structure Carried (k : Keystream) (bn : Nat) (page : Page) (e : PlacedTuple) (a : Nat) : Prop where
  line     : page.getItemId e.loc.offnum = some ⟨a, .normal, e.bytes.length⟩
  upper_le : page.pdUpper ≤ a
  le_size  : a + e.bytes.length ≤ blcksz
  fits     : FitsOnPage e.bytes
  read     : page.mem.read a e.bytes.length = encryptedItem k bn a e.bytes

-- The page with the number `bn` has those tuples that are placed on it, and no others.
structure Carries (k : Keystream) (bn : Nat) (page : Page) (es : List PlacedTuple) : Prop where
  lower_le   : page.pdLower ≤ page.pdUpper
  upper_le   : page.pdUpper ≤ page.pdSpecial
  special_le : page.pdSpecial ≤ blcksz
  items      : ∀ e ∈ es, e.loc.blkno = bn → ∃ a, page.Carried k bn e a
  only       : ∀ off lp, page.getItemId off = some lp → ∃ e ∈ es, e.loc = ⟨bn, off⟩

theorem init_carries (h : ∀ e ∈ es, e.loc.blkno ≠ bn) : Page.init.Carries k bn es where
  lower_le       := by decide
  upper_le       := by decide
  special_le     := by decide
  items e he hb  := absurd hb (h e he)
  only off lp hl := by
    rw [getItemId] at hl
    split at hl <;> cases hl

-- A tuple that is placed elsewhere.
theorem Carries.elsewhere {e : PlacedTuple} (h : page.Carries k bn es) (he : e.loc.blkno ≠ bn) :
    page.Carries k bn (e :: es) where
  lower_le       := h.lower_le
  upper_le       := h.upper_le
  special_le     := h.special_le
  items          := List.forall_mem_cons.mpr ⟨fun hb => absurd hb he, h.items⟩
  only off lp hl := by
    obtain ⟨u, hu, heq⟩ := h.only off lp hl
    exact ⟨u, List.mem_cons_of_mem _ hu, heq⟩

-- No tuple is placed where a line pointer is free.
theorem Carries.fresh (h : page.Carries k bn es) (hs : page.Stored item p off) :
    ∀ e ∈ es, e.loc ≠ ⟨bn, off⟩ := by
  intro e he heq
  obtain ⟨a, hc⟩ := h.items e he (congrArg ItemPointer.blkno heq)
  have hl := hc.line
  rw [heq] at hl
  refine hs.unused _ hl ?_
  have hf := hc.fits.header
  have hh := hc.fits.hoff_le
  simp only [sizeofHeapTupleHeaderData] at hf
  simp only [ItemIdData.hasStorage, ne_eq, decide_eq_true_eq]
  omega

-- An item has been stored. Its bytes, those of `final`, have been changed in their place since then.
theorem Carries.add {mem : Memory} (h : page.Carries k bn es) (hs : page.Stored item p off)
    (hl : final.length = item.length) (hf : FitsOnPage final) (ha : ∀ x ≥ page.pdUpper, mem x = p.mem x)
    (hr : mem.read p.pdUpper final.length = encryptedItem k bn p.pdUpper final) :
    Carries k bn { p with mem } (⟨⟨bn, off⟩, final⟩ :: es) where
  lower_le   := hs.lower
  upper_le   := by
    have hu := hs.upper
    have hp := h.upper_le
    rw [hs.special]
    simp only
    omega
  special_le := hs.special ▸ h.special_le
  items      := by
    have hu := hs.upper
    have hsp := hs.space
    have hm := le_maxalign item.length
    have hp := h.upper_le
    have hsz := h.special_le
    refine List.forall_mem_cons.mpr ⟨fun _ => ⟨p.pdUpper, hl ▸ hs.line, Nat.le_refl _, ?_, hf, hr⟩, ?_⟩
    · simp only
      omega
    · intro e he hb
      obtain ⟨a, hc⟩ := h.items e he hb
      have hua := hc.upper_le
      have hne : e.loc.offnum ≠ off := by
        intro heq
        exact h.fresh hs e he (by rw [←heq, ←hb])
      refine ⟨a, (hs.lines _ hne).trans hc.line, ?_, hc.le_size, hc.fits, ?_⟩
      · simp only
        omega
      · rw [←hc.read]
        apply Memory.read_congr
        intro i _
        exact (ha _ (by omega)).trans (hs.frame _ (.inr (by omega)))
  only       := by
    intro i lp hi
    by_cases ho : i = off
    case pos => exact ⟨_, List.mem_cons_self, by rw [ho]⟩
    case neg =>
      obtain ⟨e, he, heq⟩ := h.only i lp ((hs.lines i ho).symm.trans hi)
      exact ⟨e, List.mem_cons_of_mem _ he, heq⟩

theorem Stored.added (h : page.Stored item p off) : page.Added item p off :=
  { h with lines := .inl ⟨h.unused, h.lines⟩ }

theorem Stored.read_encrypted (h : page.Stored item p off) (hf : FitsOnPage item) :
    (Platform.encrypted k bn item p).mem.read p.pdUpper item.length = encryptedItem k bn p.pdUpper item := by
  let tup : TupleImage := ⟨item, Nat.le_trans (by decide) hf.header, hf.hoff_le⟩
  have hl : item.length = tup.header.length + tup.userData.length := by
    rw [←List.length_append, tup.header_append_userData]
  have ha : page.Added tup.bytes p off := h.added
  have hh : (Platform.encrypted k bn item p).mem.read p.pdUpper tup.header.length = tup.header := ha.mem_header
  have hd : (Platform.encrypted k bn item p).mem.read (p.pdUpper + itemHoff item) tup.userData.length =
    k.xor (offsetInFile bn p.pdUpper) tup.userData := @Added.mem_userData bn p tup k
  rw [hl, Memory.read_add, hh, tup.length_header, hd]
  rfl

theorem Stored.above_encrypted (h : page.Stored item p off) (hf : FitsOnPage item) :
    ∀ x ≥ page.pdUpper, (Platform.encrypted k bn item p).mem x = p.mem x := by
  intro x hx
  have hu := h.upper
  have hs := h.space
  have hm := le_maxalign item.length
  have hh := hf.hoff_le
  simp only [Platform.encrypted]
  rw [Memory.write_of_ge (by simp; omega)]

end Page
