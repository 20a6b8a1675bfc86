import PgTde.Insert.Theorems.Log

open Cint Platform

variable {P : Platform} {routines : InsertRoutines} {key : Block} {bn off d : Nat}
variable {p p' q r : Page} {htup : List UInt8} {xid newXmax : UInt32}
variable {addItem : Nat → Page → List UInt8 → Outcome (Page × Nat)}
variable {image : Nat → List UInt8 → List UInt8}

-- A way to add tuples at redo that puts them where PostgreSQL puts them. `image` is what is stored of a tuple,
-- depending on where it starts.
structure StoresAs (addItem : Nat → Page → List UInt8 → Outcome (Page × Nat))
    (image : Nat → List UInt8 → List UInt8) : Prop where
  length : ∀ a htup, (image a htup).length = htup.length
  adds   : ∀ q htup off, q.pdUpper ≤ q.pdSpecial → q.pdSpecial ≤ blcksz → itemHoff htup ≤ htup.length →
    q.Fits htup redoFlags off → ∃ r, addItem off q htup = .ok (r, off) ∧ q.Stored (image r.pdUpper htup) r off

theorem run_of_fits (add : PageAddItemExtended) (hu : q.pdUpper ≤ q.pdSpecial)
    (hs : q.pdSpecial ≤ blcksz) (hf : q.Fits htup redoFlags off) : (add.run off redoFlags q htup).2 = off ∧
    q.Stored htup (add.run off redoFlags q htup).1 off := by
  have ho := add.overwrites off redoFlags q htup rfl hu hs hf
  have hn : (add.run off redoFlags q htup).2 ≠ invalidOffsetNumber := ho.symm ▸ hf.pos
  have ha := add.stored off redoFlags q htup hn
  obtain ⟨hf, hl⟩ := add.inPlace off redoFlags q htup hn (.inr rfl)
  rw [ho] at ha hf hl
  exact ⟨ho, { ha with unused := fun lp he => (hf.free lp he).2, lines := hl }⟩

theorem addItemVerbatim_storesAs (add : PageAddItemExtended) :
    StoresAs (addItemVerbatim add) fun _ htup => htup where
  length _ _ := rfl
  adds q htup off hu hs _ hf := by
    obtain ⟨ho, hst⟩ := run_of_fits add hu hs hf
    exact ⟨_, congrArg Except.ok (Prod.ext rfl ho), hst⟩

theorem stored_encrypted {k : Keystream} (h : q.Stored htup r off) (hh : itemHoff htup ≤ htup.length) :
    q.Stored (encryptedItem k bn r.pdUpper htup) (encrypted k bn htup r) off := by
  have hf (a) (ha : a < r.pdUpper ∨ r.pdUpper + htup.length ≤ a) :
      (encrypted k bn htup r).mem a = r.mem a := by
    simp only [encrypted]
    cases ha
    case inl ha => exact Memory.write_of_lt (by omega)
    case inr ha => exact Memory.write_of_ge (by simp; omega)
  have hb : (encrypted k bn htup r).mem.read r.pdUpper htup.length = encryptedItem k bn r.pdUpper htup := by
    have ht : r.mem.read r.pdUpper (itemHoff htup) = htup.take (itemHoff htup) := by
      have hb := congrArg (·.take (itemHoff htup)) h.bytes
      rw [show htup.length = itemHoff htup + (htup.length - itemHoff htup) by omega] at hb
      simpa only [Memory.read_add, List.take_left' Memory.length_read] using hb
    have hx := @Memory.read_write r.mem (r.pdUpper + itemHoff htup)
      (k.xor (offsetInFile bn r.pdUpper) (htup.drop (itemHoff htup)))
    rw [Keystream.length_xor, List.length_drop] at hx
    rw [show htup.length = itemHoff htup + (htup.length - itemHoff htup) by omega, Memory.read_add]
    simp only [encrypted, encryptedItem]
    rw [Memory.read_write_disjoint (.inl (Nat.le_refl _)), ht, hx]
  exact hb ▸ h.rewritten hf

theorem tdePageAddItem_storesAs (P : Platform) (add : PageAddItemExtended) (key : Block) (bn : Nat) :
    StoresAs (P.tdePageAddItem add key bn) (encryptedItem (P.keystream key) bn) where
  length _ _ := length_encryptedItem
  adds q htup off hu hs hh hf := by
    obtain ⟨ho, hst⟩ := run_of_fits add hu hs hf
    have hsp := hst.upper_eq
    have hm := le_maxalign htup.length
    have hb : blcksz ≤ 2 ^ 30 := by decide
    refine ⟨encrypted (P.keystream key) bn htup (add.run off redoFlags q htup).1, ?_, stored_encrypted hst hh⟩
    rw [Platform.tdePageAddItem, pgTdePageAddItemExtended_eq (by omega) hh (by omega), ho]

-- One step of redo. `image` is what is stored of a tuple.
structure RedoStep (addItem : Nat → Page → List UInt8 → Outcome (Page × Nat))
    (image : Nat → List UInt8 → List UInt8) (q : Page) (item : Nat × List UInt8) (r : Page) : Prop where
  pos    : item.1 ≠ invalidOffsetNumber
  le     : item.1 ≤ q.getMaxOffsetNumber + 1
  adds   : addItem item.1 q item.2 = .ok (r, item.1)
  stored : q.Stored (image r.pdUpper item.2) r item.1

theorem redoAddItems_of_runs {items : List (Nat × List UInt8)} (h : Runs (RedoStep addItem image) q items r) :
    redoAddItems addItem q items = .ok r := by
  induction h
  case nil           => rfl
  case cons hs _ i =>
    simp [redoAddItems, redoAddItem, Nat.not_lt.mpr hs.le, hs.adds, hs.pos, i]

section Rebuilt

variable {after : Page} {a : HeapTuple × Nat}

theorem length_rebuilt : (rebuilt xid newXmax bn after a).2.length = a.1.tData.length := by
  have hl := @PutAt.length_pos a
  rw [rebuilt, length_redoTuple, Memory.length_read]
  simp only [sizeofHeapTupleHeader]
  omega

theorem itemHoff_rebuilt : itemHoff (rebuilt xid newXmax bn after a).2 = a.1.header.bytes.length :=
  HeapTuple.itemHoff_tData

theorem itemHoff_rebuilt_le :
    itemHoff (rebuilt xid newXmax bn after a).2 ≤ (rebuilt xid newXmax bn after a).2.length := by
  rw [itemHoff_rebuilt, length_rebuilt, HeapTuple.length_tData]
  exact Nat.le_add_right _ _

theorem le_itemHoff_rebuilt : sizeofHeapTupleHeader ≤ itemHoff (rebuilt xid newXmax bn after a).2 := by
  rw [itemHoff_rebuilt]
  exact Nat.le_trans (by decide) a.1.header.size

-- A step of redo can be taken if the tuple fits under its offset number.
theorem redoStep_of_fits (hs : StoresAs addItem image) (hu : q.pdUpper ≤ q.pdSpecial)
    (hsp : q.pdSpecial ≤ blcksz) (hf : q.Fits (rebuilt xid newXmax bn after a).2 redoFlags a.2) :
    ∃ r, RedoStep addItem image q (rebuilt xid newXmax bn after a) r := by
  obtain ⟨r, hr, hst⟩ := hs.adds q _ _ hu hsp itemHoff_rebuilt_le hf
  exact ⟨r, hf.pos, hf.le, hr, hst⟩

theorem length_image (hs : StoresAs addItem image) {p₁ q₁ : Page} :
    (image q₁.pdUpper (rebuilt xid newXmax bn after a).2).length =
    (p₁.mem.read p₁.pdUpper a.1.tData.length).length := by
  rw [hs.length, length_rebuilt, Memory.length_read]

-- Redo does the same to a page that mirrors the one on the primary.
theorem redoStep_mirrors (hs : StoresAs addItem image) (h : PutAt P key bn p a p') (hm : p.Mirrors d q) :
    ∃ q', RedoStep addItem image q (rebuilt xid newXmax bn after a) q' ∧ p'.Mirrors d q' := by
  obtain ⟨q', hq⟩ := redoStep_of_fits hs hm.le hm.special (hm.fits length_rebuilt h.fits)
  exact ⟨q', hq, hm.stored (length_image hs) h.stored hq.stored⟩

end Rebuilt

-- A tuple that fits under the first line pointer of a page fits on a new one.
theorem fits_init {tup : HeapTuple} (hu : p.pdUpper ≤ blcksz) (hl : htup.length = tup.tData.length)
    (hf : p.Fits tup.tData redoFlags 1) :
    Page.init.Fits htup redoFlags 1 where
  pos   := by decide
  le    := by decide
  free  := by
    intro lp h
    cases h
  count := fun _ => by decide
  space := by
    have hs := hf.space
    simp only [Page.pdLower, Page.init, hl, List.length_nil, Nat.zero_add, if_true, sizeOfPageHeaderData,
      sizeofItemIdData] at hs ⊢
    by_cases hp : 1 = p.linp.length + 1
    case pos => rw [if_pos hp] at hs; omega
    case neg => rw [if_neg hp] at hs; omega

-- A blank page has no item with storage, if a tuple fits under its first line pointer.
theorem Page.Fits.storage_of_blank {item : List UInt8} {flags : PaiFlags} (hf : p.Fits item flags 1)
    (hb : ∀ i ≠ 1, p.getItemId i = none) (lp : ItemIdData) (h : lp ∈ p.linp) : ¬lp.hasStorage := by
  obtain ⟨n, hn⟩ := List.mem_iff_getElem?.mp h
  cases n
  case zero   => exact (hf.free lp hn).2
  case succ n =>
    have hn' : p.getItemId (n + 2) = some lp := hn
    simp [hb (n + 2) (by omega)] at hn'

namespace Logged

variable (l : Logged P routines)

-- Redo succeeds, on a page that mirrors the one on the primary in the end. If the page is initialized and
-- was not empty up to its end, the tuples move up to there.
theorem redo_mirrors (hs : StoresAs addItem image) (xid : UInt32) : ∃ q₀ newXmax q d,
    pgTdeRedo addItem xid l.bn l.before l.record = .ok q ∧
    Runs (RedoStep addItem image) q₀ (l.placed.map (rebuilt xid newXmax l.bn l.after)) q ∧
    l.after.Mirrors d q ∧ l.before.pdUpper + d ≤ blcksz ∧
    (((∀ lp ∈ l.before.linp, ¬lp.hasStorage) → l.before.pdUpper = l.before.pdSpecial) → d = 0) := by
  obtain ⟨initPage, newXmax, hb, hr⟩ := l.redoAdds
  have hruns := l.runs
  have hu := l.upper_le
  have hsp := l.special
  have hstep {d : Nat} : ∀ p a p' q, PutAt P l.key l.bn p a p' → p.Mirrors d q →
      ∃ q', RedoStep addItem image q (rebuilt xid newXmax l.bn l.after a) q' ∧ p'.Mirrors d q' :=
    fun _ _ _ _ => redoStep_mirrors hs
  cases initPage
  case false =>
    have hm : l.before.Mirrors 0 l.before := .refl (by omega) (by omega)
    obtain ⟨q, hq, hm⟩ := hruns.simulate hstep hm
    exact ⟨l.before, newXmax, q, 0, (hr ..).trans (redoAddItems_of_runs hq), hq, hm, hu, fun _ => rfl⟩
  case true  =>
    obtain ⟨tup, rest, hp, hn⟩ := hb rfl
    rw [hp] at hruns hr ⊢
    cases hruns
    case cons p₁ hput hruns =>
      obtain ⟨q₁, hq₁⟩ : ∃ q₁, RedoStep addItem image .init (rebuilt xid newXmax l.bn l.after (tup, 1)) q₁ :=
        redoStep_of_fits hs (by decide) (by decide) (fits_init hu length_rebuilt hput.fits)
      have hi (i) (hi : i ≠ 1) : Page.init.getItemId i =
          (l.before.getItemId i).map (ItemIdData.shift (blcksz - l.before.pdUpper)) := by
        rw [hn i hi]
        cases i <;> rfl
      have hm₁ : p₁.Mirrors (blcksz - l.before.pdUpper) q₁ :=
        hput.stored.mirrors hq₁.stored (Nat.add_sub_of_le hu).symm (length_image hs) hi (by decide) (by decide)
      obtain ⟨q, hq, hm⟩ := hruns.simulate hstep hm₁
      refine ⟨.init, newXmax, q, _, (hr ..).trans (redoAddItems_of_runs (.cons hq₁ hq)), .cons hq₁ hq, hm,
        Nat.le_of_eq (Nat.add_sub_of_le hu), ?_⟩
      intro he
      have hu' := he fun lp hlp => (hput.fits.storage_of_blank hn lp hlp)
      rw [hu', hsp, Nat.sub_self]

end Logged

-- What `pg_tde_crypt_tuple` makes of bytes that are a tuple.
theorem crypt_of_read {m : Memory} {a len : Nat} {item : List UInt8} (h : m.read a len = item)
    (hf : sizeofHeapTupleHeader ≤ itemHoff item) (hh : itemHoff item ≤ item.length) (ha : a + len ≤ blcksz) :
    P.pgTdeCryptTuple bn m a len key =
    .ok ((P.keystream key).xor (offsetInFile bn a) (item.drop (itemHoff item))) := by
  have hl : item.length = len := by rw [←h, Memory.length_read]
  simp only [sizeofHeapTupleHeader] at hf
  have ht : tHoff m a = itemHoff item := by
    have hb := congrArg (·[22]?) h
    simp only [Memory.getElem?_read (show 22 < len by omega)] at hb
    rw [tHoff, itemHoff, ←hb]
    rfl
  rw [pgTdeCryptTuple_eq (by omega) (by omega) (by omega), ht, ←Memory.drop_read, h]

theorem PutAt.crypt {a : HeapTuple × Nat} (h : PutAt P key bn p a q) (hu : p.pdUpper ≤ blcksz) :
    P.pgTdeCryptTuple bn q.mem q.pdUpper a.1.tData.length key = .ok a.1.data := by
  have hq := h.upper_eq
  have hm := le_maxalign a.1.tData.length
  have hl : a.1.tData.length = a.1.header.bytes.length + a.1.data.length := HeapTuple.length_tData
  rw [pgTdeCryptTuple_eq (by omega) (by omega) (by rw [h.hoff]; omega), h.hoff, hl, Nat.add_sub_cancel_left,
    h.data, Keystream.xor_xor]

namespace Logged

variable {l : Logged P routines}

-- A tuple on the page of the primary.
structure OnPage (l : Logged P routines) (a : HeapTuple × Nat) (lp : ItemIdData) : Prop where
  line  : l.after.getItemId a.2 = some lp
  len   : lp.lpLen = a.1.tData.length
  le    : lp.lpOff + lp.lpLen ≤ l.before.pdUpper
  bytes : l.after.mem.read (lp.lpOff + a.1.header.bytes.length) a.1.data.length =
    (P.keystream l.key).xor (offsetInFile l.bn lp.lpOff) a.1.data
  data  : P.pgTdeCryptTuple l.bn l.after.mem lp.lpOff lp.lpLen l.key = .ok a.1.data

theorem onPage {a : HeapTuple × Nat} (ha : a ∈ l.placed) : ∃ lp, l.OnPage a lp := by
  obtain ⟨p₁, p₂, hle, hput, hh⟩ := l.runs.get ha
  have hu := l.upper_le
  have hq := hput.upper_eq
  have hm := le_maxalign a.1.tData.length
  refine ⟨_, hh.line, rfl, by simp only; omega, ?_, ?_⟩
  · rw [←hput.data]
    exact Memory.read_congr fun i _ => hh.bytes _ (by simp only; omega)
  · rw [pgTdeCryptTuple_congr hh.bytes]
    exact hput.crypt (by omega)

-- Redo takes the bytes behind the fixed header from the record, which has them from the page.
theorem OnPage.drop_fixed {a : HeapTuple × Nat} {lp : ItemIdData} (h : l.OnPage a lp) :
    (rebuilt xid newXmax l.bn l.after a).2.drop sizeofHeapTupleHeader =
    l.after.mem.read (lp.lpOff + sizeofHeapTupleHeader) (lp.lpLen - sizeofHeapTupleHeader) := by
  rw [rebuilt, h.line, h.len]
  exact drop_redoTuple

-- In particular, its data is the encrypted data.
theorem OnPage.drop_header {a : HeapTuple × Nat} {lp : ItemIdData} (h : l.OnPage a lp) :
    (rebuilt xid newXmax l.bn l.after a).2.drop a.1.header.bytes.length =
    (P.keystream l.key).xor (offsetInFile l.bn lp.lpOff) a.1.data := by
  have hs := a.1.header.size
  simp only [sizeofHeapTupleHeaderData] at hs
  have hl : a.1.header.bytes.length =
      sizeofHeapTupleHeader + (a.1.header.bytes.length - sizeofHeapTupleHeader) := by
    simp only [sizeofHeapTupleHeader]
    omega
  rw [←h.bytes, hl, ←List.drop_drop, h.drop_fixed, Memory.drop_read, Nat.add_assoc, h.len, HeapTuple.length_tData]
  congr 1
  omega

theorem OnPage.redo {a : HeapTuple × Nat} {lp : ItemIdData} {q₀ : Page} (h : l.OnPage a lp)
    (hs : StoresAs addItem image) (ha : a ∈ l.placed)
    (hr : Runs (RedoStep addItem image) q₀ (l.placed.map (rebuilt xid newXmax l.bn l.after)) q)
    (hm : l.after.Mirrors d q) :
    q.getItemId a.2 = some (lp.shift d) ∧
    q.mem.read (lp.lpOff + d) lp.lpLen = image (lp.lpOff + d) (rebuilt xid newXmax l.bn l.after a).2 := by
  obtain ⟨q₁, q₂, bs, cs, -, hst, hc⟩ := hr.exists_step (List.mem_map_of_mem ha)
  have hl : (image q₂.pdUpper (rebuilt xid newXmax l.bn l.after a).2).length = lp.lpLen := by
    rw [hs.length, length_rebuilt, h.len]
  have hh : q.Holds q₂.mem a.2 ⟨q₂.pdUpper, .normal, lp.lpLen⟩ := by
    have hpos := @PutAt.length_pos a
    have hn := hst.stored.holds_new (by rw [←List.length_pos_iff, hl, h.len]; omega)
    rw [hl] at hn
    exact hn.runs (fun _ _ _ hs => ⟨_, _, hs.stored⟩) hc
  have hline := hm.getItemId a.2
  rw [h.line] at hline
  have hu : q₂.pdUpper = lp.lpOff + d :=
    congrArg ItemIdData.lpOff (Option.some.inj (hh.line.symm.trans hline))
  have hb := hst.stored.bytes
  rw [hl] at hb
  refine ⟨hline, ?_⟩
  rw [←hu, ←hb]
  exact Memory.read_congr fun i _ => hh.bytes _ (Nat.le_add_right _ _)

end Logged
