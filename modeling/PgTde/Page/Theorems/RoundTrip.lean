import PgTde.Page.RoundTrip
import PgTde.Page.Theorems.AddItemExtended

open Cint

variable {P : Platform} {key : Block} {bn : Nat}

namespace TupleImage

variable (tup : TupleImage)

theorem length_header : tup.header.length = itemHoff tup.bytes := by
  rw [header, List.length_take, Nat.min_eq_left tup.hoff_le]

theorem length_userData : tup.userData.length = tup.bytes.length - itemHoff tup.bytes := by
  rw [userData, List.length_drop]

theorem header_append_userData : tup.header ++ tup.userData = tup.bytes :=
  List.take_append_drop ..

end TupleImage

-- Equal bytes from the start of a tuple on decrypt to the same data.
theorem Platform.pgTdeCryptTuple_congr {m m' : Memory} {a len : Nat} (h : ∀ x ≥ a, m' x = m x) :
    P.pgTdeCryptTuple bn m' a len key = P.pgTdeCryptTuple bn m a len key := by
  have hh : tHoff m' a = tHoff m a := congrArg UInt8.toNat (h _ (Nat.le_add_right a 22))
  simp only [pgTdeCryptTuple, tupleDataLen, hh]
  congr 1
  apply Memory.read_congr
  intro i _
  exact h _ (by omega)

namespace Page.Added

open Platform

variable {p q : Page} {tup : TupleImage} {off : Nat}

theorem upper_eq (h : p.Added tup.bytes q off) : q.pdUpper + maxalign tup.bytes.length = p.pdUpper := by
  have := h.upper
  have := h.space
  omega

-- The bytes behind the old `pd_upper` stay as they are.
theorem mem_above (h : p.Added tup.bytes q off) {k : Keystream} (x : Nat) (hx : p.pdUpper ≤ x) :
    (encrypted k bn tup.bytes q).mem x = p.mem x := by
  have hu := h.upper_eq
  have hm := le_maxalign tup.bytes.length
  have hh := tup.hoff_le
  simp only [encrypted]
  rw [Memory.write_of_ge (by simp; omega)]
  exact h.frame x (.inr (by omega))

theorem mem_header (h : p.Added tup.bytes q off) {k : Keystream} :
    (encrypted k bn tup.bytes q).mem.read q.pdUpper tup.header.length = tup.header := by
  have hl : tup.bytes.length = tup.header.length + tup.userData.length := by
    rw [←List.length_append, tup.header_append_userData]
  have hb : q.mem.read q.pdUpper tup.header.length ++
      q.mem.read (q.pdUpper + tup.header.length) tup.userData.length = tup.header ++ tup.userData := by
    rw [←Memory.read_add, ←hl, tup.header_append_userData]
    exact h.bytes
  simp only [encrypted]
  rw [Memory.read_write_disjoint (.inl (by rw [tup.length_header]))]
  exact (List.append_inj hb (by simp)).1

theorem mem_userData {k : Keystream} :
    (encrypted k bn tup.bytes q).mem.read (q.pdUpper + itemHoff tup.bytes) tup.userData.length =
    k.xor (offsetInFile bn q.pdUpper) tup.userData := by
  have hr := @Memory.read_write q.mem (q.pdUpper + itemHoff tup.bytes)
    (k.xor (offsetInFile bn q.pdUpper) tup.userData)
  rwa [Keystream.length_xor] at hr

-- The length of the header is a byte of the header.
theorem tHoff_eq (h : p.Added tup.bytes q off) {k : Keystream} :
    tHoff (encrypted k bn tup.bytes q).mem q.pdUpper = itemHoff tup.bytes := by
  have hf : 22 < tup.header.length := tup.length_header ▸ tup.fixed
  have hb : ((encrypted k bn tup.bytes q).mem.read q.pdUpper tup.header.length)[22]? = tup.header[22]? :=
    congrArg (·[22]?) h.mem_header
  rw [Memory.getElem?_read hf, TupleImage.header, List.getElem?_take_of_lt tup.fixed] at hb
  rw [tHoff, itemHoff, ←hb]
  rfl

-- What the reader computes from the line pointer is what the writer has computed from `pd_upper`.
theorem crypt_item (h : p.Added tup.bytes q off) (hu : p.pdUpper ≤ blcksz) :
    P.pgTdeCryptTuple bn (encrypted (P.keystream key) bn tup.bytes q).mem q.pdUpper tup.bytes.length key =
    .ok tup.userData := by
  have hq := h.upper_eq
  have hm := le_maxalign tup.bytes.length
  have hh : tHoff (encrypted (P.keystream key) bn tup.bytes q).mem q.pdUpper = itemHoff tup.bytes := h.tHoff_eq
  rw [pgTdeCryptTuple_eq (by omega) (by omega) (hh ▸ tup.hoff_le), hh, ←tup.length_userData,
    mem_userData, Keystream.xor_xor]

theorem execStore_item (h : p.Added tup.bytes q off) (hu : p.pdUpper ≤ blcksz) {relkind : Relkind}
    (hr : relkind ≠ .toastvalue) :
    P.execStoreTuple relkind bn key (encrypted (P.keystream key) bn tup.bytes q).mem
      ⟨q.pdUpper, .normal, tup.bytes.length⟩ = .ok tup.bytes := by
  have hl : tup.bytes.length = tup.header.length + tup.userData.length := by
    rw [←List.length_append, tup.header_append_userData]
  simp only [execStoreTuple, ne_eq, hr, not_false_eq_true, if_true, h.crypt_item hu, h.tHoff_eq,
    Outcome.ok_bind, Outcome.pure_eq]
  rw [hl, Memory.read_add, h.mem_header, List.take_left' tup.length_header, tup.header_append_userData]

-- All other items are found under their old offset number, or under the next one.
theorem other_item (h : p.Added tup.bytes q off) {i : Nat} {lp : ItemIdData}
    (hi : p.getItemId i = some lp) (hs : lp.hasStorage) : ∃ j ≠ off, q.getItemId j = some lp := by
  obtain ⟨hn, he⟩ | ⟨hl, hg⟩ := h.lines
  · have hne : i ≠ off := by
      rintro rfl
      exact hn lp hi hs
    exact ⟨i, hne, (he i hne).trans hi⟩
  · by_cases hlt : i < off
    case pos => exact ⟨i, Nat.ne_of_lt hlt, (hl i hlt).trans hi⟩
    case neg => exact ⟨i + 1, by omega, (hg i (Nat.not_lt.mp hlt)).trans hi⟩

end Page.Added

theorem Page.mem_of_getItemId {p : Page} {i : Nat} {lp : ItemIdData} (h : p.getItemId i = some lp) :
    lp ∈ p.linp := by
  rw [getItemId] at h
  split at h
  case isTrue  => cases h
  case isFalse => exact List.mem_of_getElem? h

open Platform in
-- Whatever offset number and flags a tuple is added with, it can be read back from the page, if it has been
-- added at all.
theorem ItemPage.addItem_readsBack (page : ItemPage) (P : Platform) (add : PageAddItemExtended) (key : Block)
    (bn offsetNumber : Nat) (flags : PaiFlags) (tup : TupleImage)
    (hs : (add.run offsetNumber flags page.toPage tup.bytes).2 ≠ invalidOffsetNumber) :
    ∃ q off, P.pgTdePageAddItemExtended (add.run offsetNumber flags) key bn page.toPage tup.bytes = .ok (q, off) ∧
      off = (add.run offsetNumber flags page.toPage tup.bytes).2 ∧
      page.ReadsBack P key bn tup q off := by
  have h := add.stored offsetNumber flags page.toPage tup.bytes hs
  have hu := page.upper_le
  have hq := h.upper_eq
  have hm := le_maxalign tup.bytes.length
  have hb : blcksz ≤ 2 ^ 30 := by decide
  refine ⟨_, _, pgTdePageAddItemExtended_eq (by omega) tup.hoff_le (by omega), rfl, ?_, ?_⟩
  · exact ⟨_, h.line, h.mem_header, h.crypt_item hu, fun _ hr => ⟨h.execStore_item hu hr, h.execStore_item hu hr⟩⟩
  · intro i lp hi hst
    obtain ⟨j, hj, hl⟩ := h.other_item hi hst
    have hle := page.items lp (Page.mem_of_getItemId hi) hst
    refine ⟨j, hj, hl, Memory.read_congr fun x _ => h.mem_above _ (by omega), ?_⟩
    exact pgTdeCryptTuple_congr fun x hx => h.mem_above x (by omega)

-- A tuple of 40 bytes with 16 bytes of data, at the end of a page.
def lastTuple : ItemIdData := ⟨8152, .normal, 40⟩

theorem lastTuple_above : ∀ lp ∈ [lastTuple], lp.hasStorage → 8152 ≤ lp.lpOff := by
  decide

theorem lastTuple_upper_le : 8152 ≤ blcksz := by
  decide

def lastTuplePage : ItemPage where
  pdUpper        := 8152
  pdSpecial      := blcksz
  pdHasFreeLines := false
  linp           := [lastTuple]
  mem            := fun a => if a = 8174 then 24 else 0
  upper_le       := lastTuple_upper_le
  items          := lastTuple_above

def shortTuple : TupleImage where
  bytes   := List.replicate 22 0 ++ [24, 0] ++ List.replicate 16 97
  fixed   := by decide
  hoff_le := by decide

-- The line pointer of the last tuple is moved for the short one.
theorem lastTuplePage_readsBack : ∃ q off,
    (Platform.x86 []).pgTdePageAddItemExtended (pageAddItemExtended.run 1 ⟨false, true⟩) (fun _ => 0) 524289
      lastTuplePage.toPage shortTuple.bytes = .ok (q, off) ∧
    off = 1 ∧ lastTuplePage.ReadsBack (.x86 []) (fun _ => 0) 524289 shortTuple q off :=
  lastTuplePage.addItem_readsBack (.x86 []) pageAddItemExtended (fun _ => 0) 524289 1 ⟨false, true⟩ shortTuple
    (by decide)
