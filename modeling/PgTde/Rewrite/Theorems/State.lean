import PgTde.Rewrite.Theorems.Held

theorem itemPointer_length {bn off : Nat} : (itemPointer bn off).length = 6 :=
  rfl

-- The address of a tuple on a page.
structure IsOffset (off : Nat) : Prop where
  pos : off ≠ invalidOffsetNumber
  lt  : off < 2 ^ 16

theorem Page.isOffset {off : Nat} {page : Page} {lp : ItemIdData} (h : page.pdLower ≤ blcksz)
    (hl : page.getItemId off = some lp) : IsOffset off := by
  simp only [Page.pdLower, sizeOfPageHeaderData, sizeofItemIdData, blcksz] at h
  rw [Page.getItemId] at hl
  split at hl
  case isTrue       => cases hl
  case isFalse hpos =>
    obtain ⟨hlt, -⟩ := List.getElem?_eq_some_iff.mp hl
    exact ⟨hpos, by omega⟩

namespace RewriteState

-- The new heap has the tuples `es` behind the blocks that it started with, and no others.
structure Carries (k : Keystream) (newHeap : HeapRelation) (state : RewriteState) (es : List PlacedTuple) :
    Prop where
  key     : state.rsNewRel.key = newHeap.key
  relkind : state.rsNewRel.relkind = newHeap.relkind
  before  : newHeap.blocks <+: state.rsNewRel.blocks
  blockno : state.rsBlockno = state.rsNewRel.blocks.length
  blocks  : ∀ bn page, newHeap.blocks.length ≤ bn → state.rsNewRel.blocks[bn]? = some page → page.Carries k bn es
  buffer  : state.rsBufferValid → state.rsBuffer.Carries k state.rsBlockno es
  free    : ¬state.rsBufferValid → ∀ e ∈ es, e.loc.blkno ≠ state.rsBlockno
  within  : ∀ e ∈ es, newHeap.blocks.length ≤ e.loc.blkno ∧ e.loc.blkno ≤ state.rsBlockno
  apart   : (es.map (·.loc)).Nodup

variable {k : Keystream} {newHeap : HeapRelation} {state st : RewriteState} {es : List PlacedTuple}
variable {routines : RewriteRoutines} {len : Nat}

theorem begin_carries : (beginPgTdeRewrite newHeap).Carries k newHeap [] where
  key      := rfl
  relkind  := rfl
  before   := List.prefix_rfl
  blockno  := rfl
  blocks bn page hb hp := by
    obtain ⟨hl, -⟩ := List.getElem?_eq_some_iff.mp hp
    simp only [beginPgTdeRewrite] at hl
    omega
  buffer h := by cases h
  free     := by simp
  within   := by simp
  apart    := List.nodup_nil

-- A page behind the last one.
theorem Carries.blocks_append {bn : Nat} {q : Page} (h : state.Carries k newHeap es)
    (hv : state.rsBufferValid) (hb : newHeap.blocks.length ≤ bn)
    (hq : (state.rsNewRel.blocks ++ [state.rsBuffer])[bn]? = some q) : q.Carries k bn es := by
  rw [List.getElem?_append] at hq
  split at hq
  case isTrue       => exact h.blocks bn q hb hq
  case isFalse hlt  =>
    obtain ⟨hl, he⟩ := List.getElem?_eq_some_iff.mp hq
    simp only [List.length_singleton] at hl
    have hbn : bn = state.rsBlockno := by
      rw [h.blockno]
      omega
    simp only [List.getElem_singleton] at he
    rw [←he, hbn]
    exact h.buffer hv

-- There is space for an item of the size `len`.
structure Roomy (routines : RewriteRoutines) (st : RewriteState) (len : Nat) : Prop where
  valid : st.rsBufferValid
  room  : len ≤ routines.pageGetHeapFreeSpace st.rsBuffer

-- A new page is begun.
theorem Carries.begin_page (h : state.Carries k newHeap es) (hv : ¬state.rsBufferValid) :
    RewriteState.Carries k newHeap { state with rsBuffer := Page.init, rsBufferValid := true } es where
  key      := h.key
  relkind  := h.relkind
  before   := h.before
  blockno  := h.blockno
  blocks   := h.blocks
  buffer _ := Page.init_carries (h.free hv)
  free     := by simp
  within   := h.within
  apart    := h.apart

-- The page that is written has been the last one.
theorem Carries.write_buffer (h : state.Carries k newHeap es) (hv : state.rsBufferValid) :
    ∃ st, state.writeBuffer = .ok st ∧ st.Carries k newHeap es ∧ ¬st.rsBufferValid := by
  refine ⟨_, by rw [writeBuffer, HeapRelation.smgrextend, if_pos h.blockno]; rfl, ?_, by simp⟩
  constructor
  case key     => exact h.key
  case relkind => exact h.relkind
  case before  => exact h.before.trans (List.prefix_append _ _)
  case blockno => simp [h.blockno]
  case blocks  => exact fun bn q hb hq => h.blocks_append hv hb hq
  case buffer  => simp
  case free    =>
    intro _ e he
    have := (h.within e he).right
    simp only
    omega
  case within  =>
    intro e he
    have := h.within e he
    simp only
    omega
  case apart   => exact h.apart

theorem makeSpace_carries (h : state.Carries k newHeap es) (ha : routines.Adds) (hl : len ≤ maxHeapTupleSize) :
    ∃ st, state.makeSpace routines len = .ok st ∧ st.Carries k newHeap es ∧ st.Roomy routines len := by
  have hi := Nat.le_trans hl ha.init
  rw [makeSpace]
  by_cases hv : state.rsBufferValid
  case neg => exact ⟨_, by simp [hv], h.begin_page hv, ⟨rfl, hi⟩⟩
  case pos =>
    by_cases hf : len + routines.saveFreeSpace > routines.pageGetHeapFreeSpace state.rsBuffer
    case neg => exact ⟨state, by simp [hv, hf], h, ⟨hv, by omega⟩⟩
    case pos =>
      obtain ⟨st, hw, hc, hn⟩ := h.write_buffer hv
      exact ⟨_, by simp [hv, hf, hw, hn], hc.begin_page hn, ⟨rfl, hi⟩⟩

end RewriteState

namespace RewriteState

-- The bytes of a tuple once it has been stored at a place.
def stored (tup item : List UInt8) (loc : ItemPointer) : List UInt8 :=
  if ctidIsValid tup then item else storeCtid (itemPointer loc.blkno loc.offnum) item

end RewriteState

theorem FitsOnPage.storeCtid {item ctid : List UInt8} (h : FitsOnPage item) (hc : ctid.length = 6) :
    FitsOnPage (storeCtid ctid item) := by
  have hh := h.header
  have hl := h.hoff_le
  simp only [sizeofHeapTupleHeaderData] at hh
  constructor
  case header  => rw [itemHoff_storeCtid hc (by omega)]; exact h.header
  case hoff_le => rw [itemHoff_storeCtid hc (by omega), length_storeCtid hc (by omega)]; exact hl
  case size_le => rw [length_storeCtid hc (by omega)]; exact h.size_le

namespace RewriteState

open Platform

variable {P : Platform} {routines : RewriteRoutines} {state : RewriteState} {newHeap : HeapRelation}
variable {es : List PlacedTuple} {tup item : List UInt8} {k : Keystream} {page : Page} {off : Nat}

-- The current page has another tuple, whose bytes may have been changed in their place.
theorem Carries.place {final : List UInt8} {mem : Memory} (h : state.Carries k newHeap es)
    (hv : state.rsBufferValid) (hs : state.rsBuffer.Stored item page off) (hl : final.length = item.length)
    (hf : FitsOnPage final) (ha : ∀ x ≥ state.rsBuffer.pdUpper, mem x = page.mem x)
    (hr : mem.read page.pdUpper final.length = encryptedItem k state.rsBlockno page.pdUpper final) :
    RewriteState.Carries k newHeap { state with rsBuffer := { page with mem } }
      (⟨⟨state.rsBlockno, off⟩, final⟩ :: es) where
  key     := h.key
  relkind := h.relkind
  before  := h.before
  blockno := h.blockno
  blocks bn q hb hq := by
    obtain ⟨hlt, -⟩ := List.getElem?_eq_some_iff.mp hq
    have hn := h.blockno
    refine (h.blocks bn q hb hq).elsewhere ?_
    simp only at hlt ⊢
    omega
  buffer _ := (h.buffer hv).add hs hl hf ha hr
  free hn  := absurd hv hn
  within   := by
    refine List.forall_mem_cons.mpr ⟨⟨?_, Nat.le_refl _⟩, h.within⟩
    rw [h.blockno]
    exact h.before.length_le
  apart    := by
    rw [List.map_cons, List.nodup_cons]
    refine ⟨?_, h.apart⟩
    rw [List.mem_map]
    rintro ⟨e, he, heq⟩
    exact (h.buffer hv).fresh hs e he heq

theorem rawPgTdeInsert_eq {st : RewriteState} {lp : ItemIdData} (hk : state.rsNewRel.relkind ≠ .toastvalue)
    (ht : routines.heaptup tup = .ok item) (hl : maxalign item.length ≤ maxHeapTupleSize)
    (hm : state.makeSpace routines (maxalign item.length) = .ok st)
    (hp : P.pgTdePageAddItemExtended routines.pageAddItem.run st.rsNewRel.key st.rsBlockno st.rsBuffer item =
      .ok (page, off)) (ho : off ≠ invalidOffsetNumber) (hlp : page.getItemId off = some lp) :
    P.rawPgTdeInsert routines state tup = .ok ({ st with
      rsBuffer :=
        if ctidIsValid tup then page
        else { page with mem := page.mem.write (lp.lpOff + 12) (itemPointer st.rsBlockno off) } }, off) := by
  have hl' : ¬maxalign item.length > maxHeapTupleSize := Nat.not_lt.mpr hl
  rw [RewriteRoutines.heaptup] at ht
  by_cases hx : heapTupleHasExternal tup ∨ tup.length > toastTupleThreshold
  case pos =>
    rw [if_pos hx] at ht
    simp only [rawPgTdeInsert, if_neg hk, if_pos hx, ht, Outcome.ok_bind, if_neg hl', hm, hp, if_neg ho, hlp]
    split <;> rfl
  case neg =>
    rw [if_neg hx] at ht
    cases ht
    simp only [rawPgTdeInsert, if_neg hk, if_neg hx, Outcome.ok_bind, if_neg hl', hm, hp, if_neg ho, hlp]
    split <;> rfl

theorem rawPgTdeInsert_carries (h : state.Carries (P.keystream newHeap.key) newHeap es) (ha : routines.Adds)
    (hk : newHeap.relkind ≠ .toastvalue) (ht : routines.heaptup tup = .ok item) (hf : FitsOnPage item) :
    ∃ st off, P.rawPgTdeInsert routines state tup = .ok (st, off) ∧ IsOffset off ∧
      st.Carries (P.keystream newHeap.key) newHeap
        (⟨⟨st.rsBlockno, off⟩, stored tup item ⟨st.rsBlockno, off⟩⟩ :: es) := by
  have hhd := hf.header
  have hho := hf.hoff_le
  have hsz := hf.size_le
  simp only [sizeofHeapTupleHeaderData] at hhd
  obtain ⟨st, hm, hc, hro⟩ := makeSpace_carries h ha hsz
  have hb := hc.buffer hro.valid
  have hoff := ha.space _ item hb.lower_le hb.upper_le hb.special_le (by omega) hro.room
  have hst := routines.pageAddItem.stored _ _ hoff
  generalize hrun : routines.pageAddItem.run st.rsBuffer item = run at hoff hst
  obtain ⟨page, off⟩ := run
  simp only at hoff hst
  have hu : page.pdUpper ≤ blcksz := by
    have hup := hst.upper
    have := hb.upper_le
    have := hb.special_le
    omega
  have hs : item.length ≤ 2 ^ 30 := by
    have := le_maxalign item.length
    have : maxHeapTupleSize ≤ 2 ^ 30 := by decide
    omega
  have he : P.pgTdePageAddItemExtended routines.pageAddItem.run st.rsNewRel.key st.rsBlockno st.rsBuffer item =
      .ok (encrypted (P.keystream newHeap.key) st.rsBlockno item page, off) := by
    rw [hc.key, pgTdePageAddItemExtended_eq hs hho (by rw [hrun]; exact hu), hrun]
  have hr : (encrypted (P.keystream newHeap.key) st.rsBlockno item page).mem.read page.pdUpper item.length =
      encryptedItem (P.keystream newHeap.key) st.rsBlockno page.pdUpper item := hst.read_encrypted hf
  have hab : ∀ x ≥ st.rsBuffer.pdUpper,
      (encrypted (P.keystream newHeap.key) st.rsBlockno item page).mem x = page.mem x := hst.above_encrypted hf
  have hoffset := Page.isOffset (Nat.le_trans hst.lower hu) hst.line
  refine ⟨_, off, rawPgTdeInsert_eq (h.relkind ▸ hk) ht hsz hm he hoff hst.line, hoffset, ?_⟩
  simp only [stored]
  split
  case isTrue  => exact hc.place hro.valid hst rfl hf hab hr
  case isFalse =>
    simp only [encrypted] at hr hab ⊢
    generalize page.mem.write _ _ = mem at hr hab ⊢
    have hl : (storeCtid (itemPointer st.rsBlockno off) item).length = item.length :=
      length_storeCtid itemPointer_length (by omega)
    have hab' : ∀ x ≥ st.rsBuffer.pdUpper,
        mem.write (page.pdUpper + 12) (itemPointer st.rsBlockno off) x = page.mem x := by
      intro x hx
      have hup := hst.upper
      have hsp := hst.space
      have hm := le_maxalign item.length
      rw [Memory.write_of_ge (by rw [itemPointer_length]; omega)]
      exact hab x hx
    refine hc.place hro.valid hst hl (hf.storeCtid itemPointer_length) hab' ?_
    rw [hl, encryptedItem_storeCtid itemPointer_length hho hf.header, ←hr]
    exact Memory.read_write_within (by rw [itemPointer_length]; omega)

end RewriteState

-- The finished heap.
structure HeapRelation.Carries (k : Keystream) (rel newHeap : HeapRelation) (es : List PlacedTuple) : Prop where
  key    : rel.key = newHeap.key
  before : newHeap.blocks <+: rel.blocks
  blocks : ∀ bn page, newHeap.blocks.length ≤ bn → rel.blocks[bn]? = some page → page.Carries k bn es
  behind : ∀ e ∈ es, newHeap.blocks.length ≤ e.loc.blkno
  within : ∀ e ∈ es, e.loc.blkno < rel.blocks.length
  apart  : (es.map (·.loc)).Nodup

theorem endPgTdeRewrite_carries {k : Keystream} {newHeap : HeapRelation} {state : RewriteState}
    {es : List PlacedTuple} (h : state.Carries k newHeap es) :
    ∃ rel, endPgTdeRewrite state = .ok rel ∧ rel.Carries k newHeap es := by
  rw [endPgTdeRewrite]
  by_cases hv : state.rsBufferValid
  case pos =>
    refine ⟨_, by rw [if_pos hv, HeapRelation.smgrextend, if_pos h.blockno], ?_⟩
    constructor
    case key    => exact h.key
    case before => exact h.before.trans (List.prefix_append _ _)
    case blocks => exact fun bn q hb hq => h.blocks_append hv hb hq
    case behind => exact fun e he => (h.within e he).left
    case within =>
      intro e he
      have hw := (h.within e he).right
      have hn := h.blockno
      simp only [List.length_append, List.length_singleton]
      omega
    case apart  => exact h.apart
  case neg =>
    refine ⟨_, if_neg hv, h.key, h.before, h.blocks, fun e he => (h.within e he).left, ?_, h.apart⟩
    intro e he
    have hw := (h.within e he).right
    have hf := h.free hv e he
    have hn := h.blockno
    omega
