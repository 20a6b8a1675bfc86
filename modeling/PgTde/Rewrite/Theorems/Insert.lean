import PgTde.Page.Theorems.AddItem
import PgTde.Page.Theorems.Intact
import PgTde.Rewrite.Insert

namespace Contents

variable {c : Contents} {bn off b : Nat} {data : List UInt8}

theorem insert_same :
    c.insert bn off data bn = fun i => if i = off - 1 then data else c bn i := by
  funext i
  simp [insert]

theorem insert_of_ne (h : b ≠ bn) : c.insert bn off data b = c b := by
  funext i
  simp [insert, h]

end Contents

namespace HeapRelation

variable {rel : HeapRelation} {c : Contents} {page q : Page} {bn off : Nat} {data : List UInt8}

theorem Intact.append (h : rel.Intact c) (hp : page.Intact (c rel.blocks.length)) :
    HeapRelation.Intact { rel with blocks := rel.blocks ++ [page] } c := by
  intro bn q hq
  simp only [List.getElem?_append] at hq
  split at hq
  case isTrue       => exact h bn q hq
  case isFalse hlt  =>
    obtain ⟨hl, he⟩ := List.getElem?_eq_some_iff.mp hq
    simp only [List.length_singleton] at hl
    have hb : bn = rel.blocks.length := by omega
    simp only [hb, Nat.sub_self, List.getElem_singleton] at he
    exact he ▸ hb ▸ hp

-- Data that is inserted behind the relation's blocks.
theorem Intact.insert (h : rel.Intact c) (hb : rel.blocks.length ≤ bn) :
    rel.Intact (c.insert bn off data) := by
  intro b q hq
  have hl := (List.getElem?_eq_some_iff.mp hq).1
  rw [Contents.insert_of_ne (by omega)]
  exact h b q hq

end HeapRelation

namespace RewriteState

variable {routines : RewriteRoutines} {state : RewriteState} {c : Contents} {len : Nat}

-- The block number and the offset that a tuple of the size `len` goes to.
def place (routines : RewriteRoutines) (state : RewriteState) (len : Nat) : Nat × Nat :=
  if ¬state.rsBufferValid then
    (state.rsBlockno, blcksz - len)
  else if len + routines.saveFreeSpace > routines.pageGetHeapFreeSpace state.rsBuffer then
    (state.rsBlockno + 1, blcksz - len)
  else
    (state.rsBlockno, state.rsBuffer.pdUpper - len)

-- The blocks that have been written, and the current page, hold the given data.
structure Intact (state : RewriteState) (c : Contents) : Prop where
  rel     : state.rsNewRel.Intact c
  blockno : state.rsBlockno = state.rsNewRel.blocks.length
  buffer  : state.rsBufferValid → state.rsBuffer.Intact (c state.rsBlockno)

-- The current page is ready for the next tuple.
structure Ready (routines : RewriteRoutines) (state : RewriteState) (len : Nat) (st : RewriteState) :
    Prop where
  relkind : st.rsNewRel.relkind = state.rsNewRel.relkind
  key     : st.rsNewRel.key = state.rsNewRel.key
  valid   : st.rsBufferValid
  place   : state.place routines len = (st.rsBlockno, st.rsBuffer.pdUpper - len)

theorem makeSpace_ready (hi : state.Intact c) :
    ∃ st, state.makeSpace routines len = .ok st ∧ state.Ready routines len st ∧ st.Intact c := by
  rw [makeSpace]
  by_cases hv : state.rsBufferValid
  case neg =>
    have hp : state.place routines len = (state.rsBlockno, blcksz - len) := by simp [place, hv]
    refine ⟨{ state with rsBuffer := Page.init, rsBufferValid := true }, by simp [hv],
      ⟨rfl, rfl, rfl, hp⟩, ⟨hi.rel, hi.blockno, fun _ => Page.init_intact⟩⟩
  case pos =>
    by_cases hf : len + routines.saveFreeSpace > routines.pageGetHeapFreeSpace state.rsBuffer
    case neg =>
      have hp : state.place routines len = (state.rsBlockno, state.rsBuffer.pdUpper - len) := by
        simp [place, hv, hf]
      exact ⟨state, by simp [hv, hf], ⟨rfl, rfl, hv, hp⟩, hi⟩
    case pos =>
      have hp : state.place routines len = (state.rsBlockno + 1, blcksz - len) := by
        simp [place, hv, hf]
      let rel := { state.rsNewRel with blocks := state.rsNewRel.blocks ++ [state.rsBuffer] }
      have hr : rel.Intact c := hi.rel.append (hi.blockno ▸ hi.buffer hv)
      refine ⟨⟨rel, Page.init, true, state.rsBlockno + 1⟩,
        by simp [hv, hf, writeBuffer, HeapRelation.smgrextend, hi.blockno, rel],
        ⟨rfl, rfl, rfl, hp⟩, ⟨hr, by simp [hi.blockno, rel], fun _ => Page.init_intact⟩⟩

theorem Intact.placed {tup : HeapTuple} {q : Page} {off : Nat} (hi : state.Intact c)
    (hv : state.rsBufferValid) (hp : state.rsBuffer.Placed tup q off) :
    RewriteState.Intact { state with rsBuffer := q } (c.insert state.rsBlockno off tup.data) where
  rel      := hi.rel.insert (Nat.le_of_eq hi.blockno.symm)
  blockno  := hi.blockno
  buffer _ := by
    simpa only [Contents.insert_same] using (hi.buffer hv).placed hp

end RewriteState

namespace Platform

variable {P : Platform} {routines : RewriteRoutines} {state st : RewriteState} {c : Contents}
variable {tup : HeapTuple} {off bn : Nat} {page p : Page}

-- Where the keystream is zero, encryption changes nothing.
theorem encrypted_eq_self {k : Keystream} (h : page.Placed tup p off)
    (hz : ∀ j < tup.data.length, k (offsetInFile bn p.pdUpper + j) = 0) :
    encrypted k bn tup.tData p = p := by
  rw [encrypted, HeapTuple.itemHoff_tData, HeapTuple.drop_tData, Keystream.xor_of_zero hz,
    Memory.write_of_read_eq h.data]

theorem addable_of_intact {inserted : Nat → List UInt8} (h : page.Intact inserted)
    (hl : maxalign tup.tData.length ≤ maxHeapTupleSize) : Addable page tup.tData := by
  obtain ⟨_, hp, he⟩ := h.wellFormed
  have hu := hp.upper_le
  have hs := hp.special_le
  have hm := le_maxalign tup.tData.length
  have hb : maxHeapTupleSize ≤ blcksz := by decide
  constructor
  case upper_le => exact he ▸ Nat.le_trans hu hs
  case size_le  => omega
  case header   => exact HeapTuple.itemHoff_tData ▸ tup.header.size
  case hoff_le  => simp [HeapTuple.itemHoff_tData]

-- A tuple that is stored where the keystream is zero ends up with its data as it is.
theorem pgTdePageAddItemExtended_placed {key : Block} {inserted : Nat → List UInt8}
    {add : PageAddItem} (hi : page.Intact inserted)
    (hl : maxalign tup.tData.length ≤ maxHeapTupleSize)
    (hz : ∀ j < tup.data.length,
      P.keystream key (offsetInFile bn (page.pdUpper - maxalign tup.tData.length) + j) = 0)
    (h : P.pgTdePageAddItemExtended add.run key bn page tup.tData = .ok (p, off))
    (ho : off ≠ invalidOffsetNumber) : page.Placed tup p off := by
  have ha := addable_of_intact hi hl
  have hu : (add.run page tup.tData).1.pdUpper ≤ blcksz := by
    have hle := ha.upper_le
    by_cases hr : (add.run page tup.tData).2 = invalidOffsetNumber
    case pos =>
      obtain ⟨b, he⟩ := add.failed _ _ hr
      rwa [he]
    case neg => exact (add.stored _ _ hr).upper ▸ Nat.le_trans (Nat.sub_le _ _) hle
  rw [pgTdePageAddItemExtended_eq ha.size_le' ha.hoff_le hu, Except.ok.injEq, Prod.mk.injEq] at h
  have hp := (add.stored _ _ (h.2 ▸ ho)).placed
  rw [encrypted_eq_self hp (hp.upper ▸ hz)] at h
  exact h.1 ▸ h.2 ▸ hp

theorem rawPgTdeInsert_intact (hi : state.Intact c) (hk : state.rsNewRel.relkind = .toastvalue)
    (hz : ∀ j < tup.data.length, P.keystream state.rsNewRel.key
      (offsetInFile (state.place routines (maxalign tup.tData.length)).1
        (state.place routines (maxalign tup.tData.length)).2 + j) = 0)
    (h : P.rawPgTdeInsert routines state tup.tData = .ok (st, off)) :
    st.Intact (c.insert st.rsBlockno off tup.data) ∧ st.rsNewRel.relkind = .toastvalue := by
  simp only [rawPgTdeInsert, hk, if_true, Outcome.ok_bind] at h
  by_cases hl : maxalign tup.tData.length > maxHeapTupleSize
  case pos =>
    rw [if_pos hl] at h
    cases h
  case neg =>
    rw [if_neg hl] at h
    obtain ⟨s, hs, hr, his⟩ := @RewriteState.makeSpace_ready routines state c
      (maxalign tup.tData.length) hi
    rw [hr.place, ←hr.key] at hz
    simp only [hs, Outcome.ok_bind, Outcome.bind_eq_ok_iff, Prod.exists] at h
    obtain ⟨page, newoff, he, h⟩ := h
    by_cases ho : newoff = invalidOffsetNumber
    case pos =>
      rw [if_pos ho] at h
      cases h
    case neg =>
      have hp := pgTdePageAddItemExtended_placed (his.buffer hr.valid) (Nat.not_lt.mp hl) hz he ho
      have hline := hp.line
      rw [if_neg ho] at h
      simp only [hline] at h
      split at h <;> cases h
      case isTrue  => exact ⟨his.placed hr.valid hp, hr.relkind.trans hk⟩
      case isFalse => exact ⟨his.placed hr.valid (hp.ctid rfl), hr.relkind.trans hk⟩

end Platform
