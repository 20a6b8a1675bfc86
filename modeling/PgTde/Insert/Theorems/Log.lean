import PgTde.Insert.Theorems.Codec
import PgTde.Insert.Theorems.Placement

open Cint Platform

variable {P : Platform} {routines : InsertRoutines} {key : Block} {bn : Nat} {p q : Page} {off : Nat}
variable {heaptup : HeapTuple} {placed : List (HeapTuple × Nat)}

-- A tuple has been put on a page, with its data encrypted.
structure PutAt (P : Platform) (key : Block) (bn : Nat) (p : Page) (placed : HeapTuple × Nat) (q : Page) :
    Prop where
  fits   : p.Fits placed.1.tData redoFlags placed.2
  stored : p.Stored (q.mem.read q.pdUpper placed.1.tData.length) q placed.2
  hoff   : tHoff q.mem q.pdUpper = placed.1.header.bytes.length
  data   : q.mem.read (q.pdUpper + placed.1.header.bytes.length) placed.1.data.length =
    (P.keystream key).xor (offsetInFile bn q.pdUpper) placed.1.data

-- The wrapper reports a failure of `PageAddItemExtended` as it is.
theorem pgTdePageAddItemExtended_off {run : Page → List UInt8 → Page × Nat} {item : List UInt8}
    (h : P.pgTdePageAddItemExtended run key bn p item = .ok (q, off)) : (run p item).2 = off := by
  simp only [pgTdePageAddItemExtended] at h
  split at h
  · cases h
  · obtain ⟨data, -, h⟩ := Outcome.bind_eq_ok_iff.mp h
    cases h
    rfl

theorem run_ne_invalid {add : PageAddItem} {item : List UInt8} {token : Bool}
    (h : P.pgTdeRelationPutHeapTuple add key bn p item token = .ok q) :
    (add.run p item).2 ≠ invalidOffsetNumber := by
  obtain ⟨⟨r, off⟩, hr, h⟩ := Outcome.bind_eq_ok_iff.mp h
  rw [pgTdePageAddItemExtended_off hr]
  intro ho
  simp [ho] at h

theorem addable_of_stored (hu : p.pdUpper ≤ blcksz) (hs : p.Stored heaptup.tData q off) :
    Addable p heaptup.tData where
  upper_le := hu
  size_le  := by
    have hs := hs.space
    have hm := le_maxalign heaptup.tData.length
    omega
  header   := by rw [HeapTuple.itemHoff_tData]; exact heaptup.header.size
  hoff_le  := by rw [HeapTuple.itemHoff_tData, HeapTuple.length_tData]; exact Nat.le_add_right _ _

-- Neither encrypting the data nor storing the tuple's place in its header concerns anything else, and the
-- length of the header least of all.
theorem putPage_mem {add : PageAddItem} {token : Bool} (ha : Addable p heaptup.tData) {a : Nat}
    (h : a < (add.run p heaptup.tData).1.pdUpper + 12 ∨
      (add.run p heaptup.tData).1.pdUpper + 18 ≤ a ∧
        a < (add.run p heaptup.tData).1.pdUpper + heaptup.header.bytes.length ∨
      (add.run p heaptup.tData).1.pdUpper + heaptup.tData.length ≤ a) :
    (putPage P add key bn p heaptup.tData token).mem a = (add.run p heaptup.tData).1.mem a := by
  have hh := heaptup.header.size
  have hl := ha.hoff_le
  simp only [HeapTuple.itemHoff_tData, HeapTuple.length_tData, sizeofHeapTupleHeaderData] at hh hl h
  have he : (encrypted (P.keystream key) bn heaptup.tData (add.run p heaptup.tData).1).mem a =
      (add.run p heaptup.tData).1.mem a := by
    simp only [encrypted, HeapTuple.itemHoff_tData]
    by_cases hlt : a < (add.run p heaptup.tData).1.pdUpper + heaptup.header.bytes.length
    case pos => exact Memory.write_of_lt hlt
    case neg => exact Memory.write_of_ge (by simp; omega)
  cases token
  case true  => exact he
  case false =>
    rw [←he]
    have hb : (itemPointer bn (add.run p heaptup.tData).2).length = 6 := rfl
    by_cases hlt : a < (add.run p heaptup.tData).1.pdUpper + 12
    case pos => exact Memory.write_of_lt hlt
    case neg => exact Memory.write_of_ge (by simp only [hb, encrypted]; omega)

theorem putPage_upper {add : PageAddItem} {item : List UInt8} {token : Bool} :
    (putPage P add key bn p item token).pdUpper = (add.run p item).1.pdUpper := by
  cases token <;> rfl

theorem putAt_of_ok {token : Bool} (hu : p.pdUpper ≤ blcksz)
    (h : P.putHeapTuple routines key bn p heaptup token = .ok (q, off)) :
    PutAt P key bn p (heaptup, off) q := by
  obtain ⟨r, hr, h⟩ := Outcome.bind_eq_ok_iff.mp h
  cases h
  have hn := run_ne_invalid hr
  have hs := routines.pageAddItem.heap.stored p heaptup.tData hn
  have ha := addable_of_stored hu hs
  have hput := put_of_ok ha hr
  rw [pgTdeRelationPutHeapTuple_eq ha, if_neg hn] at hr
  cases hr
  have hd := hput.data
  rw [HeapTuple.itemHoff_tData, HeapTuple.length_tData, Nat.add_sub_cancel_left, HeapTuple.drop_tData] at hd
  refine ⟨?_, ?_, ?_, hd⟩
  · have hf := (routines.pageAddItem.inPlace _ _ p heaptup.tData hn (.inl rfl)).1
    exact { hf with }
  · have hm (a) (ho : a < (routines.pageAddItem.heap.run p heaptup.tData).1.pdUpper ∨
        (routines.pageAddItem.heap.run p heaptup.tData).1.pdUpper + heaptup.tData.length ≤ a) :
        (putPage P routines.pageAddItem.heap key bn p heaptup.tData token).mem a =
          (routines.pageAddItem.heap.run p heaptup.tData).1.mem a :=
      putPage_mem ha (ho.imp (fun _ => by omega) .inr)
    have hst := hs.rewritten hm
    cases token <;> exact hst
  · have hh := heaptup.header.size
    simp only [sizeofHeapTupleHeaderData] at hh
    rw [←hs.placed.hoff, tHoff, tHoff, putPage_upper, putPage_mem ha (.inr (.inl ⟨by omega, by omega⟩))]

theorem putHeapTuples_runs {saveFreeSpace : Nat} {tups : List HeapTuple} (hu : p.pdUpper ≤ blcksz)
    (h : P.putHeapTuples routines key bn saveFreeSpace p tups = .ok (q, placed)) :
    Runs (PutAt P key bn) p placed q := by
  induction tups generalizing p placed
  case nil => cases h; exact .nil
  case cons tup tups hi =>
    rw [Platform.putHeapTuples] at h
    split at h
    · cases h; exact .nil
    · obtain ⟨⟨r, off⟩, hr, h⟩ := Outcome.bind_eq_ok_iff.mp h
      obtain ⟨⟨q', placed'⟩, hq, h⟩ := Outcome.bind_eq_ok_iff.mp h
      cases h
      have hp := putAt_of_ok hu hr
      have hu' := hp.stored.upper_eq
      exact .cons hp (hi (by omega) hq)

namespace PutAt

variable {a : HeapTuple × Nat}

theorem upper_eq (h : PutAt P key bn p a q) : q.pdUpper + maxalign a.1.tData.length = p.pdUpper := by
  have hu := h.stored.upper_eq
  rwa [Memory.length_read] at hu

theorem length_pos : 24 ≤ a.1.tData.length := by
  have hs := a.1.header.size
  rw [sizeofHeapTupleHeaderData] at hs
  rw [HeapTuple.length_tData]
  exact Nat.le_trans hs (Nat.le_add_right _ _)

theorem holds (h : PutAt P key bn p a q) : q.Holds q.mem a.2 ⟨q.pdUpper, .normal, a.1.tData.length⟩ := by
  have hl := @length_pos a
  have hh := h.stored.holds_new (by rw [←List.length_pos_iff, Memory.length_read]; omega)
  rwa [Memory.length_read] at hh

end PutAt

namespace Runs

theorem upper_le (h : Runs (PutAt P key bn) p placed q) : q.pdUpper + 24 * placed.length ≤ p.pdUpper := by
  induction h
  case nil           => exact Nat.le_refl _
  case cons a as hs _ i =>
    have hu := hs.upper_eq
    have hl := @PutAt.length_pos a
    have hm := le_maxalign a.1.tData.length
    rw [List.length_cons]
    omega

theorem length_le (h : Runs (PutAt P key bn) p placed q) (a : HeapTuple × Nat) (ha : a ∈ placed) :
    a.1.tData.length ≤ p.pdUpper := by
  induction h
  case nil => cases ha
  case cons b bs hs hr i =>
    have hu := hs.upper_eq
    cases ha
    case head   =>
      have hm := le_maxalign a.1.tData.length
      omega
    case tail h =>
      have hi := i h
      omega

-- Each tuple is on the last page as it was put on the one before.
theorem get (h : Runs (PutAt P key bn) p placed q) {a : HeapTuple × Nat} (ha : a ∈ placed) :
    ∃ p₁ p₂, p₁.pdUpper ≤ p.pdUpper ∧ PutAt P key bn p₁ a p₂ ∧
      q.Holds p₂.mem a.2 ⟨p₂.pdUpper, .normal, a.1.tData.length⟩ := by
  obtain ⟨p₁, p₂, bs, cs, hb, hs, hc⟩ := h.exists_step ha
  exact ⟨p₁, p₂, Nat.le_trans (Nat.le_add_right _ _) hb.upper_le, hs,
    hs.holds.runs (fun _ _ _ hs => ⟨_, _, hs.stored⟩) hc⟩

-- On a page without free line pointers, new ones are used one after the other.
theorem offnum_eq (h : Runs (PutAt P key bn) p placed q) (hp : ∀ lp ∈ p.linp, lp.hasStorage) {j : Nat}
    {a : HeapTuple × Nat} (ha : placed[j]? = some a) : a.2 = p.linp.length + 1 + j := by
  induction h generalizing j
  case nil => cases ha
  case cons p p₁ q b bs hs hr i =>
    have hb := hs.fits.offnum_eq hp
    have hl : p₁.linp = p.linp ++ [⟨p₁.pdUpper, .normal, b.1.tData.length⟩] := by
      have hst := hs.stored
      rw [hb] at hst
      rw [hst.linp_append, Memory.length_read]
    have hp₁ : ∀ lp ∈ p₁.linp, lp.hasStorage := by
      intro lp hlp
      rw [hl, List.mem_append, List.mem_singleton] at hlp
      cases hlp
      case inl h => exact hp lp h
      case inr h => exact h ▸ hs.holds.storage
    cases j
    case zero   => cases ha; exact hb
    case succ j =>
      rw [i hp₁ ha, hl, List.length_append, List.length_singleton]
      omega

end Runs

-- The page looks new: redo may initialize it, and the tuples then go to its first line pointers.
def Blank (p : Page) (placed : List (HeapTuple × Nat)) : Prop :=
  ∃ tup rest, placed = (tup, 1) :: rest ∧ ∀ i ≠ 1, p.getItemId i = none

theorem blank_of_first (h : PutAt P key bn p (heaptup, off) q) (hf : isFirstTuple q off) :
    Blank p [(heaptup, off)] := by
  obtain ⟨rfl, hl⟩ : off = 1 ∧ q.linp.length = 1 := of_decide_eq_true hf
  refine ⟨heaptup, [], rfl, fun i hi => ?_⟩
  rw [←h.stored.lines i hi]
  cases i
  case zero   => rfl
  case succ i => exact List.getElem?_eq_none (by omega)

theorem rebuilt_eq {xid newXmax : UInt32} (h : PutAt P key bn p (heaptup, off) q) :
    rebuilt xid newXmax bn q (heaptup, off) =
    (off, redoTuple xid newXmax bn off (.ofTuple heaptup.tData) (q.mem.read
      (q.pdUpper + sizeofHeapTupleHeader) (heaptup.tData.length - sizeofHeapTupleHeader))) := by
  simp [rebuilt, h.holds.line]

-- Redo adds the tuples that have been placed, as they are on the page `q`. If it initializes the page, then
-- the page was blank.
def RedoAdds (bn : Nat) (p : Page) (placed : List (HeapTuple × Nat)) (q : Page) (record : HeapRecord) : Prop :=
  ∃ (initPage : Bool) (newXmax : UInt32), (initPage → Blank p placed) ∧
    ∀ addItem xid, pgTdeRedo addItem xid bn p record =
      redoAddItems addItem (bufferForRedo initPage p) (placed.map (rebuilt xid newXmax bn q))

theorem pgTdeInsert_spec {speculative : Bool} {record : HeapRecord} (hu : p.pdUpper ≤ blcksz)
    (h : P.pgTdeInsert routines key bn p heaptup speculative = .ok (q, placed, record)) :
    Runs (PutAt P key bn) p placed q ∧ RedoAdds bn p placed q record := by
  obtain ⟨⟨r, off⟩, hr, h⟩ := Outcome.bind_eq_ok_iff.mp h
  cases h
  have hp := putAt_of_ok hu hr
  refine ⟨.cons hp .nil, isFirstTuple q off, 0, blank_of_first hp, fun addItem xid => ?_⟩
  rw [pgTdeRedo, xlogInsertTuple_eq, List.map_singleton, rebuilt_eq hp]

theorem pgTdeUpdateNewPage_spec {newXmax : UInt32} {oldOff oldLen : Nat} {record : HeapRecord}
    (hu : p.pdUpper ≤ blcksz)
    (h : P.pgTdeUpdateNewPage routines key bn p heaptup newXmax oldOff oldLen = .ok (q, placed, record)) :
    Runs (PutAt P key bn) p placed q ∧ RedoAdds bn p placed q record := by
  obtain ⟨⟨r, off⟩, hr, h⟩ := Outcome.bind_eq_ok_iff.mp h
  cases h
  have hp := putAt_of_ok hu hr
  refine ⟨.cons hp .nil, isFirstTuple q off, newXmax, blank_of_first hp, fun addItem xid => ?_⟩
  have hd : (logPgTdeUpdate false q oldOff oldLen heaptup.tData).data = q.mem.read
      (q.pdUpper + sizeofHeapTupleHeader) (heaptup.tData.length - sizeofHeapTupleHeader) := by
    simp [logPgTdeUpdate]
  rw [pgTdeRedo, xlogInsertTuple_eq, List.map_singleton, rebuilt_eq hp, hd]

theorem pgTdeMultiInsert_spec {scratch : Memory} {saveFreeSpace : Nat} {rest : List HeapTuple}
    {record : HeapRecord} (hu : p.pdUpper ≤ blcksz)
    (h : P.pgTdeMultiInsert routines key bn scratch saveFreeSpace p heaptup rest = .ok (q, placed, record)) :
    Runs (PutAt P key bn) p placed q ∧ RedoAdds bn p placed q record := by
  obtain ⟨⟨p₁, off⟩, hr, h⟩ := Outcome.bind_eq_ok_iff.mp h
  obtain ⟨⟨p₂, others⟩, hrs, h⟩ := Outcome.bind_eq_ok_iff.mp h
  obtain ⟨data, hd, h⟩ := Outcome.bind_eq_ok_iff.mp h
  cases h
  have hp := putAt_of_ok hu hr
  have hu₁ := hp.upper_eq
  have hruns : Runs (PutAt P key bn) p ((heaptup, off) :: others) q :=
    .cons hp (putHeapTuples_runs (by omega) hrs)
  generalize he : (heaptup, off) :: others = placed at *
  refine ⟨hruns, p.getMaxOffsetNumber = 0, 0, ?_, fun addItem xid => ?_⟩
  · intro hi
    have hi : p.linp = [] := List.eq_nil_of_length_eq_zero (of_decide_eq_true hi)
    have ho : off = 1 := by simpa [hi] using hp.fits.offnum_eq (by simp [hi])
    refine ⟨heaptup, others, ho ▸ he.symm, fun i _ => ?_⟩
    cases i <;> simp [Page.getItemId, hi]
  · apply pgTdeRedo_multiInsert ?_ ?_ ?_ ?_ hd
    · simp only [sizeOfHeapMultiInsert]
      omega
    · intro a ha
      have hl := hruns.length_le a ha
      simp only [blcksz] at hu
      omega
    · have hn := hruns.upper_le
      simp only [blcksz] at hu
      omega
    · intro j a ha
      by_cases hi : p.getMaxOffsetNumber = 0
      case pos =>
        have hi' : p.linp = [] := List.eq_nil_of_length_eq_zero hi
        simp [hi, hruns.offnum_eq (by simp [hi']) ha, hi']
      case neg => simp [hi, ha]

theorem perform_spec {op : InsertOperation} {record : HeapRecord} (hu : p.pdUpper ≤ blcksz)
    (h : op.perform P routines key bn p = .ok (q, placed, record)) :
    Runs (PutAt P key bn) p placed q ∧ RedoAdds bn p placed q record := by
  cases op
  case insert      => exact pgTdeInsert_spec hu h
  case multiInsert => exact pgTdeMultiInsert_spec hu h
  case update      => exact pgTdeUpdateNewPage_spec hu h

namespace Logged

variable (l : Logged P routines)

theorem runs : Runs (PutAt P l.key l.bn) l.before l.placed l.after :=
  (perform_spec l.upper_le l.performed).1

theorem redoAdds : RedoAdds l.bn l.before l.placed l.after l.record :=
  (perform_spec l.upper_le l.performed).2

end Logged
