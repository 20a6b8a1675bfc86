import PgTde.Insert.Theorems.Redo

open Cint Platform

variable {P : Platform} {routines : InsertRoutines} {key : Block} {bn : Nat}

-- The places that the tuples end up at are known from the start.
theorem Runs.idle_iff {k : Keystream} {p q : Page} {placed : List (HeapTuple × Nat)}
    (h : Runs (PutAt P key bn) p placed q) : k.Idle bn p.pdUpper (placed.map (·.1)) ↔
    ∀ a ∈ placed, ∀ lp, q.getItemId a.2 = some lp →
      ∀ i < a.1.data.length, k (offsetInFile bn lp.lpOff + i) = 0 := by
  induction h
  case nil => simp [Keystream.Idle]
  case cons p p₁ q a as hs hr i =>
    have hh : q.getItemId a.2 = some ⟨p₁.pdUpper, .normal, a.1.tData.length⟩ :=
      (hs.holds.runs (fun _ _ _ hs => ⟨_, _, hs.stored⟩) hr).line
    have hu : p.pdUpper - maxalign a.1.tData.length = p₁.pdUpper := by
      have hu := hs.upper_eq
      omega
    simp only [List.map_cons, Keystream.Idle, hu, i, List.forall_mem_cons, hh, Option.some.injEq, forall_eq']

namespace Logged

variable (l : Logged P routines)

-- The handlers of this repository encrypt the tuples once more, so that what is read from them afterwards are
-- the encrypted tuples of the primary.
theorem redo_crypt (xid : UInt32) :
    ∃ q, pgTdeRedo (P.tdePageAddItem routines.pageAddItem l.key l.bn) xid l.bn l.before l.record = .ok q ∧
      ∀ a ∈ l.placed, ∃ lp lp', l.after.getItemId a.2 = some lp ∧ q.getItemId a.2 = some lp' ∧
        P.pgTdeCryptTuple l.bn q.mem lp'.lpOff lp'.lpLen l.key =
          .ok ((P.keystream l.key).xor (offsetInFile l.bn lp.lpOff) a.1.data) := by
  have hst := tdePageAddItem_storesAs P routines.pageAddItem l.key l.bn
  obtain ⟨q₀, newXmax, q, d, hq, hr, hm, hle, -⟩ := l.redo_mirrors hst xid
  refine ⟨q, hq, fun a ha => ?_⟩
  obtain ⟨lp, hp⟩ := onPage ha
  obtain ⟨hl, hb⟩ := hp.redo hst ha hr hm
  have hle : lp.lpOff + d + lp.lpLen ≤ blcksz := by
    have := hp.le
    omega
  have hf : sizeofHeapTupleHeader ≤ itemHoff (rebuilt xid newXmax l.bn l.after a).2 := le_itemHoff_rebuilt
  have hh : itemHoff (rebuilt xid newXmax l.bn l.after a).2 ≤ (rebuilt xid newXmax l.bn l.after a).2.length :=
    itemHoff_rebuilt_le
  refine ⟨lp, lp.shift d, hp.line, hl, ?_⟩
  simp only [ItemIdData.shift]
  rw [crypt_of_read hb (by rwa [itemHoff_encryptedItem hf hh])
    (by rwa [itemHoff_encryptedItem hf hh, length_encryptedItem]) hle, itemHoff_encryptedItem hf hh,
    drop_encryptedItem hh, Keystream.xor_xor, itemHoff_rebuilt, hp.drop_header]

-- So the tuples can be read iff the keystream does not change them on the primary.
theorem readable_iff (xid : UInt32) :
    (∃ q, pgTdeRedo (P.tdePageAddItem routines.pageAddItem l.key l.bn) xid l.bn l.before l.record = .ok q ∧
      l.Readable q) ↔
    (P.keystream l.key).Idle l.bn l.before.pdUpper (l.placed.map (·.1)) := by
  obtain ⟨q, hq, hc⟩ := l.redo_crypt xid
  rw [l.runs.idle_iff]
  constructor
  case mp =>
    rintro ⟨q', hq', h⟩ a ha lp hl
    obtain rfl : q = q' := Except.ok.inj (hq.symm.trans hq')
    obtain ⟨lp₁, lp₂, hl₁, hl₂, hc⟩ := hc a ha
    obtain ⟨lp₃, hl₃, hd⟩ := h a.1 a.2 ha
    obtain rfl : lp₁ = lp := Option.some.inj (hl₁.symm.trans hl)
    obtain rfl : lp₂ = lp₃ := Option.some.inj (hl₂.symm.trans hl₃)
    exact Keystream.xor_eq_self_iff.mp (Except.ok.inj (hc.symm.trans hd))
  case mpr =>
    intro h
    refine ⟨q, hq, fun tup offnum ha => ?_⟩
    obtain ⟨lp₁, lp₂, hl₁, hl₂, hc⟩ := hc _ ha
    rw [Keystream.xor_of_zero (h _ ha lp₁ hl₁)] at hc
    exact ⟨lp₂, hl₂, hc⟩

end Logged

-- AES-128 of the counter block 510 under the all-zero key.
def firstTuplePlatform : Platform := .x86 [
  (510, [0x7C, 0x20, 0x5B, 0x0B, 0x0D, 0xB2, 0xC4, 0x14, 0x39, 0x46, 0xE4, 0x09, 0x29, 0x74, 0xF2, 0xE5])]

def firstTupleRoutines : InsertRoutines where
  pageAddItem               := pageAddItemExtended
  pageGetHeapFreeSpace page := page.pdUpper - page.pdLower - sizeofItemIdData

def firstTuple : HeapTuple where
  header := ⟨List.replicate 22 0 ++ [24, 0], by decide, by decide⟩
  data   := List.replicate 8 97

-- The page after the insertion.
def firstTuplePage : Page :=
  Platform.putPage firstTuplePlatform pageAddItemExtended.heap (fun _ => 0) 0 .init firstTuple.tData false

-- An insertion into an empty page.
def firstTupleLogged : Logged firstTuplePlatform firstTupleRoutines where
  key       := fun _ => 0
  bn        := 0
  before    := .init
  op        := .insert firstTuple false
  after     := firstTuplePage
  placed    := [(firstTuple, 1)]
  record    := .insert true 1 ((XlPgTdeHeader.ofTuple firstTuple.tData).bytes ++
    firstTuplePage.mem.read (8160 + sizeofHeapTupleHeader) 9)
  performed := by
    simp only [InsertOperation.perform, Platform.pgTdeInsert, Platform.putHeapTuple]
    rw [firstTupleRoutines, pgTdeRelationPutHeapTuple_eq (by constructor <;> decide)]
    rfl
  special   := rfl
  upper_le  := by decide

-- The handlers of this repository make eight bytes of ciphertext of the tuple's data.
theorem not_readable_firstTuple :
    ¬∃ q, pgTdeRedo (firstTuplePlatform.tdePageAddItem pageAddItemExtended (fun _ => 0) 0) 0 0 .init
      firstTupleLogged.record = .ok q ∧ firstTupleLogged.Readable q := by
  rintro ⟨q', hq', h⟩
  obtain ⟨q, hq, hc⟩ := firstTupleLogged.redo_crypt 0
  obtain rfl : q = q' := Except.ok.inj (hq.symm.trans hq')
  obtain ⟨lp₁, lp₂, hl₁, hl₂, hc⟩ := hc (firstTuple, 1) List.mem_cons_self
  obtain ⟨lp₃, hl₃, hd⟩ := h firstTuple 1 List.mem_cons_self
  obtain rfl : lp₁ = ⟨8160, .normal, 32⟩ := Option.some.inj (hl₁.symm.trans rfl)
  obtain rfl : lp₂ = lp₃ := Option.some.inj (hl₂.symm.trans hl₃)
  have hz := Keystream.xor_eq_self_iff.mp (Except.ok.inj (hc.symm.trans hd)) 0 (by decide)
  revert hz
  decide
