import PgTde.Insert.Logged

variable {data l r : List UInt8} {a n : Nat}

namespace XlPgTdeHeader

variable {xlhdr : XlPgTdeHeader}

theorem length_bytes : xlhdr.bytes.length = sizeOfHeapHeader := by
  simp [bytes, sizeOfHeapHeader]

theorem ofBytes_append (h : data = l ++ (xlhdr.bytes ++ r)) (hl : l.length = a) :
    ofBytes data a = xlhdr := by
  have h₂ : data = l ++ (toLittleEndian 2 xlhdr.tInfomask2.toNat ++
      (toLittleEndian 2 xlhdr.tInfomask.toNat ++ (xlhdr.tHoff :: r))) := by
    rw [h, bytes]
    simp only [List.append_assoc, List.singleton_append]
  have h₁ : data = (l ++ toLittleEndian 2 xlhdr.tInfomask2.toNat) ++
      (toLittleEndian 2 xlhdr.tInfomask.toNat ++ (xlhdr.tHoff :: r)) := by
    rw [h₂, List.append_assoc]
  have h₀ : data[a + 4]? = some xlhdr.tHoff := by
    rw [h, ←hl, List.getElem?_append_right (Nat.le_add_right _ _), Nat.add_sub_cancel_left]
    rfl
  simp [ofBytes, unsignedAt_of_append h₂ hl xlhdr.tInfomask2.toNat_lt,
    unsignedAt_of_append h₁ (show _ = a + 2 by simp [hl]) xlhdr.tInfomask.toNat_lt, h₀]

end XlPgTdeHeader

namespace XlMultiInsertTuple

variable {xlhdr : XlMultiInsertTuple}

theorem length_bytes : xlhdr.bytes.length = sizeOfMultiInsertTuple := by
  rw [bytes, List.length_append, length_toLittleEndian, XlPgTdeHeader.length_bytes]
  rfl

theorem ofBytes_append (h : data = l ++ (xlhdr.bytes ++ r)) (hl : l.length = a) :
    ofBytes data a = xlhdr := by
  have hd : data = l ++ (toLittleEndian 2 xlhdr.datalen.toNat ++ (xlhdr.toXlPgTdeHeader.bytes ++ r)) := by
    rw [h, bytes, List.append_assoc]
  have hh : data = (l ++ toLittleEndian 2 xlhdr.datalen.toNat) ++ (xlhdr.toXlPgTdeHeader.bytes ++ r) := by
    rw [hd, List.append_assoc]
  simp [ofBytes, unsignedAt_of_append hd hl xlhdr.datalen.toNat_lt,
    XlPgTdeHeader.ofBytes_append hh (show _ = a + 2 by simp [hl])]

end XlMultiInsertTuple

section

variable {xid newXmax : UInt32} {bn offnum : Nat} {xlhdr : XlPgTdeHeader}

theorem length_redoTuple :
    (redoTuple xid newXmax bn offnum xlhdr data).length = sizeofHeapTupleHeader + data.length := by
  simp [redoTuple, XlPgTdeHeader.bytes, itemPointer, sizeofHeapTupleHeader]
  omega

theorem drop_redoTuple :
    (redoTuple xid newXmax bn offnum xlhdr data).drop sizeofHeapTupleHeader = data :=
  List.drop_left' (by simp [XlPgTdeHeader.bytes, itemPointer, sizeofHeapTupleHeader])

end

theorem shortalign_add {t : Nat} (ht : t % 2 = 0) : shortalign (t + n) = t + shortalign n := by
  simp only [shortalign]
  omega

theorem le_shortalign : n ≤ shortalign n := by
  simp only [shortalign]
  omega

section Redo

variable (addItem : Nat → Page → List UInt8 → Outcome (Page × Nat)) (xid newXmax : UInt32) (bn : Nat)

-- Tuples are added to a page at redo, each under its offset number.
def redoAddItems : Page → List (Nat × List UInt8) → Outcome Page
  | page, []                     => .ok page
  | page, (offnum, htup) :: rest =>
    if page.getMaxOffsetNumber + 1 < offnum then
      .error invalidMaxOffsetNumber
    else do
      let page ← redoAddItem addItem page htup offnum
      redoAddItems page rest

-- What redo makes of a tuple that is on the page `after`.
def rebuilt (after : Page) (placed : HeapTuple × Nat) : Nat × List UInt8 :=
  let lpOff := ((after.getItemId placed.2).map (·.lpOff)).getD 0
  (placed.2, redoTuple xid newXmax bn placed.2 (.ofTuple placed.1.tData) (after.mem.read
    (lpOff + sizeofHeapTupleHeader) (placed.1.tData.length - sizeofHeapTupleHeader)))

variable {addItem xid newXmax bn} {after : Page} {offnum : Nat}

theorem xlogInsertTuple_eq {page : Page} {xlhdr : XlPgTdeHeader} :
    xlogInsertTuple addItem xid bn newXmax page offnum (xlhdr.bytes ++ data) =
    redoAddItems addItem page [(offnum, redoTuple xid newXmax bn offnum xlhdr data)] := by
  have hh : XlPgTdeHeader.ofBytes (xlhdr.bytes ++ data) 0 = xlhdr :=
    XlPgTdeHeader.ofBytes_append (l := []) rfl rfl
  have hd : (xlhdr.bytes ++ data).drop sizeOfHeapHeader = data :=
    List.drop_left' XlPgTdeHeader.length_bytes
  simp only [xlogInsertTuple, hh, hd, redoAddItems]
  cases redoAddItem addItem page (redoTuple xid newXmax bn offnum xlhdr data) offnum <;> rfl

theorem ofNat_toNat_uint16 (h : n < 2 ^ 16) : (UInt16.ofNat n).toNat = n :=
  UInt16.toNat_ofNat_of_lt' h

-- The data of a tuple follows its header, and the next tuple is aligned.
theorem multiInsertData_cons {scratch : Memory} {scratchptr : Nat} {placed : HeapTuple × Nat}
    {rest : List (HeapTuple × Nat)} (hl : placed.1.tData.length < 2 ^ 16)
    (h : multiInsertData scratch after scratchptr (placed :: rest) = .ok data) :
    ∃ (xlhdr : XlMultiInsertTuple) (pad body data' : List UInt8),
      data = pad ++ (xlhdr.bytes ++ (body ++ data')) ∧
      pad.length = shortalign scratchptr - scratchptr ∧
      body.length = xlhdr.datalen.toNat ∧
      rebuilt xid newXmax bn after placed =
        (placed.2, redoTuple xid newXmax bn placed.2 xlhdr.toXlPgTdeHeader body) ∧
      multiInsertData scratch after (shortalign scratchptr + sizeOfMultiInsertTuple + body.length) rest =
        .ok data' := by
  rw [multiInsertData] at h
  split at h
  case h_1 => cases h
  case h_2 lp hp =>
    obtain ⟨data', hr, h⟩ := Outcome.bind_eq_ok_iff.mp h
    cases h
    refine ⟨{ XlPgTdeHeader.ofTuple placed.1.tData with
      datalen := .ofNat (placed.1.tData.length - sizeofHeapTupleHeader) },
      scratch.read scratchptr (shortalign scratchptr - scratchptr),
      after.mem.read (lp.lpOff + sizeofHeapTupleHeader) (placed.1.tData.length - sizeofHeapTupleHeader), data',
      ?_, Memory.length_read, ?_, ?_, ?_⟩
    · simp only [List.append_assoc]
    · rw [Memory.length_read]
      exact (ofNat_toNat_uint16 (by omega)).symm
    · rw [rebuilt, hp]
      rfl
    · rwa [Memory.length_read]

-- One iteration of the loop, with the data cut into what comes before the tuple's header, the header, the
-- tuple's bytes, and the rest.
theorem xlogMultiInsertTuples_succ {isinit : Bool} {offsets : List Nat} {page : Page} {i tupdata remaining : Nat}
    {xlhdr : XlMultiInsertTuple} {body : List UInt8}
    (ho : (if isinit then some (1 + i) else offsets[i]?) = some offnum)
    (hl : l.length = shortalign tupdata) (hb : body.length = xlhdr.datalen.toNat)
    (h : data = l ++ (xlhdr.bytes ++ (body ++ r))) :
    xlogMultiInsertTuples addItem xid bn isinit offsets data (remaining + 1) i tupdata page =
    if page.getMaxOffsetNumber + 1 < offnum then
      .error invalidMaxOffsetNumber
    else
      redoAddItem addItem page (redoTuple xid 0 bn offnum xlhdr.toXlPgTdeHeader body) offnum >>=
        xlogMultiInsertTuples addItem xid bn isinit offsets data remaining (i + 1)
          (shortalign tupdata + sizeOfMultiInsertTuple + body.length) := by
  have hh : XlMultiInsertTuple.ofBytes data (shortalign tupdata) = xlhdr :=
    XlMultiInsertTuple.ofBytes_append h hl
  have hd : data.drop (shortalign tupdata + sizeOfMultiInsertTuple) = body ++ r := by
    rw [h, ←List.append_assoc]
    exact List.drop_left' (by rw [List.length_append, hl, XlMultiInsertTuple.length_bytes])
  have hlen : ¬data.length < shortalign tupdata + sizeOfMultiInsertTuple + body.length := by
    rw [h, List.length_append, List.length_append, List.length_append, hl, XlMultiInsertTuple.length_bytes]
    omega
  simp only [xlogMultiInsertTuples, ho, hh, hd, ←hb, hlen, if_false, List.take_left]

-- The position that redo has reached in the data after some tuples counts from the start of the data, and
-- the one that the record was assembled with from the start of the scratch space.
theorem xlogMultiInsertTuples_eq {scratch : Memory} {isinit : Bool} {offsets : List Nat} {tupledata : Nat}
    {placed : List (HeapTuple × Nat)} (he : tupledata % 2 = 0)
    (hl : ∀ a ∈ placed, a.1.tData.length < 2 ^ 16) {page : Page} {i tupdata : Nat}
    (ho : ∀ j a, placed[j]? = some a → (if isinit then some (1 + (i + j)) else offsets[i + j]?) = some a.2)
    (hd : multiInsertData scratch after (tupledata + tupdata) placed = .ok r) (h : data = l ++ r)
    (ht : l.length = tupdata) :
    xlogMultiInsertTuples addItem xid bn isinit offsets data placed.length i tupdata page =
    redoAddItems addItem page (placed.map (rebuilt xid 0 bn after)) >>= fun page => .ok (page, data.length) := by
  induction placed generalizing page i tupdata l r
  case nil =>
    cases hd
    rw [List.append_nil] at h
    rw [h, ht]
    rfl
  case cons a rest hi =>
    obtain ⟨xlhdr, pad, body, r', rfl, hpl, hb, hre, hr⟩ := multiInsertData_cons (hl a List.mem_cons_self) hd
    have ho₀ : (if isinit then some (1 + i) else offsets[i]?) = some a.2 := ho 0 a rfl
    rw [shortalign_add he] at hpl hr
    have hpl : (l ++ pad).length = shortalign tupdata := by
      have hs := @le_shortalign tupdata
      rw [List.length_append, ht, hpl]
      omega
    have h' : data = (l ++ pad) ++ (xlhdr.bytes ++ (body ++ r')) := by
      rw [h]
      simp only [List.append_assoc]
    rw [List.length_cons, xlogMultiInsertTuples_succ ho₀ hpl hb h', List.map_cons, hre, redoAddItems]
    split
    · rfl
    · cases redoAddItem addItem page (redoTuple xid 0 bn a.2 xlhdr.toXlPgTdeHeader body) a.2
      case error => rfl
      case ok page =>
        apply hi (l := l ++ pad ++ xlhdr.bytes ++ body) (r := r')
        case hl => exact fun b hm => hl b (List.mem_cons_of_mem _ hm)
        case ho => exact fun j b hj => by simpa [Nat.add_assoc, Nat.add_comm 1] using ho (j + 1) b hj
        case hd => rw [←hr]; congr 1; omega
        case h  => rw [h']; simp only [List.append_assoc]
        case ht => rw [List.length_append, List.length_append, hpl, XlMultiInsertTuple.length_bytes]

theorem pgTdeRedo_multiInsert {scratch : Memory} {isinit : Bool} {offsets : List Nat} {tupledata : Nat}
    {placed : List (HeapTuple × Nat)} {page : Page} (he : tupledata % 2 = 0)
    (hl : ∀ a ∈ placed, a.1.tData.length < 2 ^ 16) (hn : placed.length < 2 ^ 16)
    (ho : ∀ j a, placed[j]? = some a → (if isinit then some (1 + j) else offsets[j]?) = some a.2)
    (hd : multiInsertData scratch after tupledata placed = .ok data) :
    pgTdeRedo addItem xid bn page (.multiInsert isinit (.ofNat placed.length) offsets data) =
    redoAddItems addItem (bufferForRedo isinit page) (placed.map (rebuilt xid 0 bn after)) := by
  have hr : xlogMultiInsertTuples addItem xid bn isinit offsets data placed.length 0 0
      (bufferForRedo isinit page) =
      redoAddItems addItem (bufferForRedo isinit page) (placed.map (rebuilt xid 0 bn after)) >>=
        fun page => .ok (page, data.length) :=
    xlogMultiInsertTuples_eq (l := []) he hl (by simpa using ho) hd rfl rfl
  rw [pgTdeRedo, ofNat_toNat_uint16 hn, hr]
  cases redoAddItems addItem (bufferForRedo isinit page) (placed.map (rebuilt xid 0 bn after))
  case error => rfl
  case ok    => simp

end Redo
