import PgTde.Index.Theorems.Validate
import PgTde.Scan.Theorems.Lines

namespace HeapScan

variable {Datum : Type} {scan : HeapScan Datum} {s s' : HeapScanState} {block k line : Nat} {page : HeapPage}
variable {rest : List Nat} {lines : Nat × Nat} {ts : List ScanTuple} {t : ScanTuple} {P : Platform}

-- The visible tuples of a block, in the direction of the scan.
def blockTuples (scan : HeapScan Datum) (block : Nat) : List ScanTuple :=
  match scan.relation.blocks[block]? with
  | none      => []
  | some page => scan.dir.inOrder (scan.visibleTuples block page)

theorem blockTuples_eq (h : scan.relation.blocks[block]? = some page) :
    scan.blockTuples block = scan.leftOnPage block page (scan.count block page) := by
  rw [blockTuples, h, leftOnPage, ScanDirection.filterMap_left, filterMap_view]

-- The tuples that a scan goes through.
def tuples (scan : HeapScan Datum) : List ScanTuple :=
  scan.order.flatMap scan.blockTuples

-- The visible tuples that are ahead of a scan.
inductive Ahead (scan : HeapScan Datum) : HeapScanState → List ScanTuple → Prop
  | begin : Ahead scan scan.pgTdeBeginscan scan.tuples
  | found {s : HeapScanState} {block k : Nat} {page : HeapPage} {rest : List Nat} :
    scan.Loaded s block page → scan.Left s block rest → k < scan.count block page →
    Ahead scan (scan.lineLoop.found (scan.base + scan.dir.position (scan.count block page) (k + 1)) s)
      (scan.leftOnPage block page k ++ rest.flatMap scan.blockTuples)

abbrev FindsTuple (scan : HeapScan Datum) :
    List ScanTuple → Outcome (Option ScanTuple × HeapScanState) → Prop :=
  Finds scan.keyTestStored id scan.Ahead

-- A page is searched before the blocks that are left.
theorem scanPage_finds {next : Option Nat → HeapScanState → Outcome (Option ScanTuple × HeapScanState)}
    (hs : scan.Loaded s block page) (hr : scan.Left s block rest) (hk : k ≤ scan.count block page)
    (hl : scan.AtLine block page k lines)
    (hn : ∀ work, (∀ b rest', rest = b :: rest' → scan.Left { s with parallelWork := work } b rest') →
      scan.FindsTuple (rest.flatMap scan.blockTuples) (next rest.head? { s with parallelWork := work })) :
    scan.FindsTuple (scan.leftOnPage block page k ++ rest.flatMap scan.blockTuples)
      (scan.scanPage scan.lineLoop block page lines s next) := by
  obtain ⟨rfl, hl⟩ := hl
  have hf := scanLines_finds hs.covers.visible hk hl
  rw [FindsTuple, Finds, firstMatch_append, scanPage]
  rw [←leftOnPage] at hf
  cases hm : firstMatch scan.keyTestStored (scan.leftOnPage block page lines.1)
  case error e =>
    simp only [hm] at hf
    rw [hf]
    rfl
  case ok found =>
    cases found
    case none =>
      simp only [hm] at hf
      obtain ⟨work, ha, hw⟩ := hr.advance
      simp only [hf, Outcome.ok_bind, ha]
      exact hn work hw
    case some found =>
      obtain ⟨t, ts⟩ := found
      simp only [hm] at hf
      obtain ⟨j, hj, hf, rfl⟩ := hf
      rw [hf]
      exact ⟨_, rfl, .found hs hr hj⟩

theorem pgTdeGetpage_eq : ∃ vistuples, scan.pgTdeGetpage block page s =
    { s with rsCblock := some block, rsVistuples := vistuples } := by
  rw [pgTdeGetpage]
  split
  · exact ⟨_, rfl⟩
  · exact ⟨s.rsVistuples, rfl⟩

-- On a page that is all-visible, no tuple is left out.
theorem loaded_pgTdeGetpage (hi : s.rsInited) (hp : scan.relation.blocks[block]? = some page) :
    scan.Loaded (scan.pgTdeGetpage block page s) block page where
  inited      := by
    obtain ⟨vistuples, h⟩ := @pgTdeGetpage_eq _ scan s block page
    rw [h]
    exact hi
  cblock      := by
    obtain ⟨vistuples, h⟩ := @pgTdeGetpage_eq _ scan s block page
    rw [h]
  on          := hp
  vistuples h := by
    rw [pgTdeGetpage, if_pos h]
    refine congrArg (List.map _) <| List.filter_congr fun t ht => ?_
    rw [Bool.or_eq_right_iff_imp, Bool.and_eq_true, Bool.not_eq_true']
    exact fun ha => scan.allVisible ha.right block page hp ha.left t ht

-- The blocks are searched in their order.
theorem scanBlocks_finds {blocks : List Nat} {fuel : Nat} (hf : blocks.length ≤ fuel) (hi : s.rsInited)
    (hl : ∀ b rest, blocks = b :: rest → scan.Left s b rest) :
    scan.FindsTuple (blocks.flatMap scan.blockTuples) (scan.scanBlocks scan.lineLoop fuel blocks.head? s) := by
  induction blocks generalizing fuel s
  case nil              => exact ⟨_, by rw [List.head?_nil, scanBlocks]⟩
  case cons b blocks ih =>
    cases fuel
    case zero      => cases hf
    case succ fuel =>
      have hl := hl b blocks rfl
      have hb := (mem_order.mp (hl.mem_order List.mem_cons_self)).left
      have hp := List.getElem?_eq_getElem hb
      obtain ⟨vistuples, hg⟩ := @pgTdeGetpage_eq _ scan s b scan.relation.blocks[b]
      have hs := loaded_pgTdeGetpage hi hp
      rw [List.flatMap_cons, blockTuples_eq hp, List.head?_cons, scanBlocks, hp]
      refine scanPage_finds hs (hl.congr (by rw [hg]) (by rw [hg])) (Nat.le_refl _) hs.covers.start ?_
      intro work hw
      exact ih (Nat.le_of_succ_le_succ hf) hs.inited hw

theorem found_eq : ∃ offset index, scan.lineLoop.found line s =
    { s with rsCoffset := offset, rsCindex := index } := by
  rw [lineLoop]
  split
  · exact ⟨s.rsCoffset, line, rfl⟩
  · exact ⟨line, s.rsCindex, rfl⟩

-- A call goes on behind the last tuple.
theorem Loaded.gettup_eq (h : scan.Loaded s block page) : scan.gettup scan.lineLoop s =
    scan.scanPage scan.lineLoop block page (scan.lineLoop.continuePage s page) s
      (scan.scanBlocks scan.lineLoop scan.rsNblocks) := by
  rw [gettup, if_neg (not_not.mpr h.inited), h.cblock]
  simp only [h.on]

-- A call of `pg_tde_gettup` or `pg_tde_gettup_pagemode` finds the first tuple ahead that satisfies the keys.
theorem Ahead.gettup (h : scan.Ahead s ts) : scan.FindsTuple ts (scan.gettup scan.lineLoop s) := by
  cases h
  case begin =>
    have hi : ¬scan.pgTdeBeginscan.rsInited := Bool.false_ne_true
    rw [HeapScan.gettup, if_pos hi, pgTdeGettupInitialBlock_eq]
    exact scanBlocks_finds length_order_le rfl fun b rest h => (left_started h).congr rfl rfl
  case found s block k page rest hs hr hk =>
    obtain ⟨offset, index, hf⟩ :=
      @found_eq _ scan s (scan.base + scan.dir.position (scan.count block page) (k + 1))
    have hn := hs.covers.next k hk
    rw [hf] at hn ⊢
    have hs : scan.Loaded { s with rsCoffset := offset, rsCindex := index } block page :=
      ⟨hs.inited, hs.cblock, hs.on, hs.vistuples⟩
    rw [hs.gettup_eq]
    refine scanPage_finds hs (hr.congr rfl rfl) hk.le hn ?_
    intro work hw
    exact scanBlocks_finds hr.length_le hs.inited hw

theorem mem_blockTuples : t ∈ scan.blockTuples block ↔
    scan.relation.Holds t ∧ t.tSelf.blkno = block ∧ scan.snapshot.satisfies t.tSelf := by
  rw [blockTuples]
  cases hp : scan.relation.blocks[block]?
  case none      =>
    simp only [List.not_mem_nil, false_iff]
    rintro ⟨h, rfl, -⟩
    cases hp.symm.trans h.block
  case some page =>
    simp only [ScanDirection.mem_inOrder, visibleTuples, List.mem_filter]
    constructor
    case mp =>
      rintro ⟨ht, hs⟩
      obtain ⟨rfl, ho, rfl, hi, hn⟩ := HeapTable.mem_blockTuples ht
      exact ⟨⟨hp, ho, hi, hn⟩, rfl, hs⟩
    case mpr =>
      rintro ⟨h, rfl, hs⟩
      cases hp.symm.trans h.block
      exact ⟨h.mem_blockTuples, hs⟩

theorem mem_tuples : t ∈ scan.tuples ↔ scan.Visible t := by
  simp only [tuples, List.mem_flatMap, mem_blockTuples, mem_order, Visible, HeapTable.mem_heapTuples]
  constructor
  case mp =>
    rintro ⟨block, ⟨-, hb⟩, h, rfl, hs⟩
    exact ⟨⟨h, hs⟩, hb⟩
  case mpr =>
    rintro ⟨⟨h, hs⟩, hb⟩
    exact ⟨t.tSelf.blkno, ⟨(List.getElem?_eq_some_iff.mp h.block).fst, hb⟩, h, rfl, hs⟩

theorem nodup_tuples : scan.tuples.Nodup := by
  rw [tuples, List.nodup_flatMap]
  constructor
  case left =>
    intro block _
    rw [blockTuples]
    split
    case h_1 => exact List.nodup_nil
    case h_2 => exact ScanDirection.nodup_inOrder (HeapTable.nodup_blockTuples.filter _)
  case right =>
    refine nodup_order.imp fun hne t ht hu => hne ?_
    exact (mem_blockTuples.mp ht).right.left.symm.trans (mem_blockTuples.mp hu).right.left

theorem Visible.holds (h : scan.Visible t) : scan.relation.Holds t :=
  HeapTable.holds_of_mem h.left

theorem tuples_inj {u : ScanTuple} (ht : scan.Visible t) (hu : scan.Visible u) (h : t.tSelf = u.tSelf) :
    t = u :=
  ht.holds.eq hu.holds h

-- What is stored in the slot is the decrypted tuple.
theorem getnextslot_eq_decrypted (h : scan.relation.Holds t) :
    scan.relation.getnextslot P t = .ok (scan.decrypted P t) :=
  h.getnextslot_eq

def slot (scan : HeapScan Datum) (P : Platform) (t : ScanTuple) : ItemPointer × List UInt8 :=
  (t.tSelf, scan.decrypted P t)

-- The tuples ahead, all of which are in the table.
def AheadHeld (scan : HeapScan Datum) (s : HeapScanState) (ts : List ScanTuple) : Prop :=
  scan.Ahead s ts ∧ ∀ t ∈ ts, scan.relation.Holds t

theorem pgTdeGetnextslot_finds (h : scan.AheadHeld s ts) :
    Finds scan.keyTestStored (scan.slot P) scan.AheadHeld ts (scan.pgTdeGetnextslot P s) := by
  have hf := h.left.gettup
  have hm : (if scan.pagemode then scan.pgTdeGettupPagemode else scan.pgTdeGettup) =
      scan.gettup scan.lineLoop := by
    rw [lineLoop]
    split <;> rfl
  rw [FindsTuple, Finds] at hf
  rw [Finds, pgTdeGetnextslot, hm]
  cases hs : firstMatch scan.keyTestStored ts
  case error e =>
    simp only [hs] at hf
    rw [hf]
    rfl
  case ok found =>
    cases found
    case none =>
      simp only [hs] at hf
      obtain ⟨s', hf⟩ := hf
      rw [hf]
      exact ⟨s', rfl⟩
    case some found =>
      obtain ⟨t, rest⟩ := found
      simp only [hs] at hf
      obtain ⟨s', hf, ha⟩ := hf
      obtain ⟨before, rfl⟩ := firstMatch_eq_some hs
      have ht := h.right t (by simp)
      simp only [hf, id, Outcome.ok_bind, getnextslot_eq_decrypted ht]
      exact ⟨s', rfl, ha, fun u hu => h.right u (by simp [hu])⟩

-- The slots that the scan fills are those of the tuples whose encrypted attributes satisfy the keys.
theorem exhausts_getnextslot {slots : List (ItemPointer × List UInt8)} :
    Exhausts (scan.pgTdeGetnextslot P) scan.pgTdeBeginscan slots ↔
    (∀ t, scan.Visible t → ∃ b, scan.keyTestStored t = .ok b) ∧
      slots = (scan.tuples.filter (passes scan.keyTestStored)).map (scan.slot P) := by
  have ha : scan.AheadHeld scan.pgTdeBeginscan scan.tuples :=
    ⟨.begin, fun t ht => (mem_tuples.mp ht).holds⟩
  simp only [exhausts_iff (fun _ _ => pgTdeGetnextslot_finds) (pgTdeGetnextslot_finds ha), mem_tuples]

-- The test of the keys comes out the same for the tuple as it is stored and as it is decrypted.
def TestsAlike (scan : HeapScan Datum) (P : Platform) (t : ScanTuple) : Prop :=
  ∃ b, scan.keyTest t.tSelf t.tData = .ok b ∧ (b ↔ scan.keyTest t.tSelf (scan.decrypted P t) = .ok true)

theorem slot_mem (h : scan.Visible t) :
    scan.slot P t ∈ (scan.tuples.filter (passes scan.keyTestStored)).map (scan.slot P) ↔
    scan.keyTestStored t = .ok true := by
  rw [List.mem_map, ←passes_iff]
  constructor
  case mp =>
    rintro ⟨u, hu, he⟩
    obtain ⟨hu, hp⟩ := List.mem_filter.mp hu
    rwa [tuples_inj h (mem_tuples.mp hu) (congrArg Prod.fst he).symm]
  case mpr => exact fun hp => ⟨t, List.mem_filter.mpr ⟨mem_tuples.mpr h, hp⟩, rfl⟩

theorem FiltersPlaintext.testsAlike (h : scan.FiltersPlaintext P) (ht : scan.Visible t) :
    scan.TestsAlike P t := by
  obtain ⟨slots, he, -, hs⟩ := h
  obtain ⟨hok, rfl⟩ := exhausts_getnextslot.mp he
  obtain ⟨b, hb⟩ := hok t ht
  refine ⟨b, hb, ?_⟩
  have hiff : b ↔ scan.keyTestStored t = .ok true := by simp [hb]
  rw [hiff, ←slot_mem ht, slot, hs]
  constructor
  case mp =>
    rintro ⟨u, hu, -, -, hk⟩
    exact hk
  case mpr => exact fun hk => ⟨t, ht, rfl, rfl, hk⟩

theorem filtersPlaintext_of_testsAlike (h : ∀ t, scan.Visible t → scan.TestsAlike P t) :
    scan.FiltersPlaintext P := by
  refine ⟨_, exhausts_getnextslot.mpr ⟨fun t ht => ?_, rfl⟩, ?_, ?_⟩
  · obtain ⟨b, hb, -⟩ := h t ht
    exact ⟨b, hb⟩
  · rw [List.map_map]
    refine (nodup_tuples.filter _).map_on fun t ht u hu he => ?_
    exact tuples_inj (mem_tuples.mp (List.mem_of_mem_filter ht)) (mem_tuples.mp (List.mem_of_mem_filter hu)) he
  · intro tSelf tuple
    constructor
    case mp =>
      intro hm
      obtain ⟨t, ht, he⟩ := List.mem_map.mp hm
      cases he
      have ht := mem_tuples.mp (List.mem_of_mem_filter ht)
      obtain ⟨b, hb, hk⟩ := h t ht
      have hs := (slot_mem ht).mp hm
      rw [keyTestStored, hb, Except.ok.injEq] at hs
      exact ⟨t, ht, rfl, rfl, hk.mp hs⟩
    case mpr =>
      rintro ⟨t, ht, rfl, rfl, hk⟩
      obtain ⟨b, hb, hkb⟩ := h t ht
      refine (slot_mem ht).mpr ?_
      rw [keyTestStored, hb, hkb.mpr hk]

-- The scan filters on plaintext iff the encryption makes no difference to the keys.
theorem filtersPlaintext_iff (scan : HeapScan Datum) (P : Platform) :
    scan.FiltersPlaintext P ↔ ∀ t, scan.Visible t → scan.TestsAlike P t where
  mp h _ := h.testsAlike
  mpr    := filtersPlaintext_of_testsAlike

-- A scan for the value 42 of an attribute of one byte.
def keyScan : HeapScan UInt8 where
  relation            := ValidateIndex.concurrentIndex.rel
  snapshot            := { satisfies := fun _ => true, isMvcc := true, takenDuringRecovery := false }
  key                 := [{ skIsnull := false, skAttno := 1, skFunc := fun value => .ok (value = 42) }]
  parallelScan        := none
  allowPagemode       := true
  allowSync           := false
  dir                 := .forward
  nBuffers            := 16384
  usesLocalBuffers    := false
  synchronizeSeqscans := false
  location            := 0
  pageIsAllVisible _  := false
  heapGetattr _ t _   := .ok t[24]?
  location_lt _       := Nat.zero_lt_one
  allVisible          := by simp
  parallel_nodup      := by simp
  parallel_lt         := by simp
  parallel_forward    := by simp

-- The value is in the table, but what is found on the page is its encryption.
theorem not_filtersPlaintext_keyScan : ¬keyScan.FiltersPlaintext ValidateIndex.indexPlatform := by
  intro h
  let t : ScanTuple := ⟨⟨0, 1⟩, ValidateIndex.indexedPage, ⟨8160, .normal, 32⟩⟩
  have ht : keyScan.Visible t := by
    refine ⟨HeapTable.mem_heapTuples.mpr ⟨⟨rfl, Nat.one_ne_zero, rfl, rfl⟩, rfl⟩, ?_⟩
    rintro blocks ⟨⟩
  have hs : keyScan.keyTest t.tSelf t.tData = .ok false := by decide
  have hd : keyScan.keyTest t.tSelf (keyScan.decrypted ValidateIndex.indexPlatform t) = .ok true := by decide
  obtain ⟨b, hb, hk⟩ := h.testsAlike ht
  rw [hs, Except.ok.injEq] at hb
  have hk := hk.mpr hd
  rw [←hb] at hk
  cases hk

end HeapScan
