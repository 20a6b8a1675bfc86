import PgTde.Encryption.Theorems.Aes
import PgTde.Index.Scan
import PgTde.Library.Cursor

inductive ScanDirection
  | backward
  | forward
  deriving DecidableEq, Repr

-- lineoff += dir
def ScanDirection.advance : ScanDirection → Nat → Nat
  | .backward, line => line - 1
  | .forward, line  => line + 1

-- A scan key, with `sk_func` as a function of the attribute, for its argument and collation.
structure ScanKeyData (Datum : Type) where
  skIsnull : Bool
  skAttno  : Int
  skFunc   : Datum → Outcome Bool

-- `HeapKeyTest`, on a tuple with the attributes `getattr`.
def heapKeyTest {Datum : Type} (getattr : Int → Outcome (Option Datum)) :
    List (ScanKeyData Datum) → Outcome Bool
  | []          => .ok true
  | key :: keys =>
    if key.skIsnull then
      .ok false
    else do
      match ← getattr key.skAttno with
      | none     => return false
      | some atp => if ← key.skFunc atp then heapKeyTest getattr keys else return false

structure Snapshot where
  -- HeapTupleSatisfiesVisibility
  satisfies           : ItemPointer → Bool
  isMvcc              : Bool
  takenDuringRecovery : Bool

-- The arguments of `pg_tde_beginscan`, what it depends on besides, and the direction of the calls of
-- `pg_tde_getnextslot`. The table has the pages that the scan finds, which are those that are left by
-- `pg_tde_page_prune_opt` in page-at-a-time mode.
structure HeapScan (Datum : Type) where
  relation            : HeapTable
  snapshot            : Snapshot
  key                 : List (ScanKeyData Datum)
  -- The blocks that `table_block_parallelscan_nextpage` hands out to the scan, if it is parallel.
  parallelScan        : Option (List Nat)
  allowPagemode       : Bool
  allowSync           : Bool
  dir                 : ScanDirection
  nBuffers            : Nat
  usesLocalBuffers    : Bool
  synchronizeSeqscans : Bool
  -- ss_get_location
  location            : Nat
  -- PD_ALL_VISIBLE
  pageIsAllVisible    : Nat → Bool
  -- PostgreSQL's function for a tuple with a TID.
  heapGetattr         : ItemPointer → List UInt8 → Int → Outcome (Option Datum)
  location_lt         : relation.blocks ≠ [] → location < relation.blocks.length
  allVisible          : snapshot.takenDuringRecovery = false →
    ∀ blkno page, relation.blocks[blkno]? = some page → pageIsAllVisible blkno →
    ∀ t ∈ HeapTable.blockTuples blkno page, snapshot.satisfies t.tSelf
  parallel_nodup      : ∀ blocks ∈ parallelScan, blocks.Nodup
  parallel_lt         : ∀ blocks ∈ parallelScan, ∀ block ∈ blocks, block < relation.blocks.length
  -- backward parallel scan not supported
  parallel_forward    : parallelScan.isSome → dir = .forward

-- The fields of a scan that change.
structure HeapScanState where
  rsInited     : Bool
  -- The limit that is imposed by `pg_tde_setscanlimits`.
  rsNumblocks  : Option Nat
  parallelWork : List Nat
  rsCblock     : Option Nat
  rsCoffset    : Nat
  rsCindex     : Nat
  rsVistuples  : List Nat

namespace HeapScan

variable {Datum : Type} (scan : HeapScan Datum)

def rsNblocks : Nat :=
  scan.relation.blocks.length

def rsStartblock : Nat :=
  let allowSync := ¬scan.usesLocalBuffers ∧ scan.rsNblocks > scan.nBuffers / 4 ∧ scan.allowSync
  if allowSync ∧ scan.synchronizeSeqscans then scan.location else 0

-- Page-at-a-time mode is disabled if it is not an MVCC-safe snapshot.
def pagemode : Bool :=
  scan.allowPagemode && scan.snapshot.isMvcc

def pgTdeBeginscan : HeapScanState where
  rsInited     := false
  rsNumblocks  := none
  parallelWork := scan.parallelScan.getD []
  rsCblock     := none
  rsCoffset    := 0
  rsCindex     := 0
  rsVistuples  := []

-- The test of the scan keys on a tuple with its TID.
def keyTest (tSelf : ItemPointer) (tuple : List UInt8) : Outcome Bool :=
  heapKeyTest (scan.heapGetattr tSelf tuple) scan.key

-- The line of a page, if it is a normal one.
def tupleAt (page : HeapPage) (block lineoff : Nat) : Outcome (Option ScanTuple) :=
  match page.getItemId lineoff with
  | none    => .error .undefined
  | some lp => .ok (if lp.isNormal then some { tSelf := ⟨block, lineoff⟩, page, lp } else none)

def pgTdeGetpage (block : Nat) (page : HeapPage) (s : HeapScanState) : HeapScanState :=
  let s := { s with rsCblock := some block }
  if scan.pagemode then
    let allVisible := scan.pageIsAllVisible block && !scan.snapshot.takenDuringRecovery
    let valid (t : ScanTuple) := allVisible || scan.snapshot.satisfies t.tSelf
    { s with rsVistuples := ((HeapTable.blockTuples block page).filter valid).map (·.tSelf.offnum) }
  else
    s

def tableBlockParallelscanNextpage (s : HeapScanState) : Option Nat × HeapScanState :=
  (s.parallelWork.head?, { s with parallelWork := s.parallelWork.tail })

-- `none` is `InvalidBlockNumber`.
def pgTdeGettupInitialBlock (s : HeapScanState) : Option Nat × HeapScanState :=
  if scan.rsNblocks = 0 ∨ s.rsNumblocks = some 0 then
    (none, s)
  else
    match scan.dir with
    | .forward  =>
      match scan.parallelScan with
      | none   => (some scan.rsStartblock, s)
      | some _ => tableBlockParallelscanNextpage s
    | .backward =>
      match s.rsNumblocks with
      | some numblocks => (some ((scan.rsStartblock + numblocks - 1) % scan.rsNblocks), s)
      | none           =>
        if scan.rsStartblock > 0
        then (some (scan.rsStartblock - 1), s)
        else (some (scan.rsNblocks - 1), s)

-- The check if the limit is met.
def limitBlock (block : Nat) (s : HeapScanState) : Option Nat × HeapScanState :=
  match s.rsNumblocks with
  | none           => (some block, s)
  | some numblocks =>
    (if numblocks - 1 = 0 then none else some block, { s with rsNumblocks := some (numblocks - 1) })

def pgTdeGettupAdvanceBlock (block : Nat) (s : HeapScanState) : Option Nat × HeapScanState :=
  match scan.dir with
  | .forward  =>
    match scan.parallelScan with
    | none   =>
      let block := if block + 1 ≥ scan.rsNblocks then 0 else block + 1
      if block = scan.rsStartblock then (none, s) else limitBlock block s
    | some _ => tableBlockParallelscanNextpage s
  | .backward =>
    if block = scan.rsStartblock
    then (none, s)
    else limitBlock (if block = 0 then scan.rsNblocks - 1 else block - 1) s

-- What differs between `pg_tde_gettup` and `pg_tde_gettup_pagemode`, whose loops over a page are over its
-- lines and its visible tuples.
structure LineLoop where
  -- `linesleft`, and the first line
  startPage    : HeapScanState → HeapPage → Nat × Nat
  continuePage : HeapScanState → HeapPage → Nat × Nat
  -- The visible tuple at a line.
  visible      : HeapScanState → HeapPage → Nat → Nat → Outcome (Option ScanTuple)
  found        : Nat → HeapScanState → HeapScanState

-- The loop over the lines of a page. The test of the key is of the tuple on the page, and is omitted without
-- a key, when it would hold.
def scanLines (visible : Nat → Outcome (Option ScanTuple)) :
    Nat → Nat → Outcome (Option (Nat × ScanTuple))
  | 0, _                => .ok none
  | linesleft + 1, line => do
    match ← visible line with
    | none       => scanLines visible linesleft (scan.dir.advance line)
    | some tuple =>
      if ← scan.keyTest tuple.tSelf tuple.tData
      then return some (line, tuple)
      else scanLines visible linesleft (scan.dir.advance line)

section

variable (loop : LineLoop)

-- The rest of the body of the loop over the blocks, from `continue_page` on, where `next` is the loop.
def scanPage (block : Nat) (page : HeapPage) (lines : Nat × Nat) (s : HeapScanState)
    (next : Option Nat → HeapScanState → Outcome (Option ScanTuple × HeapScanState)) :
    Outcome (Option ScanTuple × HeapScanState) := do
  match ← scan.scanLines (loop.visible s page block) lines.1 lines.2 with
  | some (line, tuple) => return (some tuple, loop.found line s)
  | none               =>
    let (block, s) := scan.pgTdeGettupAdvanceBlock block s
    next block s

-- The loop over the blocks. The fuel is the number of blocks, as no block is scanned twice.
def scanBlocks : Nat → Option Nat → HeapScanState → Outcome (Option ScanTuple × HeapScanState)
  | _, none, s               => .ok (none, { s with rsInited := false, rsCblock := none })
  | 0, some _, _             => .error .undefined
  | fuel + 1, some block, s  =>
    match scan.relation.blocks[block]? with
    | none      => .error .undefined
    | some page =>
      let s := scan.pgTdeGetpage block page s
      scan.scanPage loop block page (loop.startPage s page) s (scanBlocks fuel)

def gettup (s : HeapScanState) : Outcome (Option ScanTuple × HeapScanState) :=
  if ¬s.rsInited then
    let (block, s) := scan.pgTdeGettupInitialBlock s
    scan.scanBlocks loop scan.rsNblocks block { s with rsInited := true }
  else
    match s.rsCblock with
    | none       => .error .undefined
    | some block =>
      match scan.relation.blocks[block]? with
      | none      => .error .undefined
      | some page =>
        scan.scanPage loop block page (loop.continuePage s page) s (scan.scanBlocks loop scan.rsNblocks)

end

-- `pg_tde_gettup_start_page`, `pg_tde_gettup_continue_page` and the rest of the loop of `pg_tde_gettup`.
def gettupLines : LineLoop where
  startPage _ page    :=
    let linesleft := page.getMaxOffsetNumber
    match scan.dir with
    | .forward  => (linesleft, 1)
    | .backward => (linesleft, linesleft)
  continuePage s page :=
    match scan.dir with
    | .forward  => (page.getMaxOffsetNumber + 1 - (s.rsCoffset + 1), s.rsCoffset + 1)
    | .backward =>
      let lineoff := min page.getMaxOffsetNumber (s.rsCoffset - 1)
      (lineoff, lineoff)
  visible _ page block lineoff := do
    return (← tupleAt page block lineoff).filter (scan.snapshot.satisfies ·.tSelf)
  found lineoff s     := { s with rsCoffset := lineoff }

-- The loop of `pg_tde_gettup_pagemode`.
def pagemodeLines : LineLoop where
  startPage s _    :=
    let linesleft := s.rsVistuples.length
    (linesleft, match scan.dir with | .forward => 0 | .backward => linesleft - 1)
  continuePage s _ :=
    match scan.dir with
    | .forward  => (s.rsVistuples.length - (s.rsCindex + 1), s.rsCindex + 1)
    | .backward => (s.rsCindex, s.rsCindex - 1)
  visible s page block lineindex :=
    match s.rsVistuples[lineindex]? with
    | none         => .error .undefined
    | some lineoff => tupleAt page block lineoff
  found lineindex s := { s with rsCindex := lineindex }

def pgTdeGettup : HeapScanState → Outcome (Option ScanTuple × HeapScanState) :=
  scan.gettup scan.gettupLines

def pgTdeGettupPagemode : HeapScanState → Outcome (Option ScanTuple × HeapScanState) :=
  scan.gettup scan.pagemodeLines

-- The TID and the content of the slot, if the scan has not ended.
def pgTdeGetnextslot (P : Platform) (s : HeapScanState) :
    Outcome (Option (ItemPointer × List UInt8) × HeapScanState) := do
  let (tuple, s) ← (if scan.pagemode then scan.pgTdeGettupPagemode else scan.pgTdeGettup) s
  match tuple with
  | none   => return (none, s)
  | some t =>
    let slot ← scan.relation.getnextslot P t
    return (some (t.tSelf, slot), s)

-- The tuples that the snapshot lets the scan see: those of the whole table, unless the scan is parallel.
def Visible (t : ScanTuple) : Prop :=
  t ∈ scan.relation.heapTuples scan.snapshot.satisfies ∧
    ∀ blocks ∈ scan.parallelScan, t.tSelf.blkno ∈ blocks

-- The tuple with its data decrypted, which is not encrypted in a TOAST table.
def decrypted (P : Platform) (t : ScanTuple) : List UInt8 :=
  let hoff := tHoff t.page.mem t.lp.lpOff
  if scan.relation.relkind = .toastvalue
  then t.tData
  else t.tData.take hoff ++
    (P.keystream scan.relation.key).xor (offsetInFile t.tSelf.blkno t.lp.lpOff) (t.tData.drop hoff)

-- Repeated calls of `pg_tde_getnextslot` produce, once each, the visible tuples whose decrypted attributes
-- satisfy the scan keys.
def FiltersPlaintext (P : Platform) : Prop :=
  ∃ slots, Exhausts (scan.pgTdeGetnextslot P) scan.pgTdeBeginscan slots ∧ (slots.map (·.fst)).Nodup ∧
    ∀ tSelf tuple, (tSelf, tuple) ∈ slots ↔ ∃ t, scan.Visible t ∧ t.tSelf = tSelf ∧
      tuple = scan.decrypted P t ∧ scan.keyTest tSelf tuple = .ok true

end HeapScan
