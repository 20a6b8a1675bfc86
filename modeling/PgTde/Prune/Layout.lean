import PgTde.Encryption.Theorems.Tuple
import PgTde.Prune.Compact

-- The move of a tuple to its new place on the page.
structure Move where
  item : ItemIdCompactData
  dst  : Nat
  deriving DecidableEq, Repr

namespace Move

variable (k : Keystream) (bn : Nat)

abbrev src (m : Move) : Nat :=
  m.item.itemoff

def inPlace (m : Move) : Bool :=
  m.dst = m.src

-- Tuples are placed one below the other, in the order of their line pointers, from `upper` downwards.
def plan : Nat → List ItemIdCompactData → List Move
  | _, [] => []
  | upper, item :: items => ⟨item, upper - item.alignedlen⟩ :: plan (upper - item.alignedlen) items

-- The last tuple of a list of moves is re-encrypted with its own length, and every other one with the
-- length of its successor. In both cases `reach` is where the re-encryption ends.
def window (m next : Move) : Nat → UInt8 :=
  k.window (offsetInFile bn m.src) (offsetInFile bn m.dst) (m.src + sizeofHeapTupleHeaderData)
    (next.item.len - sizeofHeapTupleHeaderData)

def windows : List Move → List (Nat → UInt8)
  | []           => []
  | [m]          => [m.window k bn m]
  | m :: n :: ms => m.window k bn n :: windows (n :: ms)

def reach : List Move → List Nat
  | []           => []
  | [m]          => [m.src + m.item.len]
  | m :: n :: ms => (m.src + n.item.len) :: reach (n :: ms)

-- How many tuples, from the first one on, are adjacent to each other and therefore moved in one go.
def blockLength : List Move → Nat
  | []           => 0
  | [_]          => 1
  | m :: n :: ms => if m.src = n.src + n.item.alignedlen then blockLength (n :: ms) + 1 else 1

-- What the re-encryptions do to each tuple. Those executed until the tuple's block is moved reach the
-- tuple in its old place. The later ones reach it in its new place, if the page itself is what they
-- work on, as in the presorted case.
def masks (presorted : Bool) :
    List (Nat → UInt8) → List Move → List (Move × (Nat → UInt8))
  | _, [] => []
  | before, m :: ms =>
    let ws := windows k bn (m :: ms)
    let n := blockLength (m :: ms)
    let mask (j : Nat) :=
      Keystream.total (before ++ ws.take n) (m.src + j) ^^^
      if presorted then Keystream.total (ws.drop n) (m.dst + j) else 0
    (m, mask) :: masks presorted (before ++ ws.take 1) ms

-- What the move of a tuple calls for: no change in its header, and in its data the difference of the
-- keystream between the old and the new place.
def required (m : Move) (hoff : Nat) : Nat → UInt8 :=
  k.window (offsetInFile bn m.src) (offsetInFile bn m.dst) hoff (m.item.len - hoff)

end Move

-- The moves of a compaction. Those in `skipped` are the ones that are found to be in place at the start.
structure Layout where
  presorted : Bool
  skipped   : List Move
  moved     : List Move

namespace Layout

variable (k : Keystream) (bn : Nat)

def moves (l : Layout) : List Move :=
  l.skipped ++ l.moved

def windows (l : Layout) : List (Nat → UInt8) :=
  Move.windows k bn l.moved

def InBounds (l : Layout) : Prop :=
  ∀ a ∈ Move.reach l.moved, a ≤ blcksz

instance (l : Layout) : Decidable l.InBounds :=
  inferInstanceAs (Decidable (∀ _ ∈ _, _))

def masks (l : Layout) : List (Move × (Nat → UInt8)) :=
  let skippedMask (m : Move) (j : Nat) :=
    if l.presorted then Keystream.total (l.windows k bn) (m.dst + j) else 0
  l.skipped.map (fun m => (m, skippedMask m)) ++ Move.masks k bn l.presorted [] l.moved

end Layout

namespace Page

-- The items that have storage, in the order of their line pointers.
def storage (page : Page) : List ItemIdCompactData :=
  (page.linp.zipIdx.filter (·.1.hasStorage)).map fun (lp, i) =>
    ⟨i, lp.lpOff, lp.lpLen, maxalign lp.lpLen⟩

def presorted (page : Page) : Bool :=
  (page.pdSpecial :: page.storage.map (·.itemoff)).Pairwise (· > ·)

def layout (page : Page) : Layout :=
  let moves := Move.plan page.pdSpecial page.storage
  if page.presorted ∨ page.linp.length / 4 ≤ page.storage.length then
    { presorted := page.presorted
      skipped   := moves.takeWhile (·.inPlace)
      moved     := moves.dropWhile (·.inPlace) }
  else
    { presorted := false, skipped := [], moved := moves }

end Page
