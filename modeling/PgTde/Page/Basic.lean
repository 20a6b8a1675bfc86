import PgTde.Encryption.Tuple

def sizeOfPageHeaderData : Nat := 24
def sizeofItemIdData : Nat := 4
def maxHeapTuplesPerPage : Nat := 291

def maxalign (n : Nat) : Nat :=
  (n + 7) / 8 * 8

inductive LpFlags
  | unused
  | normal
  | redirect
  | dead
  deriving DecidableEq, Repr

structure ItemIdData where
  lpOff   : Nat
  lpFlags : LpFlags
  lpLen   : Nat
  deriving DecidableEq, Repr

namespace ItemIdData

def isUsed (lp : ItemIdData) : Bool :=
  lp.lpFlags ≠ .unused

def isNormal (lp : ItemIdData) : Bool :=
  lp.lpFlags = .normal

def hasStorage (lp : ItemIdData) : Bool :=
  lp.lpLen ≠ 0

def setUnused (_ : ItemIdData) : ItemIdData :=
  { lpOff := 0, lpFlags := .unused, lpLen := 0 }

def setDead (_ : ItemIdData) : ItemIdData :=
  { lpOff := 0, lpFlags := .dead, lpLen := 0 }

def setRedirect (_ : ItemIdData) (link : Nat) : ItemIdData :=
  { lpOff := link, lpFlags := .redirect, lpLen := 0 }

end ItemIdData

-- A page. Its line pointer array is kept apart from the bytes behind it, and `pd_lower` is kept as the
-- number of line pointers that it stands for.
structure Page where
  pdUpper        : Nat
  pdSpecial      : Nat
  pdHasFreeLines : Bool
  linp           : List ItemIdData
  mem            : Memory

namespace Page

-- PageInit(page, BLCKSZ, 0)
def init : Page where
  pdUpper        := blcksz
  pdSpecial      := blcksz
  pdHasFreeLines := false
  linp           := []
  mem            := Memory.zero

def pdLower (page : Page) : Nat :=
  sizeOfPageHeaderData + sizeofItemIdData * page.linp.length

def getMaxOffsetNumber (page : Page) : Nat :=
  page.linp.length

-- Offset numbers count from `FirstOffsetNumber`, which is one.
def getItemId (page : Page) (offnum : Nat) : Option ItemIdData :=
  if offnum = 0 then none else page.linp[offnum - 1]?

def modifyItemId (page : Page) (offnum : Nat) (f : ItemIdData → ItemIdData) : Page :=
  { page with linp := page.linp.modify (offnum - 1) f }

end Page
