import PgTde.Encryption.Theorems.Tuple
import PgTde.Index.RootTuples
import PgTde.Update.Columns

-- HEAP_XACT_MASK and HEAP2_XACT_MASK
def heapXactMask : UInt16 := 0xFFF0
def heap2XactMask : UInt16 := 0xE000

def heapUpdated : UInt16 := 0x2000

inductive TMResult
  | ok
  | invisible
  | selfModified
  | updated
  | deleted
  | beingModified
  deriving DecidableEq, Repr

inductive LockTupleMode
  | noKeyExclusive
  | exclusive
  deriving DecidableEq, Repr

inductive UpdateIndexes
  | none
  | all
  | summarizing
  deriving DecidableEq, Repr

-- A tuple in memory, with the size of its header.
structure FormedTuple where
  bytes   : List UInt8
  header  : sizeofHeapTupleHeaderData ≤ itemHoff bytes
  hoff_le : itemHoff bytes ≤ bytes.length

-- The new tuple with the appropriate initial values of xmin and xmax, and with initial infomask bits.
def prepareNewtup (xid cid xmax : UInt32) (infomask infomask2 : UInt16) (tup : List UInt8) : List UInt8 :=
  let newInfomask := tInfomask tup &&& ~~~heapXactMask ||| (heapUpdated ||| infomask)
  let newInfomask2 := tInfomask2 tup &&& ~~~heap2XactMask ||| infomask2
  toLittleEndian 4 xid.toNat ++ toLittleEndian 4 xmax.toNat ++ toLittleEndian 4 cid.toNat ++
    (tup.take 18).drop 12 ++ toLittleEndian 2 newInfomask2.toNat ++ toLittleEndian 2 newInfomask.toNat ++
    tup.drop 22

def storeInfomask2 (infomask2 : UInt16) (tup : List UInt8) : List UInt8 :=
  tup.take 18 ++ toLittleEndian 2 infomask2.toNat ++ tup.drop 20

-- HeapTupleSetHeapOnly and HeapTupleClearHeapOnly
def storeHeapOnly (heapOnly : Bool) (tup : List UInt8) : List UInt8 :=
  let infomask2 := tInfomask2 tup
  storeInfomask2 (if heapOnly then infomask2 ||| heapOnlyTuple else infomask2 &&& ~~~heapOnlyTuple) tup

-- HeapTupleSetHotUpdated and HeapTupleClearHotUpdated
def storeHotUpdated (hot : Bool) (tup : List UInt8) : List UInt8 :=
  let infomask2 := tInfomask2 tup
  storeInfomask2 (if hot then infomask2 ||| heapHotUpdated else infomask2 &&& ~~~heapHotUpdated) tup

-- The old tuple with info about the transaction that updates it, and with the address of the new one.
def storeUpdated (change : XmaxChange) (cid : UInt32) (iscombo : Bool) (ctid tup : List UInt8) : List UInt8 :=
  let infomask2 := tInfomask2 tup &&& ~~~heapKeysUpdated ||| change.infomask2
  let infomask := tInfomask tup &&& ~~~(heapXmaxBits ||| heapMoved) ||| change.infomask
  let infomask := if iscombo then infomask ||| heapCombocid else infomask &&& ~~~heapCombocid
  tup.take 4 ++ toLittleEndian 4 change.xmax.toNat ++ toLittleEndian 4 cid.toNat ++ ctid ++
    toLittleEndian 2 infomask2.toNat ++ toLittleEndian 2 infomask.toNat ++ tup.drop 22

-- Visibility checks set hint bits.
def storeHints (hints : UInt16) (tup : List UInt8) : List UInt8 :=
  tup.take 20 ++ toLittleEndian 2 (tInfomask tup ||| hints).toNat ++ tup.drop 22

-- A change of the header of the tuple that `lp` refers to, in front of t_hoff.
def Page.changeHeader (page : Page) (lp : ItemIdData) (f : List UInt8 → List UInt8) : Page :=
  { page with mem := page.mem.write lp.lpOff ((f (page.getItem lp)).take 22) }

-- A tuple of a table, the user data of which is encrypted for its place on the page.
structure EncryptedTuple (P : Platform) where
  relkind  : Relkind
  ordinary : relkind ≠ .toastvalue
  key      : Block
  bn       : Nat
  page     : Page
  offnum   : Nat
  lp       : ItemIdData
  item     : page.getItemId offnum = some lp
  normal   : lp.isNormal
  upper_le : page.pdUpper ≤ lp.lpOff
  fits     : lp.lpOff + lp.lpLen ≤ blcksz
  header   : sizeofHeapTupleHeaderData ≤ tHoff page.mem lp.lpOff
  hoff_le  : tHoff page.mem lp.lpOff ≤ lp.lpLen
  data     : List UInt8
  stored   : page.mem.read (lp.lpOff + tHoff page.mem lp.lpOff) (lp.lpLen - tHoff page.mem lp.lpOff) =
    (P.keystream key).xor (offsetInFile bn lp.lpOff) data

namespace EncryptedTuple

variable {P : Platform} (t : EncryptedTuple P)

def hoff : Nat :=
  tHoff t.page.mem t.lp.lpOff

def plain : List UInt8 :=
  t.page.mem.read t.lp.lpOff t.hoff ++ t.data

-- The tuple is still in its place on the page, with the same bytes from t_hoff on.
structure KeptBy (page : Page) : Prop where
  item     : page.getItemId t.offnum = some t.lp
  upper_le : page.pdUpper ≤ t.lp.lpOff
  bytes    : ∀ a, t.lp.lpOff + 22 ≤ a → a < t.lp.lpOff + t.lp.lpLen → page.mem a = t.page.mem a

-- The user data on the page.
def userData (page : Page) : List UInt8 :=
  page.mem.read (t.lp.lpOff + t.hoff) (t.lp.lpLen - t.hoff)

end EncryptedTuple

-- What other backends do to a page while the buffer is not locked. The pin keeps them from moving the tuple.
structure Meanwhile {P : Platform} (t : EncryptedTuple P) where
  run  : Page → Page
  kept : ∀ page, t.KeptBy page → t.KeptBy (run page)

-- The buffer that `pg_tde_RelationGetBufferForTuple` returns: that of the old tuple or another one.
inductive NewBuf
  | same
  | other (bn : Nat) (page : Page)

-- A call of `pg_tde_update`, with what it finds out about other transactions.
structure UpdateCall (P : Platform) where
  old                   : EncryptedTuple P
  tTableOid             : UInt32
  tupdesc               : TupleDesc
  hotAttrs              : Bitmapset
  sumAttrs              : Bitmapset
  keyAttrs              : Bitmapset
  idAttrs               : Bitmapset
  newtup                : FormedTuple
  xid                   : UInt32
  cid                   : UInt32
  inParallelMode        : Bool
  newPtr                : Memory
  -- The passes from the label l2 that are followed by another one, each with the hint bits that it sets.
  passes                : List (UInt16 × Meanwhile old)
  hints                 : UInt16
  result                : TMResult
  xmaxNewTuple          : UInt32
  infomaskNewTuple      : UInt16
  infomask2NewTuple     : UInt16
  -- compute_new_xmax_infomask(.., is_update, ..)
  newXmaxInfomask       : List UInt8 → LockTupleMode → Bool → XmaxChange
  -- HeapTupleHeaderAdjustCmax
  adjustCmax            : List UInt8 → UInt32 → UInt32 × Bool
  pageGetHeapFreeSpace  : Page → Nat
  toastInsertOrUpdate   : List UInt8 → List UInt8 → FormedTuple
  -- The times that the buffer is unlocked while a place for the new tuple is looked for. The page may get
  -- all-visible then, without the visibility map page being pinned.
  relocks               : List (Meanwhile old × Bool)
  newbuf                : NewBuf
  pageAddItem           : PageAddItem

structure UpdateResult where
  result        : TMResult
  lockmode      : LockTupleMode
  modifiedAttrs : Bitmapset
  useHotUpdate  : Bool
  updateIndexes : UpdateIndexes
  -- The page of the old tuple, and that of the new one if it is another one.
  page          : Page
  newpage       : Option (Nat × Page)

-- The page of the old tuple, the place for the new one, and the data that is stored there.
structure Place where
  page    : Page
  newbuf  : NewBuf
  heaptup : List UInt8

namespace UpdateCall

variable {P : Platform} (u : UpdateCall P)

def interestingAttrs : Bitmapset :=
  ((∅ ∪ u.hotAttrs) ∪ u.sumAttrs ∪ u.keyAttrs) ∪ u.idAttrs

-- From the decryption of the old tuple to the call of `HeapDetermineColumnsInfo`.
def determineColumns : Outcome ColumnsInfo := do
  let oldtup ← P.oldtupDecrypted u.old.bn u.old.key u.newPtr u.old.page.mem u.old.lp
  return heapDetermineColumnsInfo u.tupdesc u.idAttrs ⟨u.tTableOid, oldtup⟩
    ⟨u.tTableOid, u.newtup.bytes⟩ u.interestingAttrs

-- The old tuple has its page's bytes as `t_data` again.
def oldtup (page : Page) : List UInt8 :=
  page.getItem u.old.lp

-- A pass from the label l2 that waits for another transaction.
def checkPass (page : Page) (pass : UInt16 × Meanwhile u.old) : Page :=
  pass.2.run (page.changeHeader u.old.lp (storeHints pass.1))

def checkVisibility : Page :=
  let page := u.passes.foldl u.checkPass u.old.page
  page.changeHeader u.old.lp (storeHints u.hints)

-- The loop that looks for a place for the new tuple. When no other backend interferes any more, it ends.
def findBuffer (heaptup : List UInt8) : List (Meanwhile u.old × Bool) → Nat → Page → Place
  | [], pagefree, page =>
    if maxalign heaptup.length > pagefree ∨ maxalign heaptup.length > u.pageGetHeapFreeSpace page
    then { page, newbuf := u.newbuf, heaptup }
    else { page, newbuf := .same, heaptup }
  | (others, allVisible) :: relocks, pagefree, page =>
    let page := others.run page
    if maxalign heaptup.length > pagefree then
      { page, newbuf := u.newbuf, heaptup }
    else
      let pagefree := u.pageGetHeapFreeSpace page
      if maxalign heaptup.length > pagefree ∨ allVisible
      then findBuffer heaptup relocks pagefree page
      else { page, newbuf := .same, heaptup }

def needToast (oldtup newtup : List UInt8) : Bool :=
  if u.old.relkind = .toastvalue
  then false
  else heapTupleHasExternal oldtup ∨ heapTupleHasExternal newtup ∨ newtup.length > toastTupleThreshold

-- The old tuple is locked in its place before the toaster is called or the buffer is unlocked.
def prepareStore (lockmode : LockTupleMode) (cid : UInt32) (iscombo : Bool) (page : Page)
    (newtup : List UInt8) : Place :=
  let needToast := u.needToast (u.oldtup page) newtup
  let pagefree := u.pageGetHeapFreeSpace page
  if needToast ∨ maxalign newtup.length > pagefree then
    let change := u.newXmaxInfomask (u.oldtup page) lockmode false
    let page := page.changeHeader u.old.lp (storeXmax change cid iscombo (itemPointer u.old.bn u.old.offnum))
    let heaptup := if needToast then (u.toastInsertOrUpdate newtup (u.oldtup page)).bytes else newtup
    u.findBuffer heaptup u.relocks pagefree page
  else
    { page, newbuf := .same, heaptup := newtup }

-- The changes to the pages in the critical section.
def store (change : XmaxChange) (cid : UInt32) (iscombo useHotUpdate : Bool) (place : Place) :
    Outcome (Page × Option (Nat × Page)) := do
  let page := place.page.changeHeader u.old.lp (storeHotUpdated useHotUpdate)
  let heaptup := storeHeapOnly useHotUpdate place.heaptup
  match place.newbuf with
  | .same             =>
    let tSelf := itemPointer u.old.bn (u.pageAddItem.run page heaptup).2
    let page ← P.pgTdeRelationPutHeapTuple u.pageAddItem u.old.key u.old.bn page heaptup false
    return (page.changeHeader u.old.lp (storeUpdated change cid iscombo tSelf), none)
  | .other bn newpage =>
    let tSelf := itemPointer bn (u.pageAddItem.run newpage heaptup).2
    let newpage ← P.pgTdeRelationPutHeapTuple u.pageAddItem u.old.key bn newpage heaptup false
    return (page.changeHeader u.old.lp (storeUpdated change cid iscombo tSelf), some (bn, newpage))

def useHotUpdate (modifiedAttrs : Bitmapset) (newbuf : NewBuf) : Bool :=
  match newbuf with
  | .same      => Disjoint modifiedAttrs u.hotAttrs
  | .other _ _ => false

-- The part of `pg_tde_update` that follows the checks.
def updateTuple (modifiedAttrs : Bitmapset) (lockmode : LockTupleMode) (page : Page) :
    Outcome UpdateResult := do
  let change := u.newXmaxInfomask (u.oldtup page) lockmode true
  let newtup := prepareNewtup u.xid u.cid u.xmaxNewTuple u.infomaskNewTuple u.infomask2NewTuple u.newtup.bytes
  let cmax := u.adjustCmax (u.oldtup page) u.cid
  let place := u.prepareStore lockmode cmax.1 cmax.2 page newtup
  let useHotUpdate := u.useHotUpdate modifiedAttrs place.newbuf
  let pages ← u.store change cmax.1 cmax.2 useHotUpdate place
  let updateIndexes : UpdateIndexes :=
    if useHotUpdate then
      if Disjoint modifiedAttrs u.sumAttrs then .none else .summarizing
    else
      .all
  return { result := .ok, lockmode, modifiedAttrs, useHotUpdate, updateIndexes, page := pages.1,
           newpage := pages.2 }

def pgTdeUpdate : Outcome UpdateResult :=
  if u.inParallelMode then
    .error <| .error "cannot update tuples during a parallel operation"
  else do
    let info ← u.determineColumns
    let lockmode := if Disjoint info.modified u.keyAttrs then LockTupleMode.noKeyExclusive else .exclusive
    let page := u.checkVisibility
    if u.result = .invisible then
      .error <| .error "attempted to update invisible tuple"
    else if u.result ≠ .ok then
      return { result := u.result, lockmode, modifiedAttrs := info.modified, useHotUpdate := false,
               updateIndexes := .none, page, newpage := none }
    else
      u.updateTuple info.modified lockmode page

-- The attribute counts as modified: its values in the plaintext of the old tuple and in the new tuple differ,
-- or it is one that is never compared.
def Differs (attidx : Nat) : Prop :=
  let attrnum : Int := attidx + firstLowInvalidHeapAttributeNumber
  attrnum = 0 ∨ attrnum < 0 ∧ attrnum ≠ tableOidAttributeNumber ∨
  attrnum > 0 ∧
    u.tupdesc.heapGetattr u.old.plain attrnum.toNat ≠ u.tupdesc.heapGetattr u.newtup.bytes attrnum.toNat

instance : DecidablePred u.Differs :=
  fun _ => inferInstanceAs (Decidable (_ ∨ _))

end UpdateCall
