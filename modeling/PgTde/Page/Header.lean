import PgTde.Library.LittleEndian
import PgTde.Page.AddItem

-- TOAST_TUPLE_THRESHOLD
def toastTupleThreshold : Nat :=
  (blcksz - maxalign (sizeOfPageHeaderData + 4 * sizeofItemIdData)) / 4 / 8 * 8

-- The flags of t_infomask and t_infomask2.
def heapHasnull : UInt16 := 0x0001
def heapHasexternal : UInt16 := 0x0004
-- HEAP_COMBOCID
def heapCombocid : UInt16 := 0x0020
def heapXmaxBits : UInt16 := 0x1CD0
def heapMoved : UInt16 := 0xC000
def heapNattsMask : UInt16 := 0x07FF
def heapKeysUpdated : UInt16 := 0x2000
def heapHotUpdated : UInt16 := 0x4000

def tInfomask2 (tup : List UInt8) : UInt16 :=
  .ofNat (unsignedAt 2 tup 18)

def tInfomask (tup : List UInt8) : UInt16 :=
  .ofNat (unsignedAt 2 tup 20)

-- The infomask of a tuple holds the flag HEAP_HASEXTERNAL.
def heapTupleHasExternal (tup : List UInt8) : Bool :=
  (tup[20]?.getD 0).toNat / 4 % 2 = 1

-- What `compute_new_xmax_infomask` yields.
structure XmaxChange where
  xmax           : UInt32
  infomask       : UInt16
  infomask2      : UInt16
  infomask_bits  : infomask &&& ~~~heapXmaxBits = 0
  infomask2_bits : infomask2 &&& ~~~heapKeysUpdated = 0

-- A tuple after `change` and the command id have been stored in its header.
def storeXmax (change : XmaxChange) (cid : UInt32) (iscombo : Bool) (ctid tup : List UInt8) : List UInt8 :=
  let infomask2 := (tInfomask2 tup &&& ~~~heapKeysUpdated ||| change.infomask2) &&& ~~~heapHotUpdated
  let infomask := tInfomask tup &&& ~~~(heapXmaxBits ||| heapMoved) ||| change.infomask
  let infomask := if iscombo then infomask ||| heapCombocid else infomask &&& ~~~heapCombocid
  tup.take 4 ++ toLittleEndian 4 change.xmax.toNat ++ toLittleEndian 4 cid.toNat ++ ctid ++
    toLittleEndian 2 infomask2.toNat ++ toLittleEndian 2 infomask.toNat ++ tup.drop 22

-- A tuple after its speculative insertion has been aborted.
def storeKilled (ctid tup : List UInt8) : List UInt8 :=
  let infomask2 := tInfomask2 tup &&& ~~~heapKeysUpdated
  let infomask := tInfomask tup &&& ~~~(heapXmaxBits ||| heapMoved)
  toLittleEndian 4 0 ++ (tup.take 12).drop 4 ++ ctid ++
    toLittleEndian 2 infomask2.toNat ++ toLittleEndian 2 infomask.toNat ++ tup.drop 22
