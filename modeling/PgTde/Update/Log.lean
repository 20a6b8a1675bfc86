import PgTde.Page.AddItem

-- The length of the common prefix of two byte strings.
def commonPrefix : List UInt8 → List UInt8 → Nat
  | a :: as, b :: bs => if a = b then commonPrefix as bs + 1 else 0
  | _, _             => 0

-- The part of the WAL record of an update that the new tuple is rebuilt from. A prefix or suffix of
-- length zero stands for an unset flag XLH_UPDATE_PREFIX_FROM_OLD or XLH_UPDATE_SUFFIX_FROM_OLD.
structure UpdateRecord where
  prefixlen : Nat
  suffixlen : Nat
  hoff      : Nat
  data      : List UInt8

-- The old tuple is given by its place on the page, and the new one by its bytes in memory. `compress` is
-- the condition that both are on one page of which no full-page image is taken, and that no tuple data
-- is needed for logical decoding.
def logPgTdeUpdate (compress : Bool) (page : Page) (oldOff oldLen : Nat) (newtup : List UInt8) :
    UpdateRecord :=
  let oldHoff := tHoff page.mem oldOff
  let newHoff := itemHoff newtup
  let oldp := page.mem.read (oldOff + oldHoff) (oldLen - oldHoff)
  let newp := newtup.drop newHoff
  let prefixlen :=
    let n := commonPrefix newp oldp
    if compress ∧ ¬n < 3 then n else 0
  let suffixlen :=
    let limit := min oldp.length newp.length - prefixlen
    let n := commonPrefix (newp.reverse.take limit) (oldp.reverse.take limit)
    if compress ∧ ¬n < 3 then n else 0
  -- The encrypted data of the new tuple is taken from the page.
  let bitmap := page.mem.read (page.pdUpper + sizeofHeapTupleHeader) (newHoff - sizeofHeapTupleHeader)
  let data :=
    if prefixlen = 0 then
      page.mem.read (page.pdUpper + sizeofHeapTupleHeader)
        (newtup.length - sizeofHeapTupleHeader - suffixlen)
    else
      bitmap ++ page.mem.read (page.pdUpper + newHoff + prefixlen)
        (newtup.length - newHoff - prefixlen - suffixlen)
  { prefixlen, suffixlen, hoff := newHoff, data }

-- The bytes of the new tuple from SizeofHeapTupleHeader on, as `pg_tde_xlog_update` rebuilds them from the
-- record and the old tuple.
def UpdateRecord.rebuild (r : UpdateRecord) (old : Memory) (oldOff oldLen : Nat) : List UInt8 :=
  let newp :=
    if r.prefixlen > 0 then
      let len := r.hoff - sizeofHeapTupleHeader
      r.data.take len ++ old.read (oldOff + tHoff old oldOff) r.prefixlen ++ r.data.drop len
    else
      r.data
  if r.suffixlen > 0
  then newp ++ old.read (oldOff + oldLen - r.suffixlen) r.suffixlen
  else newp
