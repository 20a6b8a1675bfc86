import PgTde.Encryption.Tuple

open Cint

def toastMaxChunkSize : Nat := 1996
def tdeToastCompressHeaderSize : Nat := 4

-- The forms in which the data of a chunk may be stored.
inductive ChunkDatum
  | plain (data : List UInt8)
  | short (data : List UInt8)
  | toasted

structure ToastChunk where
  chunkSeq  : Nat
  chunkData : ChunkDatum

-- The TOAST value that is fetched from, as the caller describes it.
structure ToastRef where
  valueid  : Nat
  relname  : String
  attrsize : Nat

namespace ToastRef

variable (t : ToastRef)

def totalchunks : Nat :=
  (t.attrsize - 1) / toastMaxChunkSize + 1

-- The chunks that the index scan yields for the scan keys that are set up.
def scan (startchunk endchunk : Nat) (rows : List ToastChunk) : List ToastChunk :=
  if startchunk = 0 ∧ endchunk = t.totalchunks - 1 then
    rows
  else if startchunk = endchunk then
    rows.filter (·.chunkSeq = startchunk)
  else
    rows.filter fun c => startchunk ≤ c.chunkSeq ∧ c.chunkSeq ≤ endchunk

def chunkdata (c : ToastChunk) : Outcome (List UInt8) :=
  match c.chunkData with
  | .plain data => .ok data
  | .short data => .ok data
  | .toasted    => .error <| .error
    s!"found toasted toast chunk for toast value {t.valueid} in {t.relname}"

-- The checks on the data of a chunk.
def checkChunk (startchunk endchunk expectedchunk curchunk chunksize : Nat) : Outcome Unit :=
  let expectedSize :=
    if curchunk < t.totalchunks - 1
    then toastMaxChunkSize
    else t.attrsize - (t.totalchunks - 1) * toastMaxChunkSize
  if curchunk ≠ expectedchunk then
    .error <| .error <|
      s!"unexpected chunk number {curchunk} (expected {expectedchunk}) " ++
      s!"for toast value {t.valueid} in {t.relname}"
  else if curchunk > endchunk then
    .error <| .error <|
      s!"unexpected chunk number {curchunk} (out of range {startchunk}..{endchunk}) " ++
      s!"for toast value {t.valueid} in {t.relname}"
  else if chunksize ≠ expectedSize then
    .error <| .error <|
      s!"unexpected chunk size {chunksize} (expected {expectedSize}) " ++
      s!"in chunk {curchunk} of {t.totalchunks} for toast value {t.valueid} in {t.relname}"
  else
    .ok ()

end ToastRef

namespace Platform

variable (P : Platform)

-- The part of the loop body that copies the data of a chunk to its place in the result. Addresses in
-- `result` count from VARDATA(result), which `compressed` tells to be VARATT_IS_COMPRESSED.
def copyChunk (key : Block) (startchunk endchunk sliceoffset slicelength : Nat) (compressed : Bool)
    (curchunk : Nat) (chunkdata : List UInt8) (result : Memory) : Outcome Memory := do
  let chcpystrt := if curchunk = startchunk then sliceoffset % toastMaxChunkSize else 0
  let chcpyend :=
    if curchunk = endchunk
    then (sliceoffset + slicelength - 1) % toastMaxChunkSize
    else chunkdata.length - 1
  let header := chcpystrt + tdeToastCompressHeaderSize
  let chunkoffset : Int := curchunk * toastMaxChunkSize - sliceoffset
  let (result, chcpystrt, encryptOffset) :=
    if compressed then
      if curchunk = 0
      then (result.write 0 (chunkdata.extract chcpystrt header), header, (chcpystrt : Int))
      else (result, chcpystrt, (chcpystrt : Int) - tdeToastCompressHeaderSize)
    else
      (result, chcpystrt, (chcpystrt : Int))
  if chcpyend + 1 < chcpystrt ∨ chunkdata.length ≤ chcpyend then
    .error .undefined
  let decryptedData ← P.pgTdeCrypt (uint64 (chunkoffset + encryptOffset))
    (chunkdata.extract chcpystrt (chcpyend + 1)) key
  return result.write (uint64 (chunkoffset + chcpystrt)) decryptedData

-- The loop that reads the chunks by index.
def fetchChunks (t : ToastRef) (key : Block) (startchunk endchunk sliceoffset slicelength : Nat)
    (compressed : Bool) : List ToastChunk → Nat → Memory → Outcome Memory
  | [], expectedchunk, result =>
    if expectedchunk ≠ endchunk + 1 then
      .error <| .error
        s!"missing chunk number {expectedchunk} for toast value {t.valueid} in {t.relname}"
    else
      .ok result
  | c :: rows, expectedchunk, result => do
    let chunkdata ← t.chunkdata c
    t.checkChunk startchunk endchunk expectedchunk c.chunkSeq chunkdata.length
    let result ← P.copyChunk key startchunk endchunk sliceoffset slicelength compressed c.chunkSeq
      chunkdata result
    fetchChunks t key startchunk endchunk sliceoffset slicelength compressed rows (expectedchunk + 1)
      result

-- `rows` are the chunks of the value in `toastrel`, in the order of the index.
def pgTdeFetchToastSlice (rows : List ToastChunk) (key : Block) (t : ToastRef)
    (sliceoffset slicelength : Nat) (compressed : Bool) (result : Memory) : Outcome Memory :=
  let startchunk := sliceoffset / toastMaxChunkSize
  let endchunk := (sliceoffset + slicelength - 1) / toastMaxChunkSize
  P.fetchChunks t key startchunk endchunk sliceoffset slicelength compressed
    (t.scan startchunk endchunk rows) startchunk result

-- What `pg_tde_toast_tuple_externalize` puts in the place of the data of a value, before it hands the
-- value over to PostgreSQL's `toast_tuple_externalize`.
def pgTdeToastTupleExternalize (key : Block) (data : List UInt8) : Outcome (List UInt8) :=
  P.pgTdeCrypt 0 data key

end Platform
