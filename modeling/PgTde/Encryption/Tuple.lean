import PgTde.Encryption.Aes

open Cint

def blcksz : Nat := 8192

-- sizeof(HeapTupleHeaderData) and offsetof(HeapTupleHeaderData, t_bits)
def sizeofHeapTupleHeaderData : Nat := 24
def sizeofHeapTupleHeader : Nat := 23

-- (bn * BLCKSZ) + offset_in_page, where the product is of type `BlockNumber`, that is `uint32`.
def offsetInFile (bn offsetInPage : Nat) : Nat :=
  uint64 (uint32 (bn * blcksz) + offsetInPage)

-- The data of a tuple starts behind its header of `t_hoff` bytes, a field of the fixed header.
def tHoff (page : Memory) (tData : Nat) : Nat :=
  (page (tData + 22)).toNat

def tupleDataLen (page : Memory) (tData tLen : Nat) : Nat :=
  uint32 (tLen - tHoff page tData)

-- out[data_index] = data[data_index] ^ enc_key[enc_key_index]
def cryptByte (data encKey : List UInt8) (dataIndex encKeyIndex : Nat) : Outcome UInt8 :=
  match data[dataIndex]?, encKey[encKeyIndex]? with
  | some d, some k => .ok (d ^^^ k)
  | _, _           => .error .undefined

namespace Platform

variable (P : Platform)

-- The loop over batches. `out` holds the first `data_index` bytes of the output.
def cryptBatches (key : Block) (aesBlockNo aesEndBlock : Nat) (data : List UInt8) :
    Nat → Nat → Nat → List UInt8 → Outcome (List UInt8)
  | 0, _, _, _ => .error .undefined
  | fuel + 1, batchStartBlock, batchNo, out =>
    if batchStartBlock < aesEndBlock then do
      let batchEndBlock := min (uint64 (batchStartBlock + numAesBlocksInBatch)) aesEndBlock
      let encKey ← P.aes128EncryptedZeroBlocks key batchStartBlock batchEndBlock
      let skipped := if batchNo > 0 then 0 else aesBlockNo
      let batchBytes := uint32 ((batchEndBlock - batchStartBlock) * aesBlockSize - skipped)
      let currentBatchBytes :=
        if uint32 (out.length + batchBytes) > data.length
        then uint32 (data.length - out.length)
        else batchBytes
      let batch ← (List.range currentBatchBytes).mapM fun i =>
        cryptByte data encKey (out.length + i) (i + skipped)
      let nextBlock := uint64 (batchStartBlock + numAesBlocksInBatch)
      cryptBatches key aesBlockNo aesEndBlock data fuel nextBlock (batchNo + 1) (out ++ batch)
    else
      .ok out

def pgTdeCrypt (startOffset : Nat) (data : List UInt8) (key : Block) : Outcome (List UInt8) :=
  let aesStartBlock := startOffset / aesBlockSize
  let aesEndBlock := uint64 (startOffset + data.length + (aesBlockSize - 1)) / aesBlockSize
  let aesBlockNo := startOffset % aesBlockSize
  P.cryptBatches key aesBlockNo aesEndBlock data (aesEndBlock - aesStartBlock + 1) aesStartBlock 0 []

-- The loop over pieces of at most one batch. The buffers are given by their addresses in `mem`.
def moveEncryptedPieces (readStartOffset readData writeStartOffset writeData dataLen : Nat)
    (key : Block) : Nat → Nat → Nat → Memory → Outcome Memory
  | 0, _, _, _ => .error .undefined
  | fuel + 1, bytesLeft, currOffset, mem =>
    if bytesLeft > 0 then do
      let batchLen := min (min dataBytesPerAesBatch dataLen) bytesLeft
      let decrypted ← P.pgTdeCrypt (uint64 (readStartOffset + currOffset))
        (mem.read (readData + currOffset) batchLen) key
      let encrypted ← P.pgTdeCrypt (uint64 (writeStartOffset + currOffset)) decrypted key
      moveEncryptedPieces readStartOffset readData writeStartOffset writeData dataLen key fuel
        (bytesLeft - batchLen) (currOffset + batchLen)
        (mem.write (writeData + currOffset) encrypted)
    else
      .ok mem

def pgTdeMoveEncryptedData (mem : Memory) (readStartOffset readData writeStartOffset writeData : Nat)
    (dataLen : Nat) (key : Block) : Outcome Memory :=
  P.moveEncryptedPieces readStartOffset readData writeStartOffset writeData dataLen key
    (dataLen + 1) dataLen 0 mem

-- The bytes that go to the data part of `out_tuple`. The tuple is given by its offset in the page and
-- its length.
def pgTdeCryptTuple (bn : Nat) (page : Memory) (tData tLen : Nat) (key : Block) :
    Outcome (List UInt8) :=
  P.pgTdeCrypt (offsetInFile bn tData)
    (page.read (tData + tHoff page tData) (tupleDataLen page tData tLen)) key

-- PG_TDE_ENCRYPT_PAGE_ITEM
def encryptPageItem (bn offsetInPage : Nat) (data : List UInt8) (key : Block) :
    Outcome (List UInt8) :=
  P.pgTdeCrypt (offsetInFile bn offsetInPage) data key

-- PG_TDE_RE_ENCRYPT_TUPLE_DATA
def reEncryptTupleData (mem : Memory) (readBn readOffsetInPage readData : Nat)
    (writeBn writeOffsetInPage writeData dataLen : Nat) (key : Block) : Outcome Memory :=
  P.pgTdeMoveEncryptedData mem (offsetInFile readBn readOffsetInPage) readData
    (offsetInFile writeBn writeOffsetInPage) writeData dataLen key

end Platform
