import PgTde.Toast.Slice

-- The arguments of the decryption of a chunk: its place in the keystream, and how many bytes it is of.
def chunkCipher (startchunk endchunk sliceoffset slicelength : Nat) (compressed : Bool)
    (curchunk chunksize : Nat) : Int × Int :=
  let chcpystrt := if curchunk = startchunk then sliceoffset % toastMaxChunkSize else 0
  let chcpyend :=
    if curchunk = endchunk
    then (sliceoffset + slicelength - 1) % toastMaxChunkSize
    else chunksize - 1
  let chunkoffset : Int := curchunk * toastMaxChunkSize - sliceoffset
  let (chcpystrt, encryptOffset) :=
    if compressed then
      if curchunk = 0
      then (chcpystrt + tdeToastCompressHeaderSize, (chcpystrt : Int))
      else (chcpystrt, (chcpystrt : Int) - tdeToastCompressHeaderSize)
    else
      (chcpystrt, (chcpystrt : Int))
  (chunkoffset + encryptOffset, chcpyend - chcpystrt + 1)

-- The start of a compressed value that is fetched, up to some byte of the payload.
structure CompressedPrefix where
  header    : List UInt8
  payload   : List UInt8
  length    : Nat
  header_eq : header.length = tdeToastCompressHeaderSize
  size_lt   : header.length + payload.length < 2 ^ 30
  length_ge : tdeToastCompressHeaderSize + 1 ≤ length
  length_le : length ≤ header.length + payload.length

namespace CompressedPrefix

variable (c : CompressedPrefix)

def size : Nat :=
  c.header.length + c.payload.length

def endchunk : Nat :=
  (c.length - 1) / toastMaxChunkSize

-- The number of bytes in a chunk of the value.
def chunksize (e : Nat) : Nat :=
  min toastMaxChunkSize (c.size - e * toastMaxChunkSize)

end CompressedPrefix
