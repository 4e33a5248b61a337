import BandedPage.Bits.RunLength
import BandedPage.Compression
import BandedPage.Facsimile.Decode
import BandedPage.Facsimile.Encode

/-!
# Bitmap payloads

The rows of a bitmap follow its command at their short raster. They are compressed when that at
least halves them, and when replay has room to decode them.
-/

namespace BandedPage

/-- Rows ready to follow a command. -/
structure Payload where
  compression : Compression
  data : List UInt8
  /-- Bytes of the rows before compression. -/
  shortSize : Nat
  deriving DecidableEq, Repr

namespace Payload

/-- Fewer bytes than this are never compressed. -/
def minCompressed : Nat := 50

/-- The rows compressed by the best method of the set. -/
def compress (rows : Bytes) (raster height : Nat) (methods : CompressionSet) :
    Compression × List UInt8 :=
  if methods.facsimile then (.facsimile, Facsimile.encode rows raster height)
  else (.runLength, RunLength.encode (rows.extract 0 (raster * height)).toList)

/-- Compression is allowed, and replay can decode the rows. -/
def mayCompress (raster shortSize : Nat) (methods : CompressionSet) (readerSize : Nat) : Bool :=
  minCompressed ≤ shortSize && raster != 0 && methods.allowsAny &&
    (shortSize ≤ readerSize || methods.decodesElsewhere)

/-- The payload of `height` rows of `raster` bytes, for a reader with a buffer of `readerSize`. -/
def choose (rows : Bytes) (raster height : Nat) (methods : CompressionSet) (readerSize : Nat) :
    Except Error Payload :=
  let shortSize := raster * height
  let compressed :=
    if mayCompress raster shortSize methods readerSize then
      let (compression, data) := compress rows raster height methods
      if data.length ≤ shortSize / 2 && data.length ≤ readerSize then
        some { compression, data, shortSize }
      else none
    else none
  match compressed with
  | some payload => .ok payload
  | none =>
    if readerSize < shortSize then .error (.bitmapTooLarge shortSize readerSize)
    else .ok { compression := .none, data := (rows.extract 0 shortSize).toList, shortSize }

variable {σ : Type} [ByteSource σ]

def decode (compression : Compression) (raster height : Nat) : Decoder σ Bytes := do
  match compression with
  | .none => return (← ByteSource.take (raster * height)).toArray
  | .runLength => return (← RunLength.decode (raster * height)).toArray
  | .facsimile => if raster = 0 then return #[] else Facsimile.decode raster height

end Payload

end BandedPage
