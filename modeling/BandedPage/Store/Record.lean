import BandedPage.Band.Range
import BandedPage.Word

/-!
# Records of the block index

A record says for which bands a run of commands is meant and where the run begins. A record whose
bands are both -1 is the sentinel that ends a page. Sixteen bytes hold a record: the first band,
the last band and the offset, low bytes first.
-/

namespace BandedPage

/-- The index entry of one run. -/
structure BlockRecord where
  bandMin : Int
  bandMax : Int
  /-- Where the run begins in the command stream. -/
  offset : Int
  deriving DecidableEq, Repr

namespace BlockRecord

def size : Nat := 16

def ofRun (bands : BandRange) (offset : Nat) : BlockRecord :=
  { bandMin := Word.wrap32 bands.min, bandMax := Word.wrap32 bands.max
    offset := Word.signed 64 offset }

/-- The end of a page. -/
def sentinel (offset : Nat) : BlockRecord :=
  { bandMin := -1, bandMax := -1, offset := Word.signed 64 offset }

def isSentinel (r : BlockRecord) : Bool := r.bandMin == -1 && r.bandMax == -1

def appliesTo (r : BlockRecord) (band : Nat) : Bool :=
  !r.isSentinel && r.bandMin ≤ band && band ≤ r.bandMax

def position (r : BlockRecord) : Nat := Word.pattern 64 r.offset

def toBytes (r : BlockRecord) : List UInt8 :=
  Word.littleEndian 4 (Word.pattern32 r.bandMin) ++
    Word.littleEndian 4 (Word.pattern32 r.bandMax) ++
    Word.littleEndian 8 (Word.pattern 64 r.offset)

/-- The record in the first sixteen bytes. -/
def ofBytes (bs : List UInt8) : BlockRecord :=
  { bandMin := Word.wrap32 (Word.ofLittleEndian (bs.take 4))
    bandMax := Word.wrap32 (Word.ofLittleEndian ((bs.drop 4).take 4))
    offset := Word.signed 64 (Word.ofLittleEndian ((bs.drop 8).take 8)) }

@[simp] theorem isSentinel_sentinel (offset : Nat) : (sentinel offset).isSentinel = true := rfl

@[simp] theorem length_toBytes (r : BlockRecord) : r.toBytes.length = size := by
  simp [toBytes, size]

end BlockRecord

end BandedPage
