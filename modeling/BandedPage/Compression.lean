import BandedPage.Error

/-!
# Compression methods

The low two bits of a command that carries a bitmap name the method of its payload.
-/

namespace BandedPage

/-- How the rows of a bitmap are coded. -/
inductive Compression where
  | none
  /-- Runs of equal bytes. -/
  | runLength
  /-- Two-dimensional facsimile coding, for 1 bit pixels. -/
  | facsimile
  deriving DecidableEq, Repr, Inhabited

namespace Compression

def code : Compression → UInt8
  | none => 0
  | runLength => 1
  | facsimile => 2

/-- The method of the low two bits of `c`. -/
def ofCode (c : UInt8) : Except Error Compression :=
  match (c &&& 3).toNat with
  | 0 => .ok none
  | 1 => .ok runLength
  | 2 => .ok facsimile
  | c => .error (.malformed s!"compression method {c}")

end Compression

/-- The methods a payload may use. -/
structure CompressionSet where
  runLength : Bool := false
  facsimile : Bool := false
  /-- The decoded rows do not pass through the reader's buffer. -/
  decodesElsewhere : Bool := false
  deriving DecidableEq, Repr, Inhabited

namespace CompressionSet

def allows (s : CompressionSet) : Compression → Bool
  | .none => true
  | .runLength => s.runLength
  | .facsimile => s.facsimile

/-- Some method other than leaving the rows alone is allowed. -/
def allowsAny (s : CompressionSet) : Bool := s.runLength || s.facsimile

/-- Bit 1 for run lengths, bit 2 for facsimile, bit 8 for decoding elsewhere. -/
def ofNat (n : Nat) : CompressionSet :=
  { runLength := n.testBit 1, facsimile := n.testBit 2, decodesElsewhere := n.testBit 8 }

def toNat (s : CompressionSet) : Nat :=
  (if s.runLength then 2 else 0) + (if s.facsimile then 4 else 0) +
    (if s.decodesElsewhere then 256 else 0)

/-- The methods for bitmaps of more than one bit a pixel. -/
def forDeepPixels (s : CompressionSet) : CompressionSet := { s with facsimile := false }

end CompressionSet

end BandedPage
