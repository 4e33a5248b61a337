import BandedPage.Fixed
import BandedPage.Operand.Number

/-!
# Path offsets in a command stream

The operands of a segment command are fixed-point offsets. Each, or each pair, is a big-endian
number whose first bits name the form:

* `00`: two offsets of 19 bits in five bytes;
* `01`: 22 bits in three bytes;
* `10`: 30 bits in four bytes;
* `110`: a multiple of a quarter pixel of 13 bits, in two bytes;
* `111`: 32 bits in the four bytes that follow.

A multiple of a quarter pixel is always written as one; then pairs, then the shortest form. A
segment command has six places for its operands, and those it does not use hold zero.
-/

namespace BandedPage.Offset

/-- A multiple of a quarter pixel that fits the two-byte form. -/
def isQuarter (d : Fixed) : Bool := Word.fits 19 d && d % 64 == 0

def encodeQuarter (d : Fixed) : List UInt8 :=
  Word.bigEndian 2 (0xc000 + Word.pattern 13 (d / 64))

def encodePair (d e : Fixed) : List UInt8 :=
  Word.bigEndian 5 ((Word.pattern 19 d <<< 19) + Word.pattern 19 e)

/-- One offset that is neither a quarter multiple nor half of a pair. -/
def encodeAlone (d : Fixed) : List UInt8 :=
  if Word.fits 22 d then Word.bigEndian 3 (0x400000 + Word.pattern 22 d)
  else if Word.fits 30 d then Word.bigEndian 4 (0x80000000 + Word.pattern 30 d)
  else 0xe0 :: Word.bigEndian 4 (Word.pattern32 d)

def encode : List Fixed → List UInt8
  | [] => []
  | [d] => if isQuarter d then encodeQuarter d else encodeAlone d
  | d :: e :: rest =>
    if isQuarter d then encodeQuarter d ++ encode (e :: rest)
    else if Word.fits 19 d && Word.fits 19 e then encodePair d e ++ encode rest
    else encodeAlone d ++ encode (e :: rest)

/-- The offsets in the places of a segment command. -/
def inPlaces (offsets : List Fixed) : Vector Fixed 6 := .ofFn fun i => offsets.getD i 0

variable {σ : Type} [ByteSource σ]

/-- One offset begun by the byte `b`, which does not begin a pair. -/
def decodeAlone (b : UInt8) : Decoder σ Fixed := do
  let first := b.toNat
  if first < 0x80 then
    let rest ← nextBytes 2
    return Word.signed 22 (Word.ofBigEndian (b :: rest))
  else if first < 0xc0 then
    let rest ← nextBytes 3
    return Word.signed 30 (Word.ofBigEndian (b :: rest))
  else if first < 0xe0 then
    let rest ← nextBytes 1
    return Word.signed 13 (Word.ofBigEndian (b :: rest)) * 64
  else
    let bytes ← ByteSource.take 4
    return Word.wrap32 (Word.ofBigEndian bytes)

def decode : Nat → Decoder σ (List Fixed)
  | 0 => return []
  | 1 => do
    let b ← nextByte
    if b < 0x40 then throw (.malformed "operand pair in the last operand slot")
    let d ← decodeAlone b
    return [d]
  | n + 2 => do
    let b ← nextByte
    if b < 0x40 then
      let rest ← nextBytes 4
      let pair := Word.ofBigEndian (b :: rest)
      let tail ← decode n
      return Word.signed 19 (pair >>> 19) :: Word.signed 19 pair :: tail
    else
      let d ← decodeAlone b
      let tail ← decode (n + 1)
      return d :: tail

/-- At most six offsets, in the places of a segment command. -/
def decodePlaces (n : Nat) : Decoder σ (Vector Fixed 6) := do
  return inPlaces (← decode n)

end BandedPage.Offset
