import BandedPage.Image
import BandedPage.Operand.Matrix

/-!
# Image headers in a command stream

A leading byte gives the sample size and says which of the other settings follow: the layout, a
matrix other than the usual one, sample ranges other than the usual ones, and the supplied part.
The usual values are left out and put back by `decode`. Sample ranges take two bits a component:
as usual, reversed, only the upper end given, both ends given.
-/

namespace BandedPage.ImageHeader

/-- Sample sizes in the order of their codes; code 0 stands for a mask. -/
def sampleSizes : List Nat := [1, 1, 2, 4, 8, 12]

def sampleCode (h : ImageHeader) : Except Error Nat :=
  if h.mask then .ok 0
  else match h.bitsPerComponent with
    | 1 => .ok 1
    | 2 => .ok 2
    | 4 => .ok 3
    | 8 => .ok 4
    | 12 => .ok 5
    | b => .error (.malformed s!"{b} bits per component")

/-- The byte of the layout, if it is not the usual one. -/
def layoutByte (h : ImageHeader) : Option UInt8 :=
  if h.format ≠ .chunky || h.interpolate || h.alpha != 0 then
    some (UInt8.ofNat (h.format.code.toNat * 64 + (if h.interpolate then 32 else 0) +
      h.alpha.toNat % 4 * 8))
  else none

/-- The two bits and the bytes of one component's range `u` to `v`, which is usually zero to
`top`. -/
def encodeRange (u v top : Single) : Nat × List UInt8 :=
  if u.isZero && v == top then (0, [])
  else if u == top && v.isZero then (1, [])
  else if u.isZero then (2, v.toBytes)
  else (3, u.toBytes ++ v.toBytes)

/-- The bits and bytes of all ranges, the first component's bits highest. -/
def encodeRanges : List Single → List Single → Nat × List UInt8
  | u :: v :: rest, _ :: top :: usual =>
    let (flags, bytes) := encodeRange u v top
    let (flags', bytes') := encodeRanges rest usual
    (flags * 64 + flags' / 4, bytes ++ bytes')
  | _, _ => (0, [])

/-- The bytes of the sample ranges, if they are not the usual ones. -/
def decodeBytes (h : ImageHeader) (cs : ColorSpace) : Except Error (Option (List UInt8)) :=
  match h.decode with
  | none => .ok none
  | some ranges =>
    let usual := h.defaultDecode cs
    if ranges.length ≠ usual.length then
      .error (.malformed
        s!"decode array of {ranges.length} values, {usual.length} expected")
    else if ranges == usual then .ok none
    else
      let (flags, bytes) := encodeRanges ranges usual
      .ok (some (UInt8.ofNat flags :: bytes))

/-- The bytes of the supplied part: its near corner, and what is missing on the far sides. -/
def encodeRect (h : ImageHeader) (r : Rect) : List UInt8 :=
  Varint.encodeInt r.x1 ++ Varint.encodeInt r.y1 ++
    Varint.encodeInt (h.width - r.x2) ++ Varint.encodeInt (h.height - r.y2)

def encode (h : ImageHeader) (cs : ColorSpace) : Except Error (List UInt8) := do
  let code ← h.sampleCode
  let layout := h.layoutByte
  let usualMatrix := h.matrix == defaultMatrix h.width h.height
  let ranges ← h.decodeBytes cs
  let flags := code * 32 + (if layout.isSome then 16 else 0) + (if usualMatrix then 0 else 8) +
    (if ranges.isSome then 4 else 0) + (if h.adjust then 2 else 0) +
    (if h.rect.isSome then 1 else 0)
  return UInt8.ofNat flags :: (layout.toList ++ Varint.encode h.width ++ Varint.encode h.height ++
    (if usualMatrix then [] else h.matrix.encode) ++ ranges.getD [] ++
    (h.rect.map h.encodeRect).getD [])

variable {σ : Type} [ByteSource σ]

/-- The ranges announced by `flags`, against the usual ones. -/
def decodeRanges : Nat → List Single → Decoder σ (List Single)
  | flags, u :: v :: usual => do
    let range ← match flags / 64 % 4 with
      | 0 => pure [u, v]
      | 1 => pure [v, .zero]
      | 2 => do
        let v ← Operand.single
        pure [u, v]
      | _ => Operand.many Operand.single 2
    let rest ← decodeRanges (flags * 4) usual
    return range ++ rest
  | _, _ => return []

def decodeFor (cs : ColorSpace) : Decoder σ ImageHeader := do
  let b := (← nextByte).toNat
  let code := b / 32
  let some bitsPerComponent := sampleSizes[code]?
    | throw (.malformed s!"image bits per component index {code}")
  let layout ← if b.testBit 4 then nextByte else pure 0
  let format ← ImageFormat.ofCode (layout >>> 6)
  let width ← Varint.decode
  let height ← Varint.decode
  let matrix ← if b.testBit 3 then Matrix.decode else pure (defaultMatrix width height)
  let header : ImageHeader :=
    { width, height, bitsPerComponent, matrix, format, mask := code = 0
      interpolate := layout &&& 0x20 != 0, alpha := (layout >>> 3) &&& 3
      adjust := b.testBit 1 }
  let decode ← if b.testBit 2 then do
      let flags ← nextByte
      let ranges ← decodeRanges flags.toNat (header.defaultDecode cs)
      pure (some ranges)
    else pure none
  let rect ← if b.testBit 0 then do
      let x1 ← Varint.decodeInt
      let y1 ← Varint.decodeInt
      let right ← Varint.decodeInt
      let bottom ← Varint.decodeInt
      pure (some (Rect.ofCorners x1 y1 (Word.wrap32 (width - right))
        (Word.wrap32 (height - bottom))))
    else pure none
  return { header with decode, rect }

end BandedPage.ImageHeader
