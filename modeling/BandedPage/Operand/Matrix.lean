import BandedPage.Matrix
import BandedPage.Operand.Number

/-!
# Matrices in a command stream

A leading byte says which coefficients follow. The diagonal and the off-diagonal coefficients are
paired, since those of a rotation or a scaling are equal or opposite: two bits for a pair that is
zero, equal, opposite or given in full. One bit says whether each offset is other than zero.
-/

namespace BandedPage.Matrix

def encodePair (u v : Single) : Nat × List UInt8 :=
  if u.isZero && v.isZero then (0, [])
  else if v == u then (1, u.toBytes)
  else if v == -u then (2, u.toBytes)
  else (3, u.toBytes ++ v.toBytes)

/-- The bit and bytes of an offset. -/
def encodeOffset (v : Single) : Nat × List UInt8 := if v.isZero then (0, []) else (1, v.toBytes)

def encode (m : Matrix) : List UInt8 :=
  let (diagonal, bytes1) := encodePair m.xx m.yy
  let (skew, bytes2) := encodePair m.yx m.xy
  let (dx, bytes3) := encodeOffset m.tx
  let (dy, bytes4) := encodeOffset m.ty
  UInt8.ofNat (diagonal * 64 + skew * 16 + dx * 8 + dy * 4) ::
    (bytes1 ++ bytes2 ++ bytes3 ++ bytes4)

variable {σ : Type} [ByteSource σ]

def decodePair (bits : Nat) : Decoder σ (Single × Single) := do
  match bits with
  | 0 => return (.zero, .zero)
  | 1 =>
    let u ← Operand.single
    return (u, u)
  | 2 =>
    let u ← Operand.single
    return (u, -u)
  | _ =>
    let u ← Operand.single
    let v ← Operand.single
    return (u, v)

/-- An offset announced by one bit. -/
def decodeOffset (bit : Nat) : Decoder σ Single := do
  if bit = 0 then return .zero else Operand.single

def decode : Decoder σ Matrix := do
  let b := (← nextByte).toNat
  let (xx, yy) ← decodePair (b / 64)
  let (yx, xy) ← decodePair (b / 16 % 4)
  let tx ← decodeOffset (b / 8 % 2)
  let ty ← decodeOffset (b / 4 % 2)
  return { xx, xy, yx, yy, tx, ty }

end BandedPage.Matrix
