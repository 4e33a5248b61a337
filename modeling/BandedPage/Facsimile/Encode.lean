import BandedPage.Facsimile.Code
import BandedPage.Facsimile.Line

/-!
# Writing facsimile code

Each row is coded against the one above, the first against a white one. Codes follow each other
from the high bit of each byte down; two end-of-line words close the data, and zero bits fill the
last byte.
-/

namespace BandedPage.Facsimile

/-- The number with the given bits, first one highest. -/
def byteOf (bits : List Bool) : UInt8 :=
  UInt8.ofNat (bits.foldl (fun v b => v * 2 + b.toNat) 0)

/-- Bits in bytes, the last one filled up with zeros. -/
def pack : List Bool → List UInt8
  | a :: b :: c :: d :: e :: f :: g :: h :: rest => byteOf [a, b, c, d, e, f, g, h] :: pack rest
  | [] => []
  | bits => [byteOf (bits ++ List.replicate (8 - bits.length) false)]

/-- The longest run of one makeup code. -/
def maxMakeup : Nat := 2560

/-- The bits of a run: makeup codes, the longest ones first, and a terminating code. -/
def runBits (black : Bool) (run : Nat) : List Bool :=
  let table := runsOf black
  let rest := run % maxMakeup
  (List.replicate (run / maxMakeup) (bitsFor table maxMakeup)).flatten ++
    (if 64 ≤ rest then bitsFor table (rest / 64 * 64) else []) ++ bitsFor table (rest % 64)

/-- The bits of a row from `a` on, where `a` is the last coded change and `black` the color from
there. Every mode moves `a` to the right, so `columns + 1` of them suffice. -/
def rowBits (above line : List Nat) (columns : Nat) : Nat → Int → Bool → List Bool
  | 0, _, _ => []
  | fuel + 1, a, black =>
    if (columns : Int) ≤ a then []
    else
      let a1 := nextChange line a columns
      let a2 := nextChange line a1 columns
      let (b1, b2) := reference above a black columns
      let offset : Int := a1 - b1
      if b2 < a1 then
        bitsFor modes .pass ++ rowBits above line columns fuel b2 black
      else if -3 ≤ offset && offset ≤ 3 then
        bitsFor modes (.vertical offset) ++ rowBits above line columns fuel a1 (!black)
      else
        bitsFor modes .horizontal ++ runBits black (a1 - a.toNat) ++ runBits (!black) (a2 - a1) ++
          rowBits above line columns fuel a2 black

/-- The bits of `rows` rows of `columns` pixels from bit `start` on, below the line `above`. -/
def rowsBits (data : Bytes) (columns : Nat) : Nat → Nat → List Nat → List Bool
  | 0, _, _ => []
  | rows + 1, start, above =>
    let line := changes data start columns
    rowBits above line columns (columns + 1) (-1) false ++
      rowsBits data columns rows (start + columns) line

/-- The code of `height` rows of `raster` bytes, or of as many as there are. -/
def encode (data : Bytes) (raster height : Nat) : List UInt8 :=
  let rows := min height ((data.size + raster - 1) / raster)
  pack (rowsBits data (raster * 8) rows 0 [] ++ bitsFor modes .endOfLine ++
    bitsFor modes .endOfLine)

end BandedPage.Facsimile
