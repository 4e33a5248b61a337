import BandedPage.Tile.Basic

/-!
# What is drawn

Bitmaps, the rules that tell a path's inside from its outside, and the colors a path, a mask or an
image is drawn with.
-/

namespace BandedPage

/-- Rows of pixels. -/
structure Bitmap where
  data : Bytes
  /-- First pixel of each row. -/
  dataX : Nat := 0
  /-- Bytes from one row to the next. -/
  raster : Nat := 0
  deriving DecidableEq, Repr, Inhabited

/-- The bitmap without its first `dy` rows and `dx` pixels; negative numbers count as zero. -/
def Bitmap.drop (b : Bitmap) (dx dy : Int) : Bitmap :=
  { b with
    data := b.data.extract (dy.toNat * b.raster) b.data.size
    dataX := b.dataX + dx.toNat }

/-- Which points are inside a path. -/
inductive FillRule where
  | nonZero
  | evenOdd
  deriving DecidableEq, Repr, Inhabited

/-- A color to draw with. -/
inductive DrawingColor where
  | pure (color : Color)
  /-- The bits of a tile choose between two colors. -/
  | halftone (tile : Tile) (colors : ColorPair) (phase : Phase)
  /-- Four components, each with a base level and a halftone level. -/
  | colored (bases : List UInt8) (levels : List Nat)
  deriving DecidableEq, Repr

end BandedPage
