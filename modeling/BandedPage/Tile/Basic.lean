import BandedPage.Bits.Basic
import BandedPage.Color
import BandedPage.Word

/-!
# Tiles

A tile is a bitmap repeated over the plane. Each row of tiles may be shifted to the right of the
one above it. A small tile is stored as several copies of its pattern; the pattern it paints
stays the same.
-/

namespace BandedPage

/-- The geometry of a tile: one copy of the pattern, and how many copies are stored. -/
structure TileSize where
  repWidth : Nat := 0
  repHeight : Nat := 0
  xReps : Nat := 1
  yReps : Nat := 1
  /-- Shift to the right of each tile row against the one above. -/
  repShift : Nat := 0
  depth : Nat := 1
  deriving DecidableEq, Repr, Inhabited

namespace TileSize

/-- The pixels of a row, by exact arithmetic as the height is. -/
def width (s : TileSize) : Nat := s.repWidth * s.xReps

def height (s : TileSize) : Nat := s.repHeight * s.yReps

/-- Distance, as a difference of coordinates, between tiles side by side. -/
def xPeriod (s : TileSize) : Int := Word.wrap32 s.width

/-- Distance, as a difference of coordinates, between tiles on top of each other. -/
def yPeriod (s : TileSize) : Int := Word.wrap32 s.height

/-- How far the pattern is moved to the left in row `y`: by the phase, and back by the shifts of
the tile rows above. -/
def xOffset (s : TileSize) (phase : Phase) (y : Int) : Int :=
  phase.x - (y + phase.y) / s.yPeriod * Word.wrap32 s.repShift

/-- The row of the tile that lies in row `y`. -/
def rowAt (s : TileSize) (phase : Phase) (y : Int) : Int := (y + phase.y) % s.yPeriod

/-- The column of the tile that lies at `(x, y)`. -/
def columnAt (s : TileSize) (phase : Phase) (x y : Int) : Int :=
  (x + s.xOffset phase y) % s.xPeriod

/-- Bytes of a stored row. -/
def raster (s : TileSize) : Nat := Bits.shortRaster (s.width * s.depth)

def dataSize (s : TileSize) : Nat := s.raster * s.height

def single (width height depth : Nat) : TileSize :=
  { repWidth := width, repHeight := height, depth }

/-- Bits of a row of one copy. -/
def patternBits (s : TileSize) : Nat := s.repWidth * s.depth

/-- The widest row that copies side by side may fill, in bytes. -/
def maxRepRaster : Nat := 32

/-- The largest tile that copies may fill, in bytes. -/
def maxRepSize : Nat := 256

/-- The copies to store of a pattern: as many side by side as fill the widest row, at least one,
and up to four on top of each other if rows do not shift. None but the first if even a single row
of copies is too large. -/
def replication (s : TileSize) : Option (Nat × Nat) :=
  if s.xReps ≠ 1 || s.yReps ≠ 1 || s.repWidth = 0 || s.repHeight = 0 then none
  else
    let across := max (maxRepRaster * 8 / s.patternBits) 1
    let rowBytes := Bits.shortRaster (s.patternBits * across)
    let fits := fun down => rowBytes * s.repHeight * down ≤ maxRepSize
    let down := if s.repShift ≠ 0 then 1 else ([4, 3, 2, 1].find? fits).getD 1
    if fits down then some (across, down) else none

end TileSize

/-- A named tile and its rows. -/
structure Tile where
  id : BitmapId
  size : TileSize
  data : Bytes
  deriving DecidableEq, Repr

namespace Tile

def width (t : Tile) : Nat := t.size.width

def height (t : Tile) : Nat := t.size.height

def raster (t : Tile) : Nat := t.size.raster

/-- The same pattern stored in more copies, as far as they pay. -/
def replicated (t : Tile) : Tile :=
  match t.size.replication with
  | none => t
  | some (across, down) =>
    { t with
      size := { t.size with xReps := across, yReps := down }
      data := Bits.replicate t.data t.size.patternBits t.size.repHeight across down }

/-- The value of the pattern at `(x, y)`, shifted by `phase`; its low 32 bits if it has more. -/
def pixel (t : Tile) (x y : Int) (phase : Phase) : Nat :=
  if t.size.xPeriod = 0 || t.size.yPeriod = 0 then 0
  else
    let row := t.size.rowAt phase y
    let column := t.size.columnAt phase x y
    let start := row.toNat * t.raster * 8 + column.toNat * t.size.depth
    Bits.value t.data start t.size.depth % 4294967296

end Tile

end BandedPage
