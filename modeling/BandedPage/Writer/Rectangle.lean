import BandedPage.Span
import BandedPage.Writer.Copy

/-!
# Drawing rectangles

A rectangle is clipped to the page and sent to each band it meets, filled with a color or with a
tile. A tile that the cache cannot hold is drawn as copies of its pieces.
-/

namespace BandedPage

/-- The pixels of a tile from the one that lies at `(x, y)` on. -/
def Tile.bitmapAt (t : Tile) (phase : Phase) (x y : Int) : Bitmap :=
  let whole : Bitmap := { data := t.data, raster := t.raster }
  whole.drop (t.size.columnAt phase x y) (t.size.rowAt phase y)

namespace WriterState

variable {μ ν : Type} [Medium μ] [MemoryPolicy μ ν]

def fillBand (band : Nat) (r : Rect) (color : Color) : WriteM μ ν Unit := do
  let s ← get
  let d ← draft band
  let d := (d.switchClip false).useLop s.imager.logOp true
  commit ((d.useColor s.config.depth .one color).rect Opcode.fillRect r)

/-- Fill a rectangle of a band with a tile, whose colors count only if it has one bit a pixel. -/
def tileBand (band : Nat) (r : Rect) (tile : Tile) (colors : ColorPair) (phase : Phase) :
    WriteM μ ν Unit := do
  let s ← get
  let d ← draft band
  let d ← selectTile ((d.switchClip false).useLop s.imager.logOp true) tile
  let d := if tile.size.depth = 1 then d.useTileColors s.config.depth colors else d
  commit ((d.useTilePhase phase).rect Opcode.tileRect r)

end WriterState

namespace Writer

variable {μ ν : Type} [Medium μ] [MemoryPolicy μ ν]

def fillRectangle (r : Rect) (color : Color) : WriterM μ ν Unit := do
  check
  let config := (← get).state.config
  let some r := r.intersect config.pageRect | return
  (config.bandParts r).forM fun (band, part) =>
    withRecovery (WriterState.fillBand band part color)

/-- Fill a rectangle with copies of a tile's pixels, none of which reaches over the tile's
edge. -/
def copyTile (tile : Tile) (r : Rect) (colors : ColorPair) (phase : Phase) : WriterM μ ν Unit :=
  let size := tile.size
  Span.forM size.yPeriod (-phase.y) r.y1 r.y2 fun rows =>
    Span.forM size.xPeriod (-size.xOffset phase rows.start) r.x1 r.x2 fun columns =>
      let bitmap := tile.bitmapAt phase columns.start rows.start
      let part := Rect.ofSize columns.start rows.start columns.length rows.length
      if size.depth = 1 then copyMono bitmap none part colors else copyColor bitmap none part

/-- Fill a rectangle of a band with a tile, or draw its pieces if the cache refuses it. -/
def tilePart (tile : Tile) (band : Nat) (r : Rect) (colors : ColorPair) (phase : Phase) :
    WriterM μ ν Unit := fun w =>
  match withRecovery (WriterState.tileBand band r tile colors phase) w with
  | .error (.bitmapTooLarge _ _) w => copyTile tile r colors phase w
  | answer => answer

def tileRectangle (tile : Tile) (r : Rect) (colors : ColorPair) (phase : Phase) :
    WriterM μ ν Unit := do
  check
  let s := (← get).state
  let some r := r.intersect s.config.pageRect | return
  if tile.width = 0 || tile.height = 0 then throw (.malformed "empty tile")
  let fits := tile.replicated.size.dataSize ≤ s.tiles.maxTileSize
  (s.config.bandParts r).forM fun (band, part) =>
    if fits then tilePart tile band part colors phase else copyTile tile part colors phase

end Writer

end BandedPage
