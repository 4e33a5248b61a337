import BandedPage.Writer.Draft
import BandedPage.Writer.State

/-!
# Drafts that need the writer's state

Beginning and committing a draft, and selecting a tile. A tile that the band has not been sent is
added to the cache and its bits to the draft; the geometry of tiles is told to all bands at once,
whenever it changes. The cache and the geometry are kept even if the draft is thrown away, since
they are found as they are when it is drawn up again.
-/

namespace BandedPage.WriterState

variable {μ ν : Type}

def draft (band : Nat) : WriteM μ ν BandDraft := do
  return { band, state := (← get).band band }

def bandRect (band : Nat) : WriteM μ ν Rect := do
  return (← get).config.bandRect band

def cacheTile (tile : Tile) : WriteM μ ν Nat := do
  match (← get).tiles.find? tile.id with
  | some index => return index
  | none =>
    let stored := tile.replicated
    return (← onTiles (TileCache.lookupOrAdd stored.id stored.size stored.data)).index

variable [Medium μ] [MemoryPolicy μ ν]

/-- Hold what was drafted; then the band knows it. -/
def commit (d : BandDraft) : WriteM μ ν Unit := do
  putBatch (.band d.band) d.commands.toList
  modify fun s => { s with
    bands := s.bands.setIfInBounds d.band d.state
    tiles := d.sent.foldl (·.markBand · d.band) s.tiles }

def announceTileSize (size : TileSize) : WriteM μ ν Unit := do
  if (← get).tileSize ≠ some size then
    putAllBands [Command.tileSize size]
    modify fun s => { s with tileSize := some size }

def selectTile (d : BandDraft) (tile : Tile) : WriteM μ ν BandDraft := do
  let index ← cacheTile tile
  let some entry := (← get).tiles.entryAt index
    | throw (.malformed s!"tile slot {index} vanished")
  let d := { d with state := { d.state with tileId := some tile.id } }
  if entry.bands.contains d.band then return d.useTileIndex index
  announceTileSize entry.slot.size
  let some bits := (← get).tiles.bits? index
    | throw (.malformed s!"tile slot {index} has no bits")
  return d.sendTile index (Command.tileBits index entry.slot.offset bits.toList)

def useTile (d : BandDraft) (tile : Tile) (colors : ColorPair) (phase : Phase) :
    WriteM μ ν BandDraft := do
  let d ← selectTile d tile
  return (d.useTileColors (← get).config.depth colors).useTilePhase phase

/-- Send a colored halftone, which has a level for each component of a pixel. -/
def tellColored (d : BandDraft) (bases : List UInt8) (levels : List Nat) :
    WriteM μ ν BandDraft := do
  let components := (← get).config.components
  if levels.length ≠ components then
    throw (.malformed
      s!"colored halftone with {levels.length} levels for {components} components")
  return d.emit (Command.colored bases levels)

/-- Send the color to draw a path with, and say where the command that draws finds it. -/
def useDrawingColor (d : BandDraft) : DrawingColor → WriteM μ ν (ColorSource × BandDraft)
  | .pure color => do return (.pure, d.useColor (← get).config.depth .one color)
  | .halftone tile colors phase => do return (.halftone, ← useTile d tile colors phase)
  | .colored bases levels => do return (.colored, ← tellColored d bases levels)

end BandedPage.WriterState
