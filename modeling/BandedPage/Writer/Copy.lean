import BandedPage.Command.Copy
import BandedPage.Span
import BandedPage.Writer.Recovery
import BandedPage.Writer.Tile

/-!
# Drawing bitmaps

A bitmap is clipped to the page and sent to each band it meets. One that has a name, and lies in a
single band as a whole, goes through the cache of tiles if the cache can hold it; then a band that
has it is only told its index. Otherwise its rows follow the copy commands, in pieces that fit the
reader's buffer. Rows of single bits keep their position within the first byte.

A piece is as large as the buffer allows, but its sides are coordinate differences: the low 32 bits
count, and a side that is negative then is a number of bits or rows that no bitmap has.
-/

namespace BandedPage

/-- A bitmap on its way to the page. -/
structure BitmapCopy where
  bitmap : Bitmap
  /-- The pixels it goes to. -/
  rect : Rect
  paint : CopyPaint
  /-- The name of the bitmap as a whole. -/
  name : Option BitmapId := none
  /-- What a mask is clipped to. -/
  clip : Option ClipPath := none
  /-- A mask is painted with the logical operation. -/
  isMask : Bool := false
  deriving DecidableEq, Repr

namespace BitmapCopy

/-- The part of a copy that goes to `part`. Less than the whole has no name. -/
def restrict (c : BitmapCopy) (part : Rect) : BitmapCopy :=
  { c with
    bitmap := c.bitmap.drop (part.x1 - c.rect.x1) (part.y1 - c.rect.y1)
    rect := part
    name := if part = c.rect then c.name else none }

/-- The place of column `x` within a row of the bitmap. -/
def column (c : BitmapCopy) (x : Int) : Nat := c.bitmap.dataX + (x - c.rect.x1).toNat

/-- Pixels sent in front of column `x`, since they share its byte. -/
def shift (c : BitmapCopy) (depth : Nat) (x : Int) : Nat :=
  if depth = 1 then c.column x % 8 else 0

/-- Bits of a row of the columns in `s`, with what is sent in front of them. -/
def rowBits (c : BitmapCopy) (depth : Nat) (s : Span) : Nat :=
  (c.shift depth s.start + Word.pattern 64 s.length) * depth

/-- The most columns of which `room` bytes hold a row, wherever it begins within a byte. -/
def pieceWidth (depth room : Nat) : Int := Word.wrap32 (max ((room * 8 - 7) / depth) 1)

/-- The most rows of some columns that `room` bytes hold. -/
def pieceHeight (c : BitmapCopy) (depth room : Nat) (columns : Span) : Int :=
  Word.wrap32 (max (room / Bits.shortRaster (c.rowBits depth columns)) 1)

/-- The rows of a piece, with what is sent in front of them, at their short raster. -/
def pieceRows (c : BitmapCopy) (depth : Nat) (columns rows : Span) : Except Error Bytes :=
  let source := c.bitmap.drop 0 (rows.start - c.rect.y1)
  let first := (c.column columns.start - c.shift depth columns.start) * depth
  Bits.extract source.data source.raster first (c.rowBits depth columns)
    (Word.pattern 64 rows.length)

def sendPiece (c : BitmapCopy) (config : Config) (d : BandDraft) (columns rows : Span) :
    Except Error BandDraft := do
  let depth := c.paint.depth config.depth
  let bits ← c.pieceRows depth columns rows
  let payload ← Payload.choose bits (Bits.shortRaster (c.rowBits depth columns))
    (Word.pattern 64 rows.length) (c.paint.methods config.compression) config.readerSize
  let shift := c.shift depth columns.start
  let d := if shift = 0 then d else d.emit (Command.dataX shift)
  let r : SizedRect := ⟨columns.start, rows.start, columns.length, rows.length⟩
  return { d.emit (Command.copyInline c.paint r payload) with state := { d.state with rect := r } }

def sendPieces (c : BitmapCopy) (config : Config) (d : BandDraft) : Except Error BandDraft :=
  let depth := c.paint.depth config.depth
  let room := config.payloadRoom
  let r := c.rect
  Span.foldlM (pieceWidth depth room) r.x1 r.x1 r.x2 (fun d columns =>
    Span.foldlM (c.pieceHeight depth room columns) r.y1 r.y1 r.y2
      (fun d rows => c.sendPiece config d columns rows) d) d

/-- Let the band have a cached bitmap and copy it from there, if its bits fit the reader's
buffer. -/
def sendCached (c : BitmapCopy) (config : Config) (d : BandDraft) (index : Nat)
    (entry : TileEntry) (rows : Bytes) : Option BandDraft := do
  let slot := entry.slot
  let d ←
    if entry.bands.contains d.band then pure (d.useTileIndex index)
    else
      let methods := { c.paint.methods config.compression with decodesElsewhere := true }
      let payload ←
        (Payload.choose rows slot.size.raster slot.size.height methods config.readerSize).toOption
      pure (d.sendTile index (Command.bitmapBits slot index payload))
  return { d.emit (Command.copyCached c.paint c.rect.x1 c.rect.y1) with
    state := { d.state with rect := .ofRect c.rect } }

end BitmapCopy

namespace WriterState

variable {μ ν : Type}

/-- A bitmap's place in the cache, where it is put if need be and if the cache can take it. -/
def cachePlace (id : BitmapId) (size : TileSize) (rows : Bytes) : WriteM μ ν (Option Nat) :=
  tryCatch (do return some (← onTiles (TileCache.lookupOrAdd id size rows)).index) fun
    | .bitmapTooLarge _ _ => return none
    | e => throw e

/-- The place of a named bitmap in the cache, with its rows, if the cache holds it. A bitmap of
another size under the same name is in the way. -/
def cacheCopy (c : BitmapCopy) (id : BitmapId) : WriteM μ ν (Option (Nat × TileEntry × Bytes)) := do
  let s ← get
  let depth := c.paint.depth s.config.depth
  let size := TileSize.single c.rect.width.toNat c.rect.height.toNat depth
  if s.tiles.maxTileSize < size.dataSize then return none
  let rows ← Bits.extract c.bitmap.data c.bitmap.raster (c.bitmap.dataX * depth) size.patternBits
    size.repHeight
  let some index ← cachePlace id size rows | return none
  let entry := ((← get).tiles.entryAt index).filter (·.slot.size = size)
  return entry.map (index, ·, rows)

variable [Medium μ] [MemoryPolicy μ ν]

/-- Send the colors, the mode and the tile that a copy relies on. -/
def usePaint (d : BandDraft) (paint : CopyPaint) : WriteM μ ν BandDraft := do
  let depth := (← get).config.depth
  match paint with
  | .mono colors => return d.useColors depth colors
  | .deep => return d.useCopyMode false
  | .coverage color _ => return (d.useCopyMode true).useColor depth .one color
  | .halftone tile colors phase => useTile d tile colors phase

def sendCopy (d : BandDraft) (c : BitmapCopy) : WriteM μ ν BandDraft := do
  let config := (← get).config
  let cached ← match c.name with
    | some id => do
      let place ← cacheCopy c id
      pure (place.bind fun (index, entry, rows) => c.sendCached config d index entry rows)
    | none => pure none
  match cached with
  | some d => return d
  | none => c.sendPieces config d

def copyBand (band : Nat) (c : BitmapCopy) : WriteM μ ν Unit := do
  let lop := (← get).imager.logOp
  let d := (← draft band).useClip (← bandRect band) c.clip
  let d := if c.isMask then d.useLop lop false else d
  commit (← sendCopy (← usePaint d c.paint) c)

end WriterState

namespace Writer

variable {μ ν : Type} [Medium μ] [MemoryPolicy μ ν]

def copyBitmap (c : BitmapCopy) : WriterM μ ν Unit := do
  check
  let config := (← get).state.config
  let some r := c.rect.intersect config.pageRect | return
  (config.bandParts r).forM fun (band, part) =>
    withRecovery (WriterState.copyBand band (c.restrict part))

/-- Copy a bitmap of which each bit chooses between two colors. -/
def copyMono (bitmap : Bitmap) (name : Option BitmapId) (rect : Rect) (colors : ColorPair) :
    WriterM μ ν Unit :=
  copyBitmap { bitmap, rect, paint := .mono colors, name }

def copyColor (bitmap : Bitmap) (name : Option BitmapId) (rect : Rect) : WriterM μ ν Unit :=
  copyBitmap { bitmap, rect, paint := .deep, name }

/-- Paint a color as far as a bitmap of `depth` bits a pixel says. -/
def copyAlpha (bitmap : Bitmap) (name : Option BitmapId) (rect : Rect) (color : Color)
    (depth : Nat) : WriterM μ ν Unit := do
  if depth ∉ [1, 2, 4, 8] then throw (.malformed s!"alpha depth {depth}")
  copyBitmap { bitmap, rect, paint := .coverage color depth, name }

/-- Paint through a mask. A mask painted with a halftone does not go through the cache. -/
def fillMask (bitmap : Bitmap) (name : Option BitmapId) (rect : Rect) (color : DrawingColor)
    (depth : Nat) (clip : Option ClipPath) : WriterM μ ν Unit := do
  if depth ≠ 1 then throw (.malformed s!"mask depth {depth}")
  update (·.useClip clip)
  match color with
  | .pure color =>
    copyBitmap { bitmap, rect, paint := .mono { one := color }, name, clip, isMask := true }
  | .halftone tile colors phase =>
    copyBitmap { bitmap, rect, paint := .halftone tile colors phase, clip, isMask := true }
  | .colored _ _ => throw (.malformed "colored halftone mask")

end Writer

end BandedPage
