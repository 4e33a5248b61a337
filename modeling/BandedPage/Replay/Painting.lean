import BandedPage.Bits.Payload
import BandedPage.Operand.ImageHeader
import BandedPage.Operand.Offset
import BandedPage.Replay.State

/-!
# Replaying what is painted

Rectangles, copies of bitmaps, paths and images. Rectangles and copies are cut to the band and the
clip here; paths, masks and images hand the clip on to the target.
-/

namespace BandedPage.Replay

variable {σ τ : Type} [Target τ]

/-- Draw the visible parts of a rectangle one after another. -/
def drawVisible (r : Rect) (call : Rect → DrawM τ Unit) : ReplayM σ τ Unit := do
  let box ← clipBox
  let s ← getState
  (s.visible box r).forM fun piece => draw (call piece)

/-- Fill the band's rectangle, or collect it for a clip. -/
def fillRect : ReplayM σ τ Unit := do
  let s ← getState
  let r := s.band.rect.toRect
  let color := s.band.colors.one
  match s.collector with
  | some collector => modifyState fun s => { s with collector := some (collector.add r) }
  | none =>
    drawVisible r fun piece =>
      if s.band.lopEnabled then
        Target.stripCopyRop piece none ⟨color, color⟩ s.band.tilePhase s.band.lop
      else Target.fillRectangle piece color

def tileRect : ReplayM σ τ Unit := do
  let s ← getState
  let tile ← s.tile
  drawVisible s.band.rect.toRect fun piece =>
    if s.band.lopEnabled then
      Target.stripCopyRop piece (some tile) s.band.tileColors s.band.tilePhase s.band.lop
    else Target.stripTileRectangle tile piece s.band.tileColors s.band.tilePhase

/-- The bits of `piece` in a bitmap that covers `rect`. -/
def subBitmap (bits : Bitmap) (rect piece : Rect) : Bitmap :=
  let start := (piece.y1 - rect.y1).toNat * bits.raster
  { bits with
    data := bits.data.extract start bits.data.size
    dataX := bits.dataX + (piece.x1 - rect.x1).toNat }

variable [ByteSource σ]

/-- Refuse rows that do not fit the reader's buffer. -/
def checkSize (size : Nat) : ReplayM σ τ Unit := do
  let limit := (← getState).config.readerSize
  if limit < size then throw (.bitmapTooLarge size limit)

/-- Where a copy of the current tile goes, and the tile's bits. -/
def tileCopy : ReplayM σ τ (Rect × Bitmap) := do
  let x ← read Varint.decodeInt
  let y ← read Varint.decodeInt
  let tile ← (← getState).tile
  let rect := Rect.ofSize x y (Word.wrap32 tile.width) (Word.wrap32 tile.height)
  return (rect, { data := tile.data, raster := tile.raster })

/-- Where a copy goes, and its bits of `depth` bits a pixel, which follow the command. -/
def inlineCopy (flags : UInt8) (depth : Nat) : ReplayM σ τ (Rect × Bitmap) := do
  let compression ← Compression.ofCode flags
  let x ← read Varint.decodeInt
  let y ← read Varint.decodeInt
  let width ← read Varint.decode
  let height ← read Varint.decode
  let dataX := (← getState).dataX
  modifyState fun s => { s with dataX := 0 }
  let raster := Bits.shortRaster ((dataX + width) * depth)
  checkSize (raster * height)
  let data ← read (Payload.decode compression raster height)
  return (.ofSize x y (Word.wrap32 width) (Word.wrap32 height), { data, dataX, raster })

/-- Where a copy goes, and its bits. -/
def copySource (flags : UInt8) (depth : Nat) : ReplayM σ τ (Rect × Bitmap) := do
  let (rect, bits) ←
    if flags &&& Opcode.copyFromTile != 0 then tileCopy else inlineCopy flags depth
  modifyBand fun band => { band with rect := .ofRect rect }
  return (rect, bits)

/-- Copy a bitmap of single bits, or paint the current tile through it. -/
def copyMono (flags : UInt8) : ReplayM σ τ Unit := do
  let (rect, bits) ← copySource flags 1
  let s ← getState
  if flags &&& Opcode.copyWithTileColor != 0 then
    let color ← s.halftoneColor
    draw (Target.fillMask bits rect color 1 s.band.lop s.activeClip)
  else
    drawVisible rect fun piece => Target.copyMono (subBitmap bits rect piece) piece s.band.colors

/-- Copy a bitmap of device colors, or of coverages of the depth that follows. -/
def copyDeep (flags : UInt8) : ReplayM σ τ Unit := do
  let s ← getState
  let copiesAlpha := s.band.copiesAlpha
  let depth ← if copiesAlpha then read nextByte else pure (UInt8.ofNat s.config.depth)
  if depth = 0 || 32 < depth then throw (.malformed s!"copy depth {depth}")
  let (rect, bits) ← copySource flags depth.toNat
  let color := s.band.colors.one
  drawVisible rect fun piece =>
    let bits := subBitmap bits rect piece
    if copiesAlpha then Target.copyAlpha bits piece color depth
    else Target.copyColor bits piece

def extendPath (op : SegmentOp) : ReplayM σ τ Unit := do
  let operands ← read (Offset.decode op.arity)
  let s ← getState
  let corner : Point := ⟨Fixed.ofPixel s.band.rect.x, Fixed.ofPixel s.band.rect.y⟩
  let pen ← (s.pen.startAt corner).performAll (op.penMoves operands)
  modifyState fun s => { s with pen }

def drawingColor (source : ColorSource) : ReplayM σ τ DrawingColor := do
  let s ← getState
  match source, s.colored with
  | .pure, _ => return .pure s.band.colors.one
  | .halftone, _ => s.halftoneColor
  | .colored, some color => return color
  | .colored, none => throw (.malformed "colored halftone before set_color")

/-- Draw the path. The pixel where the pen is lifted becomes the corner of the band's
rectangle. -/
def drawPath (op : PathOp) : ReplayM σ τ Unit := do
  modifyState fun s => { s with imager := { s.imager with logOp := s.band.lop } }
  let s ← getState
  let path := s.pen.path
  match op with
  | .fill source =>
    let color ← drawingColor source
    draw (Target.fillPath s.imager path .nonZero color s.activeClip)
  | .evenOddFill source =>
    let color ← drawingColor source
    draw (Target.fillPath s.imager path .evenOdd color s.activeClip)
  | .stroke source =>
    let color ← drawingColor source
    draw (Target.strokePath s.imager path color s.activeClip)
  let p := s.pen.point
  if s.pen.drawing then
    modifyBand fun band =>
      { band with rect := { band.rect with x := Fixed.floor p.x, y := Fixed.floor p.y } }
  modifyState fun s => { s with pen := s.pen.lifted }

def beginImage : ReplayM σ τ Unit := do
  let space := (← getState).colorSpace
  let header ← read (ImageHeader.decodeFor space)
  modifyState fun s => { s with imager := { s.imager with logOp := s.band.lop } }
  let s ← getState
  draw (Target.beginImage s.imager header space (.pure s.band.colors.one) s.activeClip)
  modifyState fun s => { s with image := some (header, space) }

/-- The planes of `n` planes of equal size in one block of bytes. -/
def planesOf (data : Bytes) (n planeSize : Nat) : List Bytes :=
  (List.range n).map fun i => data.extract (i * planeSize) ((i + 1) * planeSize)

/-- Rows of the image, or its end. -/
def imageData : ReplayM σ τ Unit := do
  let height ← read Varint.decode
  if height = 0 then
    if (← getState).image.isNone then throw (.malformed "end of image outside an image")
    modifyState fun s => { s with image := none }
    draw Target.endImage
  else
    let raster ← read Varint.decode
    let some (header, space) := (← getState).image
      | throw (.malformed "image data outside an image")
    let n := header.planes space
    checkSize (raster * n * height)
    let data ← read (ByteSource.take (raster * n * height))
    draw (Target.imageData (planesOf data.toArray n (raster * height)) 0 raster height)

def putParams : ReplayM σ τ Unit := do
  let n ← read (Operand.natural 4)
  let params ← read (ByteSource.take n)
  draw (Target.putParams params)

end BandedPage.Replay
