import BandedPage.Target.Basic

/-!
# A target that keeps a log

Every call is written down, and nothing is drawn. One call may be told to fail, by its number.
-/

namespace BandedPage

/-- A primitive and its operands. -/
inductive DrawingCall where
  | fillRectangle (rect : Rect) (color : Color)
  | copyMono (bits : Bitmap) (rect : Rect) (colors : ColorPair)
  | copyColor (bits : Bitmap) (rect : Rect)
  | copyAlpha (bits : Bitmap) (rect : Rect) (color : Color) (depth : UInt8)
  | fillMask (bits : Bitmap) (rect : Rect) (color : DrawingColor) (depth : UInt8)
      (lop : LogicalOp) (clip : Option ClipRegion)
  | stripTileRectangle (tile : Tile) (rect : Rect) (colors : ColorPair) (phase : Phase)
  | stripCopyRop (rect : Rect) (texture : Option Tile) (colors : ColorPair) (phase : Phase)
      (lop : LogicalOp)
  | fillPath (segments : List Segment) (rule : FillRule) (color : DrawingColor)
      (clip : Option ClipRegion) (state : ImagerState)
  | strokePath (segments : List Segment) (color : DrawingColor) (clip : Option ClipRegion)
      (state : ImagerState)
  | beginImage (header : ImageHeader) (space : ColorSpace) (color : DrawingColor)
      (clip : Option ClipRegion)
  | imageData (planes : List Bytes) (dataX raster height : Nat)
  | endImage
  | putParams (params : List UInt8)
  | installHalftone (halftone : Halftone)
  | installTransfer (index : Nat) (map : TransferMap)

/-- The calls made on a target, in order. -/
structure CallLog where
  calls : Array DrawingCall := #[]
  clipBox : Rect
  /-- The number of a call to refuse; the first call has number 0. -/
  failAt : Option Nat := none

namespace CallLog

/-- Write a call down, unless it is the one to refuse. -/
def record (call : DrawingCall) : DrawM CallLog Unit := fun log =>
  let n := log.calls.size
  if log.failAt = some n then .error (.target s!"injected failure at call {n}") log
  else .ok () { log with calls := log.calls.push call }

def emptied (log : CallLog) : CallLog := { log with calls := #[] }

instance : Target CallLog where
  fillRectangle rect color := record (.fillRectangle rect color)
  clipBox := CallLog.clipBox
  beginBand _ area := modify fun log => { log with clipBox := area }
  copyMono bits rect colors := record (.copyMono bits rect colors)
  copyColor bits rect := record (.copyColor bits rect)
  copyAlpha bits rect color depth := record (.copyAlpha bits rect color depth)
  fillMask bits rect color depth lop clip := record (.fillMask bits rect color depth lop clip)
  stripTileRectangle tile rect colors phase := record (.stripTileRectangle tile rect colors phase)
  stripCopyRop rect texture colors phase lop :=
    record (.stripCopyRop rect texture colors phase lop)
  fillPath state path rule color clip :=
    record (.fillPath path.segments.toList rule color clip state)
  strokePath state path color clip := record (.strokePath path.segments.toList color clip state)
  beginImage _ header space color clip := record (.beginImage header space color clip)
  imageData planes dataX raster height := record (.imageData planes dataX raster height)
  endImage := record .endImage
  putParams params := record (.putParams params)
  installHalftone halftone := record (.installHalftone halftone)
  installTransfer index map := record (.installTransfer index map)

end CallLog

end BandedPage
