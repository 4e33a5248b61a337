import BandedPage.Clip
import BandedPage.Drawing
import BandedPage.Error
import BandedPage.Halftone
import BandedPage.Image
import BandedPage.Imager.State
import BandedPage.Path

/-!
# Drawing targets

A target is what replay draws on. Filling rectangles is all it has to know; another primitive it
does not implement is refused, and what it is told about parameters and halftones it may ignore.
-/

namespace BandedPage

/-- A call on a target of type `τ`. A refused call may still have changed the target. -/
abbrev DrawM (τ α : Type) := EStateM Error τ α

def unsupported {τ : Type} (primitive : String) : DrawM τ Unit :=
  throw (.target s!"{primitive} not supported")

/-- The primitives replay draws with. -/
class Target (τ : Type) where
  fillRectangle : Rect → Color → DrawM τ Unit
  /-- The area that may be drawn in. -/
  clipBox : τ → Rect
  /-- A band that covers `area` is about to be replayed. -/
  beginBand (_band : Nat) (_area : Rect) : DrawM τ Unit := pure ()
  /-- Paint the bits of a bitmap in two colors. -/
  copyMono (_bits : Bitmap) (_rect : Rect) (_colors : ColorPair) : DrawM τ Unit :=
    unsupported "copy_mono"
  /-- Paint a bitmap of device colors. -/
  copyColor (_bits : Bitmap) (_rect : Rect) : DrawM τ Unit := unsupported "copy_color"
  /-- Paint a color through a bitmap of coverages of `depth` bits. -/
  copyAlpha (_bits : Bitmap) (_rect : Rect) (_color : Color) (_depth : UInt8) : DrawM τ Unit :=
    unsupported "copy_alpha"
  /-- Paint a color through a stencil. -/
  fillMask (_bits : Bitmap) (_rect : Rect) (_color : DrawingColor) (_depth : UInt8)
      (_lop : LogicalOp) (_clip : Option ClipRegion) : DrawM τ Unit :=
    unsupported "fill_mask"
  /-- Paint a rectangle with a repeated tile. -/
  stripTileRectangle (_tile : Tile) (_rect : Rect) (_colors : ColorPair) (_phase : Phase) :
      DrawM τ Unit :=
    unsupported "strip_tile_rectangle"
  /-- Combine a rectangle with a texture. -/
  stripCopyRop (_rect : Rect) (_texture : Option Tile) (_colors : ColorPair) (_phase : Phase)
      (_lop : LogicalOp) : DrawM τ Unit :=
    unsupported "strip_copy_rop"
  fillPath (_state : ImagerState) (_path : Path) (_rule : FillRule) (_color : DrawingColor)
      (_clip : Option ClipRegion) : DrawM τ Unit :=
    unsupported "fill_path"
  strokePath (_state : ImagerState) (_path : Path) (_color : DrawingColor)
      (_clip : Option ClipRegion) : DrawM τ Unit :=
    unsupported "stroke_path"
  beginImage (_state : ImagerState) (_header : ImageHeader) (_space : ColorSpace)
      (_color : DrawingColor) (_clip : Option ClipRegion) : DrawM τ Unit :=
    unsupported "begin_image"
  /-- Rows of every plane of the image, `raster` bytes a row. -/
  imageData (_planes : List Bytes) (_dataX _raster _height : Nat) : DrawM τ Unit :=
    unsupported "image_data"
  endImage : DrawM τ Unit := unsupported "end_image"
  putParams (_params : List UInt8) : DrawM τ Unit := pure ()
  installHalftone (_halftone : Halftone) : DrawM τ Unit := pure ()
  installTransfer (_index : Nat) (_map : TransferMap) : DrawM τ Unit := pure ()

/-! ### A target that collects a clip

The rectangles filled between the beginning and the end of a clip are what the clip consists of.
-/

/-- Rectangles collected so far. -/
structure ClipCollector where
  rects : Array Rect := #[]
  clipBox : Rect
  deriving DecidableEq, Repr

namespace ClipCollector

/-- Collect a rectangle that is not empty. -/
def add (rect : Rect) (c : ClipCollector) : ClipCollector :=
  if rect.isEmpty then c else { c with rects := c.rects.push rect }

def finish (c : ClipCollector) (outside : Bool) : ClipRegion := .ofRects c.rects.toList outside

instance : Target ClipCollector where
  fillRectangle rect _ := modify (add rect)
  clipBox := ClipCollector.clipBox

end ClipCollector

end BandedPage
