import BandedPage.Target.Basic
import BandedPage.Target.Outline

/-!
# A page of pixels

The pixels of a page in rows, each as many bytes as its color needs, most significant first.
Painting changes a pixel only where the page, the area of the band and what is painted meet, and
never for the color that stands for none.
-/

namespace BandedPage

/-- A page of pixels. -/
structure Raster where
  width : Nat
  height : Nat
  /-- Bits of a color. -/
  depth : Nat
  data : Bytes
  clipBox : Rect
  deriving DecidableEq, Repr

namespace Raster

def bytesPerPixel (depth : Nat) : Nat := max ((depth + 7) / 8) 1

/-- The rectangle of the pixels of a page. A side that is no coordinate counts with its low 32
bits, which can only be the case if the other side is zero. -/
def rectOfSize (width height : Nat) : Rect :=
  .ofCorners 0 0 (Word.wrap32 width) (Word.wrap32 height)

/-- A page of color 0. -/
def ofSize (width height depth : Nat) : Raster :=
  { width, height, depth
    data := Array.replicate (width * height * bytesPerPixel depth) 0
    clipBox := rectOfSize width height }

def pixelSize (r : Raster) : Nat := bytesPerPixel r.depth

/-- Where the bytes of a pixel begin. -/
def position (r : Raster) (x y : Nat) : Nat := (y * r.width + x) * r.pixelSize

def pixelBytes (r : Raster) (x y : Nat) : List UInt8 :=
  (r.data.extract (r.position x y) (r.position x y + r.pixelSize)).toList

def pixel (r : Raster) (x y : Nat) : Color := UInt64.ofNat (Word.ofBigEndian (r.pixelBytes x y))

def put (r : Raster) (x y : Nat) (color : Color) : Raster :=
  let start := r.position x y
  let bytes := Word.bigEndian r.pixelSize color.toNat
  { r with data := Bits.overwrite r.data start bytes }

/-- The pixels of a rectangle, row by row. -/
def pixelsOf (r : Rect) : List (Nat × Nat) :=
  if r.isEmpty then []
  else
    (List.range' r.y1.toNat r.height.toNat).flatMap fun y =>
      (List.range' r.x1.toNat r.width.toNat).map fun x => (x, y)

def pageRect (r : Raster) : Rect := rectOfSize r.width r.height

def clear (r : Raster) (color : Color) : Raster :=
  (pixelsOf r.pageRect).foldl (fun r (x, y) => r.put x y color) r

/-- The part of a rectangle that can be painted. -/
def visible (r : Raster) (rect : Rect) : Option Rect := do
  (← rect.intersect r.pageRect).intersect r.clipBox

def paintPixel (colorAt : Int → Int → Color) (r : Raster) (p : Nat × Nat) : Raster :=
  let color := colorAt p.1 p.2
  if color = noColor then r else r.put p.1 p.2 color

/-- Give every pixel of an area the color that `colorAt` has for it. -/
def paintArea (r : Raster) (colorAt : Int → Int → Color) : Option Rect → Raster
  | none => r
  | some area => (pixelsOf area).foldl (paintPixel colorAt) r

/-- Give every pixel of a rectangle the color that `colorAt` has for it. -/
def paint (r : Raster) (rect : Rect) (colorAt : Int → Int → Color) : Raster :=
  r.paintArea colorAt (r.visible rect)

/-- Give the pixels `[x1, x2)` of row `y` a color, within a clip. -/
def paintSpan (color : Color) (clip : Option ClipRegion) (r : Raster) (y x1 x2 : Int) : Raster :=
  let row := Rect.ofCorners x1 y x2 (y + 1)
  let pieces := match clip with
    | some clip => clip.intersections row
    | none => [row]
  pieces.foldl (fun r piece => r.paint piece fun _ _ => color) r

/-- The `depth` bits of a bitmap's pixel that stand for the page's pixel `(x, y)`. -/
def sample (bits : Bitmap) (rect : Rect) (depth : Nat) (x y : Int) : Color :=
  let row := (y - rect.y1).toNat
  let column := (x - rect.x1).toNat
  UInt64.ofNat (Bits.value bits.data (row * bits.raster * 8 + (bits.dataX + column) * depth) depth)

/-- Refuse a bitmap that does not have all rows of `rect`. -/
def checkRows (bits : Bitmap) (rect : Rect) (depth : Nat) : Except Error Unit := do
  let rows := rect.height.toNat
  let last := Bits.shortRaster ((bits.dataX + rect.width.toNat) * depth)
  if 0 < rows && bits.data.size < (rows - 1) * bits.raster + last then
    throw (.target
      s!"bitmap of {bits.data.size} bytes too short for {rect.width}x{rect.height}")

def copyMono (bits : Bitmap) (rect : Rect) (colors : ColorPair) : DrawM Raster Unit := do
  checkRows bits rect 1
  modify (paint · rect fun x y => colors.ofBit (sample bits rect 1 x y != 0))

def copyColor (bits : Bitmap) (rect : Rect) : DrawM Raster Unit := do
  let depth := (← get).depth
  checkRows bits rect depth
  modify (paint · rect (sample bits rect depth))

/-- A coverage of one half or more paints the pixel. -/
def copyAlpha (bits : Bitmap) (rect : Rect) (color : Color) (depth : UInt8) :
    DrawM Raster Unit := do
  if depth = 0 then throw (.target "alpha depth 0")
  checkRows bits rect depth.toNat
  let half : Color := 1 <<< (depth.toUInt64 - 1)
  modify (paint · rect fun x y =>
    if half ≤ sample bits rect depth.toNat x y then color else noColor)

/-- A deep tile gives the colors itself. -/
def tileColor (tile : Tile) (colors : ColorPair) (phase : Phase) (x y : Int) : Color :=
  let v := tile.pixel x y phase
  if tile.size.depth = 1 then colors.ofBit (v != 0) else UInt64.ofNat v

def solidColor : DrawingColor → Except Error Color
  | .pure color => .ok color
  | .halftone _ colors _ => .ok colors.one
  | .colored _ _ => .error (.target "colored halftone fill not supported")

/-- Sums of crossings that are inside. -/
def insideOf : FillRule → Int → Bool
  | .nonZero => (· != 0)
  | .evenOdd => (· % 2 != 0)

/-- Paint the inside of polygons in the rows `[first, stop)`. -/
def paintRows (polygons : List Polygon) (rule : FillRule) (color : Color)
    (clip : Option ClipRegion) (first stop : Int) (r : Raster) : Raster :=
  (List.range (stop - first).toNat).foldl (fun r (i : Nat) =>
    let y := first + (i : Int)
    let crossings := Outline.crossings polygons (Float.ofInt y + 0.5)
    (Outline.spans (insideOf rule) 0 crossings).foldl
      (fun r (x1, x2) => paintSpan color clip r y x1 x2) r) r

/-- Only rows of the area that can be painted are looked at, however far the path reaches. -/
def fillPath (path : Path) (rule : FillRule) (color : DrawingColor)
    (clip : Option ClipRegion) : DrawM Raster Unit := do
  let color ← solidColor color
  let r ← get
  match path.rowSpan, r.visible r.clipBox with
  | some (y, height), some area =>
    let first := max y area.y1
    let stop := min (y + height) area.y2
    set (r.paintRows (Outline.polygons path) rule color clip first stop)
  | _, _ => return

instance : Target Raster where
  fillRectangle rect color := modify (paint · rect fun _ _ => color)
  clipBox := Raster.clipBox
  beginBand _ area := modify fun r => { r with clipBox := area }
  copyMono := copyMono
  copyColor := copyColor
  copyAlpha := copyAlpha
  stripTileRectangle tile rect colors phase := modify (paint · rect (tileColor tile colors phase))
  fillPath _ := fillPath

/-- Why `(x, y)` is no pixel of the page, if it is none. -/
def offPage (r : Raster) (x y : Nat) : Option String :=
  if r.width ≤ x then some s!"request {x} >= {r.width} width :: index"
  else if r.height ≤ y then some s!"request {y} >= {r.height} height :: index"
  else none

/-- A pixel as red, green and blue. One byte is a gray level, two hold five, six and five bits,
and of more the last three are taken. -/
def rgbOfPixel (r : Raster) (x y : Nat) : List UInt8 :=
  let v := (r.pixel x y).toNat
  match r.pixelSize with
  | 1 =>
    let most := if 8 ≤ r.depth then 255 else (1 <<< r.depth) - 1
    List.replicate 3 (UInt8.ofNat (v * 255 / max most 1))
  | 2 =>
    [UInt8.ofNat ((v >>> 11) % 32 * 255 / 31), UInt8.ofNat ((v >>> 5) % 64 * 255 / 63),
      UInt8.ofNat (v % 32 * 255 / 31)]
  | n => (r.pixelBytes x y).drop (n - 3)

/-- The page as red, green and blue bytes. -/
def toRgb (r : Raster) : List UInt8 := (pixelsOf r.pageRect).flatMap fun (x, y) => r.rgbOfPixel x y

end Raster

end BandedPage
