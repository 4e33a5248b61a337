import BandedPage.Error
import BandedPage.Matrix
import BandedPage.Rect
import BandedPage.Word

/-!
# Sampled images

An image is described by a header and a color space and delivered row by row, in one plane or in
several, depending on the sample layout.
-/

namespace BandedPage

/-- The space an image's colors are components of. -/
inductive ColorModel where
  | gray
  | rgb
  | cmyk
  deriving DecidableEq, Repr, Inhabited

namespace ColorModel

def components : ColorModel → Nat
  | gray => 1
  | rgb => 3
  | cmyk => 4

def code : ColorModel → UInt8
  | gray => 0
  | rgb => 1
  | cmyk => 2

end ColorModel

/-- Colors given as indices into a table or arguments of a procedure. -/
structure Indexing where
  /-- The largest index. -/
  highest : Nat
  useProcedure : Bool := false
  deriving DecidableEq, Repr

/-- How the samples of an image become colors. -/
structure ColorSpace where
  base : ColorModel := .gray
  indexing : Option Indexing := none
  deriving DecidableEq, Repr, Inhabited

namespace ColorSpace

/-- Components of a color value. -/
def components (cs : ColorSpace) : Nat := if cs.indexing.isSome then 1 else cs.base.components

/-- The byte that announces the space: the base in the high half, then whether it is indexed, and
whether by a procedure. -/
def code (cs : ColorSpace) : UInt8 :=
  (cs.base.code <<< 4) ||| match cs.indexing with
    | none => 0
    | some ix => if ix.useProcedure then 12 else 8

/-- The space announced by `b`; `highest` is the largest index if it is indexed. -/
def ofCode (b : UInt8) (highest : Nat) : Except Error ColorSpace := do
  let base ← match (b >>> 4).toNat with
    | 0 => pure ColorModel.gray
    | 1 => pure .rgb
    | 2 => pure .cmyk
    | i => throw (.malformed s!"color space index {i}")
  let indexing :=
    if b &&& 8 != 0 then some { highest, useProcedure := b &&& 4 != 0 } else none
  return { base, indexing }

end ColorSpace

/-- How samples are spread over planes. -/
inductive ImageFormat where
  /-- The components of a pixel follow each other in one plane. -/
  | chunky
  /-- One plane for each component. -/
  | componentPlanar
  /-- One plane for each bit of each component. -/
  | bitPlanar
  deriving DecidableEq, Repr, Inhabited

namespace ImageFormat

def code : ImageFormat → UInt8
  | chunky => 0
  | componentPlanar => 1
  | bitPlanar => 2

def ofCode (c : UInt8) : Except Error ImageFormat :=
  match c.toNat with
  | 0 => .ok chunky
  | 1 => .ok componentPlanar
  | 2 => .ok bitPlanar
  | c => .error (.malformed s!"image format {c}")

end ImageFormat

/-- An image or a stencil mask. -/
structure ImageHeader where
  width : Nat
  height : Nat
  bitsPerComponent : Nat
  /-- A stencil painted with the drawing color. -/
  mask : Bool := false
  format : ImageFormat := .chunky
  interpolate : Bool := false
  alpha : UInt8 := 0
  /-- From user space to image space. -/
  matrix : Matrix
  /-- Sample ranges, two numbers a component; the usual ones when absent. -/
  decode : Option (List Single) := none
  /-- Adjust a mask, or combine an image with the color. -/
  adjust : Bool := false
  /-- The part of the source that is supplied. -/
  rect : Option Rect := none
  deriving BEq, Repr

namespace ImageHeader

/-- The map of the unit square to the image, turned upside down. -/
def defaultMatrix (width height : Nat) : Matrix :=
  let h := Single.ofNat height
  { xx := .ofNat width, xy := .zero, yx := .zero, yy := -h, tx := .zero, ty := h }

/-- An image with the usual settings. -/
def ofSize (width height bitsPerComponent : Nat) : ImageHeader :=
  { width, height, bitsPerComponent, matrix := defaultMatrix width height }

def ofMaskSize (width height : Nat) : ImageHeader :=
  { ofSize width height 1 with mask := true }

/-- Components of a sample. -/
def components (h : ImageHeader) (cs : ColorSpace) : Nat := if h.mask then 1 else cs.components

def planes (h : ImageHeader) (cs : ColorSpace) : Nat :=
  match h.format with
  | .chunky => 1
  | .componentPlanar => h.components cs
  | .bitPlanar => h.components cs * h.bitsPerComponent

/-- Bits of a pixel in each plane. -/
def planeDepth (h : ImageHeader) (cs : ColorSpace) : Nat :=
  match h.format with
  | .chunky => h.components cs * h.bitsPerComponent
  | .componentPlanar => h.bitsPerComponent
  | .bitPlanar => 1

/-- Pixels in a row of the part that is supplied. A rectangle whose corners are exchanged has no
width a buffer could hold: its negative width counts modulo `2 ^ 64`. -/
def suppliedWidth (h : ImageHeader) : Nat :=
  match h.rect with
  | some r => Word.pattern 64 r.width
  | none => h.width

def defaultDecode (h : ImageHeader) (cs : ColorSpace) : List Single :=
  if !h.mask && cs.indexing.isSome then [.zero, .ofNat ((1 <<< h.bitsPerComponent) - 1)]
  else (List.replicate (h.components cs) [Single.zero, .one]).flatten

/-- The device pixels the image may touch under `ctm`, if they can be told. -/
def deviceBounds (h : ImageHeader) (ctm : Matrix) : Option Rect := do
  let m := (← h.matrix.inverse?).multiply ctm
  let width := Single.ofNat h.width
  let height := Single.ofNat h.height
  let corners :=
    [m.transform .zero .zero, m.transform width .zero, m.transform .zero height,
      m.transform width height]
  let xs := corners.map (·.1)
  let ys := corners.map (·.2)
  let x1 := xs.foldl Single.min .infinity
  let x2 := xs.foldl Single.max .negInfinity
  let y1 := ys.foldl Single.min .infinity
  let y2 := ys.foldl Single.max .negInfinity
  if [x1, x2, y1, y2].all Single.isFinite then
    some (.ofCorners x1.floorInt y1.floorInt x2.ceilInt y2.ceilInt)
  else none

end ImageHeader

end BandedPage
