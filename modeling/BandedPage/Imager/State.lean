import BandedPage.Color
import BandedPage.Fixed
import BandedPage.Matrix

/-!
# Imager state

The graphics parameters that drawing a path or an image depends on. Equality of two states
compares their numbers as numbers: zeros of either sign agree, and a NaN differs from all.
-/

namespace BandedPage

/-- How the end of an open line is drawn. -/
inductive LineCap where
  | butt
  | round
  | square
  | triangle
  deriving DecidableEq, Repr, Inhabited

namespace LineCap

/-- The cap of a code, of which only three bits count. -/
def ofCode (v : UInt8) : LineCap :=
  match (v &&& 7).toNat with
  | 1 => round
  | 2 => square
  | 3 => triangle
  | _ => butt

def code : LineCap → UInt8
  | butt => 0
  | round => 1
  | square => 2
  | triangle => 3

end LineCap

/-- How two lines meet. -/
inductive LineJoin where
  | miter
  | round
  | bevel
  | none
  | triangle
  deriving DecidableEq, Repr, Inhabited

namespace LineJoin

/-- The join of a code, of which only three bits count. -/
def ofCode (v : UInt8) : LineJoin :=
  match (v &&& 7).toNat with
  | 1 => round
  | 2 => bevel
  | 3 => none
  | 4 => triangle
  | _ => miter

def code : LineJoin → UInt8
  | miter => 0
  | round => 1
  | bevel => 2
  | none => 3
  | triangle => 4

end LineJoin

/-- A dash pattern. -/
structure Dash where
  pattern : List Single := []
  offset : Single := .zero
  adapt : Bool := false
  dotLength : Single := .zero
  dotLengthAbsolute : Bool := false
  deriving BEq, Repr, Inhabited

/-- The longest dash pattern a command carries. -/
def Dash.maxLength : Nat := 11

/-- Graphics parameters. The defaults are those of a new page. -/
structure ImagerState where
  flatness : Single := .one
  fillAdjust : Point := ⟨Fixed.half, Fixed.half⟩
  ctm : Matrix := .identity
  lineWidth : Single := .one
  miterLimit : Single := ⟨0x41200000⟩
  cap : LineCap := .butt
  join : LineJoin := .miter
  accurateCurves : Bool := false
  overprint : Bool := false
  strokeAdjust : Bool := false
  dash : Dash := {}
  alpha : UInt16 := 0xffff
  logOp : LogicalOp := .default
  deriving BEq, Repr, Inhabited

end BandedPage
