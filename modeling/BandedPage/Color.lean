/-!
# Device colors and raster operations

A color is the value a device stores for a pixel. All ones stands for no color at all: drawing
with it leaves pixels as they are.
-/

namespace BandedPage

/-- A device pixel value. -/
abbrev Color := UInt64

/-- Leave the pixel as it is. -/
def noColor : Color := 0xffffffffffffffff

/-- Which of a pair of colors. -/
inductive ColorSlot where
  | zero
  | one
  deriving DecidableEq, Repr

/-- The colors that 0 bits and 1 bits of a bitmap stand for. -/
structure ColorPair where
  zero : Color := noColor
  one : Color := noColor
  deriving DecidableEq, Repr, Inhabited

namespace ColorPair

def get (c : ColorPair) : ColorSlot → Color
  | .zero => c.zero
  | .one => c.one

def set (c : ColorPair) : ColorSlot → Color → ColorPair
  | .zero, v => { c with zero := v }
  | .one, v => { c with one := v }

def ofBit (c : ColorPair) (bit : Bool) : Color := if bit then c.one else c.zero

@[simp] theorem get_set_self (c : ColorPair) (s : ColorSlot) (v : Color) :
    (c.set s v).get s = v := by
  cases s <;> rfl

end ColorPair

/-- A raster operation: a three-operand truth table in the low byte, flags above it. -/
abbrev LogicalOp := UInt32

/-- Paint the texture, whatever was there. -/
def LogicalOp.default : LogicalOp := 0xf0

/-- The name of a bitmap's content. -/
abbrev BitmapId := UInt64

/-- How far a tile pattern is shifted against the device origin. -/
structure Phase where
  x : Int := 0
  y : Int := 0
  deriving DecidableEq, Repr, Inhabited

end BandedPage
