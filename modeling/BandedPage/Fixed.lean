import BandedPage.Word

/-!
# Fixed-point device coordinates

Path coordinates count 256ths of a pixel and are kept in 32 bits.
-/

namespace BandedPage

/-- A coordinate in 256ths of a pixel. -/
abbrev Fixed := Int

namespace Fixed

/-- The coordinate of a pixel edge; bits beyond the 32 kept are dropped. -/
def ofPixel (v : Int) : Fixed := Word.wrap32 (v * 256)

/-- The pixel that holds the coordinate. -/
def floor (v : Fixed) : Int := v / 256

/-- The first pixel edge at or after the coordinate. -/
def ceiling (v : Fixed) : Int := (v + 255) / 256

/-- Half a pixel. -/
def half : Fixed := 128

def least : Fixed := -2147483648

def greatest : Fixed := 2147483647

/-- The coordinate in pixels. -/
def toFloat (v : Fixed) : Float := Float.ofInt v / 256

/-- The coordinate nearest to `x` pixels: a tie goes away from zero, a value out of range to the
nearest end, and what is no number to zero. -/
def ofFloat (x : Float) : Fixed := (x * 256).round.toInt32.toInt

end Fixed

/-- A point in fixed-point device coordinates. -/
structure Point where
  x : Fixed := 0
  y : Fixed := 0
  deriving DecidableEq, Repr, Inhabited

end BandedPage
