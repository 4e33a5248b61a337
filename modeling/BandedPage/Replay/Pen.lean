import BandedPage.Error
import BandedPage.Opcode
import BandedPage.Path

/-!
# The pen that builds a path

Segment commands move a pen by offsets; the first of them starts at the corner of the band's last
rectangle. What one command does is a list of pen moves. The corners of the curve commands with
fewer than six operands follow from the tangents: `h` and `v` begin horizontally and vertically,
`n` has a control point on an end, and `q` is a quarter turn, which bends the way its operands'
signs say.
-/

namespace BandedPage

/-- A movement relative to the present point. -/
inductive PenMove where
  | move (dx dy : Int)
  | line (dx dy : Int)
  /-- Offsets of both control points and of the end, each from the present point. -/
  | curve (dx1 dy1 dx2 dy2 dx3 dy3 : Int)
  | close
  deriving DecidableEq, Repr

namespace PenMove

/-- The end of a quarter turn relative to the control point, or its opposite: offsets of one sign
go on in the same direction. -/
def turned (a b : Int) : Int × Int :=
  if (decide (a < 0)) != (decide (b < 0)) then (a - b, b - a) else (a + b, b + a)

end PenMove

namespace SegmentOp

def penMoves : SegmentOp → List Fixed → List PenMove
  | move, [a, b] => [.move a b]
  | line, [a, b] => [.line a b]
  | hline, [a] => [.line a 0]
  | vline, [a] => [.line 0 a]
  | moveLine, [a, b, c, d] => [.move a b, .line c d]
  | moveLine2, [a, b, c, d, e, f] => [.move a b, .line c d, .line e f]
  | moveLine3, [a, b, c, d, e, f] => [.move a b, .line c d, .line e f, .line (-c) (-d)]
  | curve, [a, b, c, d, e, f] => [.curve a b (a + c) (b + d) (a + c + e) (b + d + f)]
  | hvCurve, [a, b, c, d] => [.curve a 0 (a + b) c (a + b) (c + d)]
  | vhCurve, [a, b, c, d] => [.curve 0 a b (a + c) (b + d) (a + c)]
  | nrCurve, [a, b, c, d] => [.curve 0 0 a b (a + c) (b + d)]
  | rnCurve, [a, b, c, d] => [.curve a b (a + c) (b + d) (a + c) (b + d)]
  | hqCurve, [a, b] =>
    let (x, y) := PenMove.turned a b
    [.curve a 0 x b x y]
  | vqCurve, [a, b] =>
    let (y, x) := PenMove.turned a b
    [.curve 0 a b y x y]
  | close, _ => [.close]
  | _, _ => []

end SegmentOp

/-- A pen and the path it has drawn. -/
structure Pen where
  path : Path := {}
  /-- Segments came since the last path was drawn. -/
  drawing : Bool := false
  point : Point := {}
  /-- Where the subpath begins. -/
  start : Point := {}
  /-- Marks for the segments to come. -/
  notes : SegmentNotes := 0
  deriving DecidableEq, Repr, Inhabited

namespace Pen

/-- Put the pen on `p`, unless it is drawing. -/
def startAt (pen : Pen) (p : Point) : Pen :=
  if pen.drawing then pen else { pen with point := p, start := p, drawing := true }

/-- `p` moved by an offset, which must give 32-bit coordinates. -/
def offsetPoint (p : Point) (dx dy : Int) : Except Error Point :=
  if Word.fits32 (p.x + dx) && Word.fits32 (p.y + dy) then .ok ⟨p.x + dx, p.y + dy⟩
  else .error (.malformed s!"path offset ({dx}, {dy}) from ({p.x}, {p.y}) overflows")

/-- Begin a subpath at the pen if none is there. -/
def ensureSubpath (pen : Pen) : Pen :=
  match pen.path.current with
  | some _ => pen
  | none => { pen with path := pen.path.moveTo pen.point, start := pen.point }

def perform (pen : Pen) : PenMove → Except Error Pen
  | .move dx dy => do
    let p ← offsetPoint pen.point dx dy
    return { pen with point := p, start := p, path := pen.path.moveTo p }
  | .line dx dy => do
    let pen := pen.ensureSubpath
    let p ← offsetPoint pen.point dx dy
    return { pen with point := p, path := pen.path.lineTo p pen.notes }
  | .curve dx1 dy1 dx2 dy2 dx3 dy3 => do
    let pen := pen.ensureSubpath
    let c1 ← offsetPoint pen.point dx1 dy1
    let c2 ← offsetPoint pen.point dx2 dy2
    let p ← offsetPoint pen.point dx3 dy3
    return { pen with point := p, path := pen.path.curveTo c1 c2 p pen.notes }
  | .close => .ok { pen with point := pen.start, path := pen.path.closeSubpath }

def performAll (pen : Pen) (moves : List PenMove) : Except Error Pen :=
  moves.foldlM perform pen

def lifted (pen : Pen) : Pen := { pen with path := {}, drawing := false, notes := 0 }

end Pen

end BandedPage
