import BandedPage.Command.Imager
import BandedPage.Operand.Offset
import BandedPage.Path

/-!
# Segment commands

Pen movements relative to the present point become segment commands. A move waits for the lines
after it: up to three of them share a command if none is horizontal or vertical, all carry the same
marks, and the third goes back along the first. A curve takes the first form that fits its tangents.
-/

namespace BandedPage

def Command.segment (op : SegmentOp) (offsets : List Fixed) : Command :=
  op.code :: Offset.encode offsets

/-- Movements that wait to be joined by the next one. -/
inductive WaitingLines where
  | none
  | move (dx dy : Fixed)
  /-- A move and a line. -/
  | one (dx dy dx1 dy1 : Fixed) (notes : SegmentNotes)
  /-- A move and two lines. -/
  | two (dx dy dx1 dy1 dx2 dy2 : Fixed) (notes : SegmentNotes)
  deriving DecidableEq, Repr

/-- Segment commands under way. -/
structure SegmentStream where
  commands : Array Command := #[]
  /-- Marks the reader applies to the segments to come. -/
  notes : SegmentNotes := 0
  waiting : WaitingLines := .none
  deriving DecidableEq, Repr

namespace SegmentStream

def push (s : SegmentStream) (c : Command) : SegmentStream :=
  { s with commands := s.commands.push c }

/-- Announce the marks of the segments to come. -/
def mark (s : SegmentStream) (notes : SegmentNotes) : SegmentStream :=
  if notes = s.notes then s else { s.push (Command.notes notes) with notes }

/-- Add a segment that carries marks. -/
def add (s : SegmentStream) (op : SegmentOp) (offsets : List Fixed) (notes : SegmentNotes) :
    SegmentStream :=
  (s.mark notes).push (Command.segment op offsets)

def flush (s : SegmentStream) : SegmentStream :=
  let rest := { s with waiting := .none }
  match s.waiting with
  | .none => rest
  | .move dx dy => rest.push (Command.segment .move [dx, dy])
  | .one dx dy dx1 dy1 notes => rest.add .moveLine [dx, dy, dx1, dy1] notes
  | .two dx dy dx1 dy1 dx2 dy2 notes => rest.add .moveLine2 [dx, dy, dx1, dy1, dx2, dy2] notes

def move (s : SegmentStream) (dx dy : Fixed) : SegmentStream :=
  { s.flush with waiting := .move dx dy }

def lineAlone (s : SegmentStream) (dx dy : Fixed) (notes : SegmentNotes) : SegmentStream :=
  let s := s.flush
  if dx = 0 then s.add .vline [dy] notes
  else if dy = 0 then s.add .hline [dx] notes
  else s.add .line [dx, dy] notes

def line (s : SegmentStream) (dx dy : Fixed) (notes : SegmentNotes) : SegmentStream :=
  match s.waiting with
  | .none => s.lineAlone dx dy notes
  | .move mx my =>
    if dx ≠ 0 && dy ≠ 0 then { s with waiting := .one mx my dx dy notes }
    else s.lineAlone dx dy notes
  | .one mx my dx1 dy1 n =>
    if n = notes && dx ≠ 0 && dy ≠ 0 then { s with waiting := .two mx my dx1 dy1 dx dy n }
    else s.lineAlone dx dy notes
  | .two mx my dx1 dy1 dx2 dy2 n =>
    if n = notes && dx = -dx1 && dy = -dy1 then
      { s with waiting := .none }.add .moveLine3 [mx, my, dx1, dy1, dx2, dy2] n
    else s.lineAlone dx dy notes

/-- Both are negative, or neither. -/
def sameSign (a b : Fixed) : Bool := decide (a < 0) == decide (b < 0)

/-- The form of a curve whose control points and end are each given from the point before. -/
def curveForm (a b c d e f : Fixed) : SegmentOp × List Fixed :=
  if b = 0 && e = 0 then
    if sameSign a d then
      if c = d && f = a then (.hqCurve, [a, c]) else (.hvCurve, [a, c, d, f])
    else if c = -d && f = -a then (.hqCurve, [a, d])
    else (.hvCurve, [a, c, d, f])
  else if a = 0 && f = 0 then
    if sameSign b c then
      if d = c && e = b then (.vqCurve, [b, c]) else (.vhCurve, [b, c, d, e])
    else if d = -c && e = -b then (.vqCurve, [b, c])
    else (.vhCurve, [b, c, d, e])
  else if a = 0 && b = 0 then (.nrCurve, [c, d, e, f])
  else if e = 0 && f = 0 then (.rnCurve, [a, b, c, d])
  else (.curve, [a, b, c, d, e, f])

def curve (s : SegmentStream) (p c1 c2 stop : Point) (notes : SegmentNotes) : SegmentStream :=
  let (op, offsets) := curveForm (c1.x - p.x) (c1.y - p.y) (c2.x - c1.x) (c2.y - c1.y)
    (stop.x - c2.x) (stop.y - c2.y)
  s.flush.add op offsets notes

def close (s : SegmentStream) : SegmentStream := s.flush.push (Command.segment .close [])

end SegmentStream

end BandedPage
