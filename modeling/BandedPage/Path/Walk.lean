import BandedPage.Path.Merge

/-!
# The part of a path that a band sees

A path is sent to every band it may touch, but of segments that stay above or below the band only
the last point is kept. When the path comes back, a single line, or a move at the start of a
subpath, brings the pen there. A line that crosses from one side to the other is always sent.
Filling closes every subpath by itself; a subpath that began with points left out is closed by a
line if it ends on another side than it began.
-/

namespace BandedPage

/-- What a path is sent for. -/
structure PathUse where
  /-- The fields of the imager state it depends on. -/
  required : FieldSet
  /-- Subpaths count as closed, and closing them is not sent. -/
  closesImplicitly : Bool
  /-- The marks that are sent. -/
  notesMask : SegmentNotes
  deriving DecidableEq, Repr

namespace PathUse

def fill : PathUse := { required := .fill, closesImplicitly := true, notesMask := 0 }

def stroke : PathUse := { required := .stroke, closesImplicitly := false, notesMask := 0xff }

end PathUse

/-- Rows in fixed-point coordinates, the last one excluded. -/
structure RowRange where
  first : Fixed
  stop : Fixed
  deriving DecidableEq, Repr

/-- Where a point lies relative to a band. -/
inductive BandSide where
  | above
  | within
  | below
  deriving DecidableEq, Repr

namespace RowRange

def everything : RowRange := ⟨Fixed.least, Fixed.greatest⟩

def sideOf (r : RowRange) (y : Fixed) : BandSide :=
  if y < r.first then .above else if r.stop ≤ y then .below else .within

/-- The side that all of a curve with these rows lies on, if it is above or below. -/
def curveSide (r : RowRange) (ys : List Fixed) : BandSide :=
  if ys.all (· < r.first) then .above else if ys.all (r.stop < ·) then .below else .within

end RowRange

/-- How far a subpath has come. -/
inductive SubpathProgress where
  /-- None was begun, or it was closed. -/
  | closed
  | moved
  | drawn
  deriving DecidableEq, Repr

/-- A path on its way to a band. -/
structure BandWalk where
  stream : SegmentStream := {}
  rows : RowRange
  use : PathUse
  /-- The present point as the reader sees it. -/
  pen : Point
  /-- Where the subpath begins, and on which side. -/
  start : Point
  startSide : BandSide := .within
  /-- Segments right after the start were left out. -/
  startSkipped : Bool := false
  side : BandSide := .within
  /-- The end of the last segment that was left out, and its marks. -/
  outside : Point
  outsideNotes : SegmentNotes := 0
  /-- The start of the subpath as it was sent. -/
  sentStart : Point
  progress : SubpathProgress := .closed
  /-- Nothing was sent since the path or the subpath began. -/
  unsent : Bool := true

namespace BandWalk

/-- A walk that begins where the reader has its pen. -/
def ofOrigin (origin : Point) (rows : RowRange) (use : PathUse) : BandWalk :=
  { rows, use, pen := origin, start := origin, outside := origin, sentStart := origin }

/-- Segments were left out and the pen is not where they ended. -/
def isBehind (w : BandWalk) : Bool := w.side ≠ .within && (w.pen ≠ w.outside || w.unsent)

def drawLine (w : BandWalk) (p : Point) (notes : SegmentNotes) : BandWalk :=
  { w with stream := w.stream.line (p.x - w.pen.x) (p.y - w.pen.y) notes, pen := p }

def movePen (w : BandWalk) (p : Point) : BandWalk :=
  { w with
    stream := w.stream.move (p.x - w.pen.x) (p.y - w.pen.y)
    pen := p
    sentStart := p
    unsent := false }

/-- Bring the pen to the end of the segments that were left out. -/
def catchUp (w : BandWalk) : BandWalk :=
  if w.isBehind then
    if w.progress = .moved then w.movePen w.outside
    else { w.drawLine w.outside w.outsideNotes with unsent := false }
  else w

/-- Leave a segment to `p` out. -/
def skip (w : BandWalk) (p : Point) (notes : SegmentNotes) : BandWalk :=
  { w with
    startSkipped := w.startSkipped || w.progress = .moved
    outside := p
    outsideNotes := notes }

/-- Go over to another side, where the segment that is sent next ends at `p`. -/
def goTo (w : BandWalk) (side : BandSide) (p : Point) : BandWalk :=
  { w with side, outside := if side = .within then w.outside else p }

def afterDrawing (w : BandWalk) : BandWalk := { w with progress := .drawn, unsent := false }

/-- Draw what closes the subpath if it does not end on the side where it began. -/
def returnToStart (w : BandWalk) : BandWalk :=
  if w.side = w.startSide then w
  else
    let w := if w.isBehind then { w.drawLine w.outside w.outsideNotes with unsent := false } else w
    if w.progress = .drawn && w.startSkipped then w.drawLine w.start 0 else w

def close (w : BandWalk) : BandWalk :=
  let w := w.returnToStart
  if w.use.closesImplicitly || w.progress ≠ .drawn then
    { w with progress := .closed, unsent := true, stream := w.stream.flush }
  else { w with progress := .closed, pen := w.sentStart, stream := w.stream.close }

/-- Close a subpath that counts as closed. -/
def closeIfImplicit (w : BandWalk) : BandWalk :=
  if w.progress = .drawn && w.use.closesImplicitly then w.close else w

def moveTo (w : BandWalk) (p : Point) : BandWalk :=
  let side := w.rows.sideOf p.y
  let w := { w.closeIfImplicit with
    progress := .moved, start := p, startSkipped := false, side, startSide := side }
  if side = .within then w.movePen p else { w with outside := p }

def lineTo (w : BandWalk) (p : Point) (notes : SegmentNotes) : BandWalk :=
  let notes := notes &&& w.use.notesMask
  let side := w.rows.sideOf p.y
  if side = w.side && side ≠ .within then w.skip p notes
  else ((w.catchUp.goTo side p).drawLine p notes).afterDrawing

def curveTo (w : BandWalk) (c1 c2 p : Point) (notes : SegmentNotes) : BandWalk :=
  let notes := notes &&& w.use.notesMask
  let side := w.rows.curveSide [c1.y, c2.y, p.y]
  if side = w.side && side ≠ .within then w.skip p notes
  else
    let w := w.catchUp.goTo (if side = .within then w.rows.sideOf p.y else side) p
    { w with stream := w.stream.curve w.pen c1 c2 p notes, pen := p }.afterDrawing

def step (w : BandWalk) : Segment → BandWalk
  | .move p => w.moveTo p
  | .line p notes => w.lineTo p notes
  | .curve c1 c2 p notes => w.curveTo c1 c2 p notes
  | .close => w.close

def finish (w : BandWalk) : BandWalk :=
  let w := w.closeIfImplicit
  { w with stream := w.stream.flush }

def ofPath (origin : Point) (rows : RowRange) (use : PathUse) (path : Path) : BandWalk :=
  (path.segments.foldl step (ofOrigin origin rows use)).finish

end BandWalk

end BandedPage
