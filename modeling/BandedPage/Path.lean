import BandedPage.Fixed
import BandedPage.Rect

/-!
# Paths

A path is a sequence of segments in fixed-point device space, built by pen movements. The pen
rests at the current point; closing a subpath brings it back to the subpath's start. Two moves in
a row leave only the second, and closing does nothing where there is nothing to close.
-/

namespace BandedPage

/-- Marks carried along with a drawn segment. -/
abbrev SegmentNotes := UInt8

/-- One piece of a path. -/
inductive Segment where
  | move (p : Point)
  | line (p : Point) (notes : SegmentNotes)
  /-- Two control points and the end point. -/
  | curve (c1 c2 p : Point) (notes : SegmentNotes)
  | close
  deriving DecidableEq, Repr

namespace Segment

/-- The points a segment names, control points included. -/
def points : Segment → List Point
  | move p | line p _ => [p]
  | curve c1 c2 p _ => [c1, c2, p]
  | close => []

end Segment

/-- A path under construction. -/
structure Path where
  segments : Array Segment := #[]
  start : Option Point := none
  current : Option Point := none
  deriving DecidableEq, Repr, Inhabited

namespace Path

def isEmpty (path : Path) : Bool := path.segments.isEmpty

/-- Begin a subpath at `p`, in place of one that was begun and not drawn on. -/
def moveTo (path : Path) (p : Point) : Path :=
  let segments := match path.segments.back? with
    | some (.move _) => path.segments.pop
    | _ => path.segments
  { segments := segments.push (.move p), start := some p, current := some p }

/-- A pen that was never moved starts at the origin. -/
def ensureCurrent (path : Path) : Path :=
  match path.current with
  | some _ => path
  | none => path.moveTo {}

def lineTo (path : Path) (p : Point) (notes : SegmentNotes) : Path :=
  let path := path.ensureCurrent
  { path with segments := path.segments.push (.line p notes), current := some p }

def curveTo (path : Path) (c1 c2 p : Point) (notes : SegmentNotes) : Path :=
  let path := path.ensureCurrent
  { path with segments := path.segments.push (.curve c1 c2 p notes), current := some p }

/-- Close the current subpath if something was drawn on it since it began or was last closed. -/
def closeSubpath (path : Path) : Path :=
  match path.segments.back? with
  | none | some .close | some (.move _) => path
  | _ => { path with segments := path.segments.push .close, current := path.start }

def rectangle (path : Path) (x0 y0 x1 y1 : Fixed) : Path :=
  (path.moveTo ⟨x0, y0⟩)
    |>.lineTo ⟨x1, y0⟩ 0
    |>.lineTo ⟨x1, y1⟩ 0
    |>.lineTo ⟨x0, y1⟩ 0
    |>.closeSubpath

/-- The least rectangle of points with all points of the path on or within its sides. -/
def bounds (path : Path) : Option Rect :=
  match path.segments.toList.flatMap Segment.points with
  | [] => none
  | p :: rest => some (rest.foldl (fun r q => r.expand q.x q.y) ⟨p.x, p.y, p.x, p.y⟩)

/-- First row the path may touch, and how many from there. -/
def rowSpan (path : Path) : Option (Int × Int) := do
  let r ← path.bounds
  let y := Fixed.floor r.y1
  return (y, Fixed.ceiling r.y2 - y)

end Path

end BandedPage
