import BandedPage.Rect

/-!
# Clipping

A `ClipPath` is what a drawing intent is clipped to: any rectangles, overlapping or empty ones
too, and whether drawing is kept inside or outside of them. Its `id` stands for its content. A
`ClipRegion` is the same region with disjoint rectangles, so that a rectangle is covered exactly
when the areas of its common parts add up to its own.
-/

namespace BandedPage

/-- A clip as drawing intents name it. -/
structure ClipPath where
  id : UInt64
  rects : List Rect
  /-- Draw only outside the rectangles. -/
  outside : Bool := false
  deriving DecidableEq, Repr

namespace ClipPath

/-- The rectangles that can meet rows `[ymin, ymax)`. -/
def rectsInRows (c : ClipPath) (ymin ymax : Int) : List Rect :=
  c.rects.filter fun r => r.x1 < r.x2 && r.y1 < ymax && ymin < r.y2

end ClipPath

/-- A clip with disjoint rectangles. -/
structure ClipRegion where
  rects : List Rect := []
  outside : Bool := false
  deriving DecidableEq, Repr, Inhabited

namespace ClipRegion

/-- Of each rectangle only what no earlier one covers is kept. -/
def disjoint (rects : List Rect) : List Rect :=
  (rects.filter (!·.isEmpty)).foldl (fun kept r => kept ++ Rect.subtractAll [r] kept) []

/-- The region inside, or outside, of any rectangles. -/
def ofRects (rects : List Rect) (outside : Bool) : ClipRegion :=
  { rects := disjoint rects, outside }

/-- Nothing of `area` is clipped away. -/
def covers (c : ClipRegion) (area : Rect) : Bool :=
  if c.outside then c.rects.all fun r => (r.intersect area).isNone
  else area.isEmpty ||
    (c.rects.filterMap (·.intersect area)).foldl (fun n r => n + r.area) 0 == area.area

def intersections (c : ClipRegion) (r : Rect) : List Rect :=
  if c.outside then Rect.subtractAll [r] c.rects
  else c.rects.filterMap (·.intersect r)

end ClipRegion

end BandedPage
