import BandedPage.Path

/-!
# Outlines

To be painted, a path is flattened to polygons: a curve becomes sixteen straight lines, and each
subpath is taken as closed. A row is inside the polygons between the places where their sides
cross the middle of the row.
-/

namespace BandedPage

/-- The corners of a polygon, in pixels. -/
abbrev Polygon := Array (Float × Float)

namespace Outline

/-- Straight lines that a curve is made of. -/
def curveSteps : Nat := 16

def corner (p : Point) : Float × Float := (Fixed.toFloat p.x, Fixed.toFloat p.y)

def curvePoint (p0 p1 p2 p3 : Float × Float) (t : Float) : Float × Float :=
  let u := 1.0 - t
  let a := u * u * u
  let b := 3.0 * u * u * t
  let c := 3.0 * u * t * t
  let d := t * t * t
  (a * p0.1 + b * p1.1 + c * p2.1 + d * p3.1, a * p0.2 + b * p1.2 + c * p2.2 + d * p3.2)

/-- Polygons complete, and the corners of the one being drawn. -/
abbrev Progress := Array Polygon × Polygon

/-- Take one corner for no polygon. -/
def finish : Progress → Array Polygon
  | (done, drawn) => if 1 < drawn.size then done.push drawn else done

def step : Progress → Segment → Progress
  | progress, .move p => (finish progress, #[corner p])
  | (done, drawn), .line p _ => (done, drawn.push (corner p))
  | (done, drawn), .curve c1 c2 p _ =>
    let start := drawn.back?.getD (0.0, 0.0)
    let points := (List.range curveSteps).map fun i =>
      curvePoint start (corner c1) (corner c2) (corner p)
        (Float.ofNat (i + 1) / Float.ofNat curveSteps)
    (done, drawn ++ points.toArray)
  | (done, drawn), .close =>
    match drawn[0]? with
    | some first => (done.push drawn, #[first])
    | none => (done, drawn)

def polygons (path : Path) : List Polygon :=
  (finish (path.segments.foldl step (#[], #[]))).toList

/-- Where a side from `a` to `b` crosses the height `y`, and whether it goes up the page's rows. -/
def crossing (y : Float) (a b : Float × Float) : Option (Float × Int) :=
  if (a.2 ≤ y : Bool) != (b.2 ≤ y : Bool) then
    some (a.1 + (y - a.2) * (b.1 - a.1) / (b.2 - a.2), if a.2 < b.2 then 1 else -1)
  else none

/-- The sides of a polygon, the one that closes it last. -/
def sides (p : Polygon) : List ((Float × Float) × (Float × Float)) :=
  p.toList.zip (p.toList.drop 1 ++ p.toList.take 1)

/-- All crossings of the height `y`, from left to right. -/
def crossings (polygons : List Polygon) (y : Float) : List (Float × Int) :=
  let found := polygons.flatMap fun p => (sides p).filterMap fun (a, b) => crossing y a b
  found.mergeSort fun a b => !(b.1 < a.1 : Bool)

/-- The pixels whose middle lies between two neighbouring crossings that are inside, where
`inside` judges the sum of the crossings so far. -/
def spans (inside : Int → Bool) : Int → List (Float × Int) → List (Int × Int)
  | winding, (x1, turn) :: (x2, turn') :: rest =>
    let winding := winding + turn
    let first := (x1 - 0.5).ceil.toInt32.toInt
    let stop := (x2 - 0.5).ceil.toInt32.toInt
    let others := spans inside winding ((x2, turn') :: rest)
    if inside winding && first < stop then (first, stop) :: others else others
  | _, _ => []

end Outline

end BandedPage
