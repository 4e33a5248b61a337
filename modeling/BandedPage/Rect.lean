/-!
# Rectangles of pixels

A `Rect` holds the pixels from its minimum corner up to, but not including, its maximum corner.
It may be empty or inverted; only `ofCorners` sorts. Taking one rectangle from another leaves at
most four pieces: the rows above, the rows below, and what is left and right between them.
-/

namespace BandedPage

/-- Pixels with `x1 ≤ x < x2` and `y1 ≤ y < y2`. -/
structure Rect where
  x1 : Int := 0
  y1 : Int := 0
  x2 : Int := 0
  y2 : Int := 0
  deriving DecidableEq, Repr, Inhabited

namespace Rect

def ofCorners (x1 y1 x2 y2 : Int) : Rect :=
  { x1 := min x1 x2, y1 := min y1 y2, x2 := max x1 x2, y2 := max y1 y2 }

/-- The rectangle of a given size at a given corner, by exact arithmetic. -/
def ofSize (x y width height : Int) : Rect := ⟨x, y, x + width, y + height⟩

def width (r : Rect) : Int := r.x2 - r.x1

def height (r : Rect) : Int := r.y2 - r.y1

/-- No pixel is inside. -/
def isEmpty (r : Rect) : Bool := r.x2 ≤ r.x1 || r.y2 ≤ r.y1

def HasPixel (r : Rect) (x y : Int) : Prop := r.x1 ≤ x ∧ x < r.x2 ∧ r.y1 ≤ y ∧ y < r.y2

instance (r : Rect) (x y : Int) : Decidable (r.HasPixel x y) :=
  inferInstanceAs (Decidable (_ ∧ _ ∧ _ ∧ _))

/-- Stretch a rectangle of points so that `(x, y)` lies on or within its sides. -/
def expand (r : Rect) (x y : Int) : Rect :=
  { x1 := min r.x1 x, y1 := min r.y1 y, x2 := max r.x2 x, y2 := max r.y2 y }

/-- The common pixels, if there are any. -/
def intersect (a b : Rect) : Option Rect :=
  let i : Rect := ⟨max a.x1 b.x1, max a.y1 b.y1, min a.x2 b.x2, min a.y2 b.y2⟩
  if i.isEmpty then none else some i

/-- Every side of `b` lies on or within `a`. -/
def contains (a b : Rect) : Bool :=
  a.x1 ≤ b.x1 && a.y1 ≤ b.y1 && b.x2 ≤ a.x2 && b.y2 ≤ a.y2

/-- The pixels of `a` outside `b`, in at most four pieces. -/
def subtract (a b : Rect) : List Rect :=
  match a.intersect b with
  | none => [a]
  | some i =>
    (if a.y1 < i.y1 then [{ a with y2 := i.y1 }] else []) ++
    (if i.y2 < a.y2 then [{ a with y1 := i.y2 }] else []) ++
    (if a.x1 < i.x1 then [⟨a.x1, i.y1, i.x1, i.y2⟩] else []) ++
    (if i.x2 < a.x2 then [⟨i.x2, i.y1, a.x2, i.y2⟩] else [])

/-- The pixels of some of `pieces` outside all of `holes`. -/
def subtractAll (pieces holes : List Rect) : List Rect :=
  holes.foldl (fun pieces hole => pieces.flatMap (subtract · hole)) pieces

/-- The number of pixels, for a rectangle that is not inverted. -/
def area (r : Rect) : Int := r.width * r.height

theorem hasPixel_of_intersect {a b i : Rect} (h : a.intersect b = some i) (x y : Int) :
    i.HasPixel x y ↔ a.HasPixel x y ∧ b.HasPixel x y := by
  simp only [intersect] at h
  split at h
  · cases h
  · cases h
    simp only [HasPixel]
    omega

end Rect

/-- A rectangle as the rectangle commands carry it. -/
structure SizedRect where
  x : Int := 0
  y : Int := 0
  width : Int := 0
  height : Int := 0
  deriving DecidableEq, Repr, Inhabited

namespace SizedRect

def ofRect (r : Rect) : SizedRect := ⟨r.x1, r.y1, r.width, r.height⟩

def toRect (r : SizedRect) : Rect := .ofSize r.x r.y r.width r.height

end SizedRect

end BandedPage
