import BandedPage.Bits.Basic

/-!
# Lines of changes

A row of black and white pixels is described by the columns where the color changes, starting
from white: at even places to black, at odd places back to white. A row is coded against the
changes of the row above it.
-/

namespace BandedPage.Facsimile

/-- The columns where the color changes among those of `pixel` from `column` on. -/
def changesFrom (pixel : Nat → Bool) (black : Bool) (column : Nat) : Nat → List Nat
  | 0 => []
  | n + 1 =>
    if pixel column == black then changesFrom pixel black (column + 1) n
    else column :: changesFrom pixel (!black) (column + 1) n

def changes (data : Bytes) (start columns : Nat) : List Nat :=
  changesFrom (fun i => Bits.get data (start + i)) false 0 columns

/-- The first change right of `a`, or the right edge. -/
def nextChange (line : List Nat) (a : Int) (columns : Nat) : Nat :=
  (line.find? fun (c : Nat) => a < c).getD columns

/-- The first change of the line above that is right of `a` and away from the current color, and
the change after it; the right edge where there is none. `toBlack` says what the first listed
change is to. -/
def referenceFrom (a : Int) (black : Bool) (columns : Nat) : Bool → List Nat → Nat × Nat
  | _, [] => (columns, columns)
  | toBlack, c :: line =>
    if a < c && toBlack != black then (c, line.head?.getD columns)
    else referenceFrom a black columns (!toBlack) line

/-- The reference changes at `a` when the current color is black, or not. -/
def reference (line : List Nat) (a : Int) (black : Bool) (columns : Nat) : Nat × Nat :=
  referenceFrom a black columns true line

def blacken (data : Bytes) (start : Nat) : Nat → Bytes
  | 0 => data
  | n + 1 => blacken (Bits.set data start true) (start + 1) n

/-- Draw a line of changes into the row of `columns` bits that begins at bit `start`. -/
def draw (data : Bytes) (start columns : Nat) : List Nat → Bytes
  | [] => data
  | [a] => blacken data (start + a) (columns - a)
  | a :: b :: line => draw (blacken data (start + a) (b - a)) start columns line

end BandedPage.Facsimile
