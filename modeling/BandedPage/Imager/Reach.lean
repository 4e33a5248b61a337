import BandedPage.Imager.State

/-!
# The reach of a stroke

How far a stroked line can extend above and below its path. The reach is computed in double
precision: products of two singles are exact there, and each further factor rounds to 53 bits,
a tie to the even neighbour. A product is therefore kept as a natural number of equal units,
and rounding acts on that number.
-/

namespace BandedPage

/-- The size of a number, in units that its user knows. -/
inductive Magnitude where
  | finite (units : Nat)
  | infinite
  | undefined
  deriving DecidableEq, Repr

namespace Magnitude

/-- The size of a single, in units of `2 ^ -149`, the least positive single. -/
def ofSingle (a : Single) : Magnitude :=
  let m := a.magnitude.toNat
  let exponent := m >>> 23
  let fraction := m % 8388608
  if exponent = 255 then if fraction = 0 then infinite else undefined
  else if exponent = 0 then finite fraction
  else finite ((8388608 + fraction) <<< (exponent - 1))

/-- The greater of two sizes; an undefined one gives way. -/
def max : Magnitude → Magnitude → Magnitude
  | undefined, b => b
  | a, undefined => a
  | finite a, finite b => finite (Nat.max a b)
  | _, _ => infinite

/-- The product, in the product of the units. -/
def mul : Magnitude → Magnitude → Magnitude
  | finite a, finite b => finite (a * b)
  | finite 0, infinite | infinite, finite 0 => undefined
  | finite _, infinite | infinite, finite _ | infinite, infinite => infinite
  | undefined, _ | _, undefined => undefined

/-- The nearest number with at most 53 significant bits, a tie to the even one. -/
def roundNat (n : Nat) : Nat :=
  if n < 9007199254740992 then n
  else
    let step := 1 <<< (n.log2 - 52)
    let q := n / step
    let r := n % step
    (if step < 2 * r || (2 * r = step && q % 2 = 1) then q + 1 else q) * step

def round : Magnitude → Magnitude
  | finite n => finite (roundNat n)
  | m => m

/-- The number one, in units of `2 ^ -149`. -/
def one : Magnitude := finite (1 <<< 149)

/-- The square root of two in double precision, in units of `2 ^ -52`. -/
def sqrtTwo : Magnitude := finite 6369051672525773

end Magnitude

namespace ImagerState

/-- How many times further than its sides a corner of a stroked line may reach. -/
def mitreReach (s : ImagerState) : Magnitude :=
  if s.miterLimit.isNegative then .one else (Magnitude.ofSingle s.miterLimit).max .one

/-- Half the width of a stroked line as the device sees it, and the number of units that make a
pixel. Mitred corners and square caps reach further than the line's sides. -/
def halfReach (s : ImagerState) : Magnitude × Nat :=
  let scale := (Magnitude.ofSingle s.ctm.xy).max (Magnitude.ofSingle s.ctm.yy) |>.max .one
  let side := (Magnitude.ofSingle s.lineWidth).mul scale
  let unit := 1 <<< (149 + 149 + 1)
  let (corner, unit) :=
    if s.join = .miter then
      ((side.mul s.mitreReach).round, unit <<< 149)
    else (side, unit)
  if s.cap = .square then ((corner.mul .sqrtTwo).round, unit <<< 52) else (corner, unit)

/-- Rows above and below its path that a stroke may touch; none when more than 100 pixels could
be needed. -/
def strokeReach (s : ImagerState) : Option Int :=
  match s.halfReach with
  | (.finite n, unit) => if 100 * unit < n then none else some ((n + unit - 1) / unit + 1)
  | (.infinite, _) => none
  | (.undefined, _) => some 1

end ImagerState

end BandedPage
