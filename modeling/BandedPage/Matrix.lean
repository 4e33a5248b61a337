import BandedPage.Single

/-!
# Transformation matrices

Affine maps in single precision, the width they travel with. A point `(x, y)` goes to
`(xx * x + yx * y + tx, xy * x + yy * y + ty)`; each operation rounds once, in this order.
-/

namespace BandedPage

/-- An affine map of the plane. -/
structure Matrix where
  xx : Single := .one
  xy : Single := .zero
  yx : Single := .zero
  yy : Single := .one
  tx : Single := .zero
  ty : Single := .zero
  deriving BEq, Repr, Inhabited

namespace Matrix

/-- The map that moves nothing. -/
def identity : Matrix := {}

def translate (m : Matrix) (dx dy : Single) : Matrix := { m with tx := m.tx + dx, ty := m.ty + dy }

def transform (m : Matrix) (x y : Single) : Single × Single :=
  (x * m.xx + y * m.yx + m.tx, x * m.xy + y * m.yy + m.ty)

/-- First `a`, then `b`. -/
def multiply (a b : Matrix) : Matrix :=
  { xx := a.xx * b.xx + a.xy * b.yx
    xy := a.xx * b.xy + a.xy * b.yy
    yx := a.yx * b.xx + a.yy * b.yx
    yy := a.yx * b.xy + a.yy * b.yy
    tx := a.tx * b.xx + a.ty * b.yx + b.tx
    ty := a.tx * b.xy + a.ty * b.yy + b.ty }

def determinant (m : Matrix) : Single := m.xx * m.yy - m.xy * m.yx

/-- The map back, if the determinant is a number other than zero. -/
def inverse? (m : Matrix) : Option Matrix :=
  let d := m.determinant
  if d.isZero || !d.isFinite then none
  else
    let xx := m.yy / d
    let xy := -m.xy / d
    let yx := -m.yx / d
    let yy := m.xx / d
    some { xx, xy, yx, yy, tx := -(m.tx * xx + m.ty * yx), ty := -(m.tx * xy + m.ty * yy) }

end Matrix

end BandedPage
