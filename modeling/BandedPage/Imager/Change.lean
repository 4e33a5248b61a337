import BandedPage.Imager.Field
import BandedPage.Imager.State

/-!
# Changes of the imager state

Two imager states compared and joined field by field. Numbers are compared as numbers: a NaN
differs from itself, so a field that holds one changes each time.
-/

namespace BandedPage.ImagerState

/-- The states differ in a field. What is no part of the imager state never differs. -/
def differs (a b : ImagerState) : StateField → Bool
  | .flatness => a.flatness != b.flatness
  | .fillAdjust => a.fillAdjust != b.fillAdjust
  | .ctm => a.ctm != b.ctm
  | .lineWidth => a.lineWidth != b.lineWidth
  | .miterLimit => a.miterLimit != b.miterLimit
  | .capJoin => a.cap != b.cap || a.join != b.join
  | .curveOptions =>
    a.accurateCurves != b.accurateCurves || a.overprint != b.overprint ||
      a.strokeAdjust != b.strokeAdjust
  | .dash => a.dash != b.dash
  | .alpha => a.alpha != b.alpha
  | .clip | .colorSpace => false

/-- The state `a` with a field of `b`. -/
def withField (a b : ImagerState) : StateField → ImagerState
  | .flatness => { a with flatness := b.flatness }
  | .fillAdjust => { a with fillAdjust := b.fillAdjust }
  | .ctm => { a with ctm := b.ctm }
  | .lineWidth => { a with lineWidth := b.lineWidth }
  | .miterLimit => { a with miterLimit := b.miterLimit }
  | .capJoin => { a with cap := b.cap, join := b.join }
  | .curveOptions =>
    { a with
      accurateCurves := b.accurateCurves
      overprint := b.overprint
      strokeAdjust := b.strokeAdjust }
  | .dash => { a with dash := b.dash }
  | .alpha => { a with alpha := b.alpha }
  | .clip | .colorSpace => a

end BandedPage.ImagerState
