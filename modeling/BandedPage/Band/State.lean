import BandedPage.Color
import BandedPage.Imager.Field
import BandedPage.Rect

/-!
# What a band knows

Commands give most of their operands relative to what the band was told before. A `BandState` is
that memory: the writer keeps one for each band to choose the shortest command, and replay keeps
one to undo the choice.
-/

namespace BandedPage

/-- The state a band's commands have set up so far. -/
structure BandState where
  colors : ColorPair := {}
  tileIndex : Nat := 0
  /-- The bitmap last selected as tile; only the writer tells bitmaps apart. -/
  tileId : Option BitmapId := none
  tilePhase : Phase := {}
  tileColors : ColorPair := {}
  /-- The last rectangle; its corner is where the next path starts. -/
  rect : SizedRect := {}
  lop : LogicalOp := .default
  lopEnabled : Bool := false
  clipEnabled : Bool := false
  /-- Copies of deep bitmaps carry coverage instead of colors. -/
  copiesAlpha : Bool := false
  /-- Fields of the imager state the band has been sent. -/
  known : FieldSet := ∅
  deriving DecidableEq, Repr, Inhabited

namespace BandState

/-- Forget fields, so that they are sent again before their next use. -/
def forget (s : BandState) (fields : FieldSet) : BandState := { s with known := s.known \ fields }

/-- The required fields the band has not been sent. -/
def missing (s : BandState) (required : FieldSet) : FieldSet := required \ s.known

end BandState

end BandedPage
