import BandedPage.Imager.Reach
import BandedPage.Path.Walk
import BandedPage.Writer.Recovery
import BandedPage.Writer.Tile

/-!
# Drawing paths

A path is sent to every band it may touch, each time as the band sees it. Filling touches a row
above and below the path at most. How far a stroke reaches depends on the imager state; segments
far from a band are left out unless dashes have to be counted along them.
-/

namespace BandedPage

/-- A path on its way to the page. -/
structure PathDrawing where
  path : Path
  use : PathUse
  op : ColorSource → PathOp
  color : DrawingColor
  clip : Option ClipPath

namespace BandDraft

/-- Send the rows of a path and draw it. The pen stays where the path ends. -/
def drawPath (d : BandDraft) (p : PathDrawing) (rows : RowRange) (source : ColorSource) :
    BandDraft :=
  let rect := d.state.rect
  let walk := BandWalk.ofPath ⟨.ofPixel rect.x, .ofPixel rect.y⟩ rows p.use p.path
  { d with
    commands := (d.commands ++ walk.stream.commands).push (Command.path (p.op source))
    state := { d.state with
      rect := { rect with x := Fixed.floor walk.pen.x, y := Fixed.floor walk.pen.y } } }

end BandDraft

variable {μ ν : Type} [Medium μ] [MemoryPolicy μ ν]

def WriterState.pathBand (band : Nat) (p : PathDrawing) (rows : RowRange) : WriteM μ ν Unit := do
  let s ← get
  let d := (← draft band).tellFields p.use.required s.imager s.colorSpace
  let d := (d.useClip (← bandRect band) p.clip).useLop s.imager.logOp false
  let (source, d) ← useDrawingColor d p.color
  commit (d.drawPath p rows source)

namespace Writer

/-- Make an imager state current as far as a path depends on it, and its clip. -/
def useForPath (ps : ImagerState) (p : PathDrawing) : WriterM μ ν Unit := do
  onState (WriterState.updateImager ps p.use.required)
  update (·.useClip p.clip)

def drawPath (p : PathDrawing) (bands : Option BandRange) (rows : Rect → RowRange) :
    WriterM μ ν Unit := do
  let config := (← get).state.config
  (bands.elim [] BandRange.toList).forM fun band =>
    withRecovery (WriterState.pathBand band p (rows (config.bandRect band)))

def fillPath (ps : ImagerState) (path : Path) (rule : FillRule) (color : DrawingColor)
    (clip : Option ClipPath) : WriterM μ ν Unit := do
  check
  let some (y, height) := path.rowSpan | return
  let op := match rule with
    | .nonZero => PathOp.fill
    | .evenOdd => .evenOddFill
  let p : PathDrawing := { path, use := .fill, op, color, clip }
  useForPath ps p
  let first := y - 1
  let stop := y + height + 1
  drawPath p ((← get).state.config.bandsFor first (stop - first)) fun area =>
    ⟨.ofPixel (max (area.y1 - 1) first), .ofPixel (min (area.y2 + 1) stop)⟩

def strokePath (ps : ImagerState) (path : Path) (color : DrawingColor) (clip : Option ClipPath) :
    WriterM μ ν Unit := do
  check
  let some (y, height) := path.rowSpan | return
  let p : PathDrawing := { path, use := .stroke, op := .stroke, color, clip }
  useForPath ps p
  let config := (← get).state.config
  match ps.strokeReach with
  | none => drawPath p (some config.allBands) fun _ => .everything
  | some reach =>
    drawPath p (config.bandsFor (y - reach) (height + 2 * reach)) fun area =>
      if ps.dash.pattern.isEmpty then ⟨.ofPixel (area.y1 - reach), .ofPixel (area.y2 + reach)⟩
      else .everything

end Writer

end BandedPage
