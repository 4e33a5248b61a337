import Mathlib
import BandedPage.Opcode.Name
import BandedPage.Path.Merge
import BandedPage.Proofs.Operand.ColoredBases
import BandedPage.Proofs.Operand.Offset
import BandedPage.Proofs.Path.Script
import BandedPage.Proofs.Replay.Settings

/-!
# Replaying the commands that draw paths

The first segment of a path takes the pen from the corner of the band's rectangle; each does its
moves with the marks that were set last. Once the path is drawn the pen is lifted, and the pixel
where that happens is the corner of the band's rectangle.
-/

namespace BandedPage

/-- Where the pen begins. -/
def ReplayState.corner (r : ReplayState) : Point :=
  ⟨.ofPixel r.band.rect.x, .ofPixel r.band.rect.y⟩

variable {box : Rect} {r : ReplayState}

theorem replays_notes (notes : SegmentNotes) :
    Replays box (Command.notes notes) r []
      { r with pen := { r.pen with notes := notes &&& 0x3f } } := by
  refine ⟨_, _, .state .setOptions, rfl, by decide, by decide, fun {σ τ} _ _ _ => ?_⟩
  have hlt : notes &&& 0x3f < 64 := by
    have h63 : (0x3f : UInt8).toNat = 2 ^ 6 - 1 := rfl
    refine UInt8.lt_iff_toNat_lt.mpr (show _ < 64 from ?_)
    rw [UInt8.toNat_and, h63, Nat.and_two_pow_sub_one_eq_mod]
    omega
  obtain ⟨hkind, hnotes⟩ := kind_or_lt Opcode.optionNotes (by decide) hlt
  refine Yields.read_bind (l := []) (Decodes.nextByte _) ?_
  rw [hkind, if_neg (by decide), if_neg (by decide), if_pos rfl, hnotes]
  exact Yields.modifyState _

theorem replays_segment {op : SegmentOp} {offsets : List Fixed}
    (hlength : offsets.length = op.arity) (hfits : ∀ d ∈ offsets, Word.fits32 d = true) {pen : Pen}
    (hpen : (r.pen.startAt r.corner).performAll (op.penMoves offsets) = .ok pen) :
    Replays box (Command.segment op offsets) r [] { r with pen } := by
  have hop : Op.ofByte? op.code = some (.segment op) := by
    cases op <;> rfl
  refine ⟨_, _, .segment op, rfl, hop, by simp, fun {σ τ} _ _ _ => ?_⟩
  have hdecode := Offset.decodes_encode (σ := σ) offsets hfits
  rw [hlength] at hdecode
  refine (Yields.read_bind (l := []) hdecode ?_).of_eq (by simp)
  refine Yields.getState_bind ?_
  exact Yields.lift_bind hpen (Yields.modifyState _)

end BandedPage

/-!
## Replaying the commands that draw paths

The color of a path is the band's, the tile with its colors, or the last colored halftone. Once it
is drawn the pen is lifted, and the pixel where that happens is the corner of the band's rectangle.
-/

namespace BandedPage

variable {box : Rect} {r : ReplayState}

theorem replays_colored {bases : List UInt8} {levels : List Nat} (hbases : ReadableBases bases)
    (hlevels : ∀ level ∈ levels, level < 4294967296)
    (hlength : levels.length = r.config.components) :
    Replays box (Command.colored bases levels) r []
      { r with colored := some (.colored (lowBases bases) levels) } := by
  refine ⟨_, _, .state .setColor, rfl, by decide, by decide, fun {σ τ} _ _ _ => ?_⟩
  refine Yields.read_bind (decodes_packedBases hbases) ?_
  refine Yields.getState_bind ?_
  have hmany : Decodes (Operand.many Varint.decode r.config.components : Decoder σ (List Nat))
      (levels.flatMap Varint.encode) levels :=
    Operand.decodes_many (fun level hmem => Varint.decodes (hlevels level hmem)) hlength
  exact (Yields.read_bind (l := []) hmany (Yields.modifyState _)).of_eq (by simp)

namespace ReplayState

/-- The color a path is drawn with, if the reader has one. -/
def pathColor? (r : ReplayState) : ColorSource → Except Error DrawingColor
  | .pure => .ok (.pure r.band.colors.one)
  | .halftone => r.halftoneColor
  | .colored =>
    match r.colored with
    | some color => .ok color
    | none => .error (.malformed "colored halftone before set_color")

def pathImager (r : ReplayState) : ImagerState := { r.imager with logOp := r.band.lop }

/-- The pen has been lifted. -/
def afterPath (r : ReplayState) : ReplayState :=
  { r with
    imager := r.pathImager
    band := if r.pen.drawing then
        { r.band with rect := { r.band.rect with
            x := Fixed.floor r.pen.point.x, y := Fixed.floor r.pen.point.y } }
      else r.band
    pen := r.pen.lifted }

end ReplayState

def pathCall (op : PathOp) (state : ImagerState) (path : Path) (color : DrawingColor)
    (clip : Option ClipRegion) : TargetCall :=
  match op with
  | .fill _ => .fillPath state path .nonZero color clip
  | .evenOddFill _ => .fillPath state path .evenOdd color clip
  | .stroke _ => .strokePath state path color clip

variable {σ τ : Type} [ByteSource σ] [LawfulSource σ] [Target τ]

theorem yields_drawingColor {source : ColorSource} {color : DrawingColor}
    (h : r.pathColor? source = .ok color) :
    Yields box (Replay.drawingColor source : ReplayM σ τ DrawingColor) [] r [] color r := by
  refine Yields.getState_bind ?_
  cases source with
  | pure =>
    cases h
    exact Yields.pure _
  | halftone =>
    have hcolor : r.halftoneColor = .ok color := h
    show Yields box (liftM r.halftoneColor : ReplayM σ τ DrawingColor) [] r [] color r
    rw [hcolor]
    exact Yields.pure color
  | colored =>
    simp only [ReplayState.pathColor?] at h
    split at h
    · next c hc =>
      cases h
      rw [hc]
      exact Yields.pure _
    · cases h

/-- The pen is lifted after a path was drawn. -/
theorem yields_liftPen :
    Yields box (if r.pen.drawing = true then do
        Replay.modifyBand fun band => { band with rect := { band.rect with
          x := Fixed.floor r.pen.point.x, y := Fixed.floor r.pen.point.y } }
        Replay.modifyState fun s => { s with pen := s.pen.lifted }
      else Replay.modifyState fun s => { s with pen := s.pen.lifted } : ReplayM σ τ Unit) []
      { r with imager := r.pathImager } [] () r.afterPath := by
  cases hdrawing : r.pen.drawing with
  | true =>
    rw [if_pos rfl, ReplayState.afterPath, if_pos hdrawing]
    exact Yields.modifyBand_bind (Yields.modifyState _)
  | false =>
    have hfree : ¬ r.pen.drawing = true := by simp [hdrawing]
    rw [if_neg (by decide), ReplayState.afterPath, if_neg hfree]
    exact Yields.modifyState _

theorem replays_path {op : PathOp} {color : DrawingColor} (h : r.pathColor? op.source = .ok color) :
    Replays box (Command.path op) r [pathCall op r.pathImager r.pen.path color r.activeClip]
      r.afterPath := by
  have hop : Op.ofByte? op.code = some (.path op) := by
    rcases op with source | source | source <;> cases source <;> rfl
  refine ⟨_, _, .path op, rfl, hop, by simp, fun {σ τ} _ _ _ => ?_⟩
  refine Yields.modifyState_bind ?_
  refine Yields.getState_bind ?_
  have hcolor : Yields box (Replay.drawingColor op.source : ReplayM σ τ DrawingColor) []
      { r with imager := r.pathImager } [] color { r with imager := r.pathImager } :=
    yields_drawingColor h
  let drawn : ReplayState := { r with imager := r.pathImager }
  have hdraw : Yields box (Replay.draw (TargetCall.perform
      (pathCall op r.pathImager r.pen.path color r.activeClip)) : ReplayM σ τ Unit) [] drawn
      [pathCall op r.pathImager r.pen.path color r.activeClip] () drawn := Yields.draw _
  cases op with
  | fill source => exact hcolor.bind (l := []) (hdraw.bind (l := []) yields_liftPen)
  | evenOddFill source => exact hcolor.bind (l := []) (hdraw.bind (l := []) yields_liftPen)
  | stroke source => exact hcolor.bind (l := []) (hdraw.bind (l := []) yields_liftPen)

end BandedPage
