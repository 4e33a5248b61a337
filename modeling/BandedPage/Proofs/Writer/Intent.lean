import Mathlib
import BandedPage.Proofs.Computation
import BandedPage.Proofs.Writer.Recovery
import BandedPage.Writer.Session

/-!
# Intents

What an application asks of a writer while it writes a page. An intent that fails leaves the writer
as it then is, and the next one is served from there.
-/

namespace BandedPage

/-- Something to be done on a page. -/
inductive Intent where
  | fillRectangle (rect : Rect) (color : Color)
  | tileRectangle (tile : Tile) (rect : Rect) (colors : ColorPair) (phase : Phase)
  | copyMono (bitmap : Bitmap) (name : Option BitmapId) (rect : Rect) (colors : ColorPair)
  | copyColor (bitmap : Bitmap) (name : Option BitmapId) (rect : Rect)
  | copyAlpha (bitmap : Bitmap) (name : Option BitmapId) (rect : Rect) (color : Color) (depth : Nat)
  | fillMask (bitmap : Bitmap) (name : Option BitmapId) (rect : Rect) (color : DrawingColor)
      (depth : Nat) (clip : Option ClipPath)
  | fillPath (ps : ImagerState) (path : Path) (rule : FillRule) (color : DrawingColor)
      (clip : Option ClipPath)
  | strokePath (ps : ImagerState) (path : Path) (color : DrawingColor) (clip : Option ClipPath)
  | beginImage (ps : ImagerState) (header : ImageHeader) (space : ColorSpace) (color : DrawingColor)
      (clip : Option ClipPath)
  | imageData (planes : List Bitmap) (height : Nat)
  | endImage
  | setLogicalOp (op : LogicalOp)
  | setColorSpace (space : ColorSpace)
  | putParams (params : List UInt8)
  | setHalftone (halftone : Halftone)
  | setTransferMap (index : Nat) (map : TransferMap)
  | endPage

namespace Intent

variable {μ ν : Type} [Medium μ] [MemoryPolicy μ ν]

def perform : Intent → WriterM μ ν Unit
  | fillRectangle rect color => Writer.fillRectangle rect color
  | tileRectangle tile rect colors phase => Writer.tileRectangle tile rect colors phase
  | copyMono bitmap name rect colors => Writer.copyMono bitmap name rect colors
  | copyColor bitmap name rect => Writer.copyColor bitmap name rect
  | copyAlpha bitmap name rect color depth => Writer.copyAlpha bitmap name rect color depth
  | fillMask bitmap name rect color depth clip => Writer.fillMask bitmap name rect color depth clip
  | fillPath ps path rule color clip => Writer.fillPath ps path rule color clip
  | strokePath ps path color clip => Writer.strokePath ps path color clip
  | beginImage ps header space color clip => Writer.beginImage ps header space color clip
  | imageData planes height => Writer.imageData planes height
  | endImage => Writer.endImage
  | setLogicalOp op => Writer.setLogicalOp op
  | setColorSpace space => Writer.setColorSpace space
  | putParams params => Writer.putParams params
  | setHalftone halftone => Writer.setHalftone halftone
  | setTransferMap index map => Writer.setTransferMap index map
  | endPage => Writer.endPage

/-- The answer to an intent, and the writer after it. -/
def serve (intent : Intent) (w : Writer μ ν) : Except Error Unit × Writer μ ν :=
  match intent.perform w with
  | .ok _ w' => (.ok (), w')
  | .error e w' => (.error e, w')

/-- The answers to some intents, and the writer after the last one. -/
def serveAll : List Intent → Writer μ ν → List (Except Error Unit) × Writer μ ν
  | [], w => ([], w)
  | intent :: intents, w =>
    let (answer, w') := intent.serve w
    let (answers, w'') := serveAll intents w'
    (answer :: answers, w'')

end Intent

end BandedPage

/-!
## A writer that was switched off

A writer that was switched off never goes on: it refuses to draw, and whatever else it is asked to
remember, it stays switched off.
-/

namespace BandedPage

variable {μ ν α β : Type}

/-- Nothing that is done switches a writer on again. -/
def Writer.StaysOff (m : WriterM μ ν α) : Prop :=
  ∀ w : Writer μ ν, w.disabled = true → (stateOf (m w)).disabled = true

namespace Writer.StaysOff

variable {m : WriterM μ ν α} {f : α → WriterM μ ν β}

theorem pure (a : α) : StaysOff (Pure.pure a : WriterM μ ν α) := fun _ hw => hw

theorem throw (e : Error) : StaysOff (throw e : WriterM μ ν α) := fun _ hw => hw

theorem update (g : WriterState μ ν → WriterState μ ν) : StaysOff (Writer.update g) :=
  fun _ hw => hw

theorem bind (h : StaysOff m) (hf : ∀ a, StaysOff (f a)) : StaysOff (m >>= f) := by
  intro w hw
  have hm := h w hw
  cases hrun : m w with
  | ok a w' =>
    rw [bind_of_ok hrun]
    rw [hrun] at hm
    exact hf a w' hm
  | error e w' =>
    rw [bind_of_error hrun]
    rw [hrun] at hm
    exact hm

theorem get_bind {f : Writer μ ν → WriterM μ ν β} (hf : ∀ w, StaysOff (f w)) :
    StaysOff (get >>= f) := fun w hw => hf w w hw

/-- What begins with a check is not even begun. -/
theorem check_bind (f : Unit → WriterM μ ν β) : StaysOff (Writer.check >>= f) := by
  intro w hw
  have hcheck : Writer.check w = .error .writerDisabled w := by
    simp only [Writer.check, get_bind_run, if_pos hw]
    rfl
  rw [bind_of_error hcheck]
  exact hw

variable [Medium μ] [MemoryPolicy μ ν]

theorem withRecovery (op : WriteM μ ν α) : StaysOff (Writer.withRecovery op) := by
  intro w hw
  rw [withRecovery_of_disabled op hw]
  exact hw

theorem copyBitmap (c : BitmapCopy) : StaysOff (Writer.copyBitmap c : WriterM μ ν Unit) :=
  check_bind _

/-- No request switches the writer on again. -/
theorem perform (intent : Intent) : StaysOff (intent.perform : WriterM μ ν Unit) := by
  cases intent with
  | fillRectangle | tileRectangle | fillPath | strokePath | beginImage | imageData | endImage
  | endPage => exact check_bind _
  | copyMono | copyColor => exact copyBitmap _
  | copyAlpha bitmap name rect color depth =>
    simp only [Intent.perform, Writer.copyAlpha]
    split
    · exact throw _
    · exact copyBitmap _
  | fillMask bitmap name rect color depth clip =>
    simp only [Intent.perform, Writer.fillMask]
    split
    · exact throw _
    · refine (update _).bind fun _ => ?_
      cases color with
      | pure color => exact copyBitmap _
      | halftone tile colors phase => exact copyBitmap _
      | colored bases levels => exact throw _
  | setLogicalOp | setColorSpace => exact fun _ hw => hw
  | putParams params => exact (withRecovery _).bind fun _ => update _
  | setHalftone halftone =>
    refine get_bind fun w => ?_
    split
    · exact (update _).bind fun _ => withRecovery _
    · exact pure _
  | setTransferMap index map =>
    simp only [Intent.perform, Writer.setTransferMap]
    split
    · exact throw _
    · cases map with
      | none =>
        refine get_bind fun w => ?_
        split
        · exact (update _).bind fun _ => withRecovery _
        · exact pure _
      | some entries =>
        dsimp only
        split
        · exact throw _
        · refine get_bind fun w => ?_
          split
          · exact (update _).bind fun _ => withRecovery _
          · exact pure _

/-- A writer that is not switched off in the end never was. -/
theorem enabled_of_serveAll {intents : List Intent} {w : Writer μ ν}
    (h : (Intent.serveAll intents w).2.disabled = false) : w.disabled = false := by
  induction intents generalizing w with
  | nil => exact h
  | cons intent intents ih =>
    have hserve : (intent.serve w).2.disabled = false := ih h
    have hstate : (intent.serve w).2 = stateOf (intent.perform w) := by
      rw [Intent.serve]
      cases intent.perform w <;> rfl
    by_contra hw
    have hoff := perform intent w (by simpa using hw)
    rw [← hstate, hserve] at hoff
    cases hoff

end Writer.StaysOff

end BandedPage
