import Mathlib
import BandedPage.Proofs.Computation
import BandedPage.Proofs.Store.Content
import BandedPage.Proofs.Writer.Keeping

/-!
# Memory that is watched

However memory is got, the stores that were rendered to get it can be kept beside it. A page that
never had to be emptied has none.
-/

namespace BandedPage

/-- Memory, and the stores of the partial pages that were rendered, the last one last. -/
structure Watched (μ ν : Type) where
  memory : ν
  rendered : List (BandStore μ) := []

namespace Watched

variable {μ ν α : Type}

def onMemory (m : EStateM Error ν α) : EStateM Error (Watched μ ν) α := fun w =>
  match m w.memory with
  | .ok a memory => .ok a { w with memory }
  | .error e memory => .error e { w with memory }

instance [MemoryPolicy μ ν] : MemoryPolicy μ (Watched μ ν) where
  reserve n := onMemory (MemoryPolicy.reserve μ n)
  freeUp w :=
    let (freed, memory) := MemoryPolicy.freeUp μ w.memory
    (freed, { w with memory })
  renderPartialPage store := do
    modify fun w => { w with rendered := w.rendered ++ [store] }
    onMemory (MemoryPolicy.renderPartialPage store)

/-- A store that is rendered is noted, whatever comes of it. -/
@[simp]
theorem rendered_renderPartialPage [MemoryPolicy μ ν] (store : BandStore μ) (w : Watched μ ν) :
    (stateOf ((MemoryPolicy.renderPartialPage store : EStateM Error (Watched μ ν) Unit) w)).rendered =
      w.rendered ++ [store] := by
  cases hrender : (MemoryPolicy.renderPartialPage store : EStateM Error ν Unit) w.memory <;>
    simp only [MemoryPolicy.renderPartialPage] at hrender ⊢ <;>
    simp [onMemory, hrender, stateOf]

end Watched

/-- Memory is refused for no other reason than that there is none. -/
def MemoryPolicy.RefusesForLack (μ ν : Type) [MemoryPolicy μ ν] : Prop :=
  ∀ (n : Nat) (memory memory' : ν) (e : Error),
    MemoryPolicy.reserve μ n memory = .error e memory' → e.isRetryable = true

end BandedPage

/-!
## Band operations render nothing

Pages are rendered by recovery alone. Whatever becomes of an operation on bands, the stores that have
been rendered are the same afterwards.
-/

namespace BandedPage.WriterState

variable {μ ν α : Type}

/-- Whatever comes of it, the operation renders nothing. -/
def RendersNothing (op : WriteM μ (Watched μ ν) α) : Prop :=
  ∀ s : WriterState μ (Watched μ ν), (stateOf (op s)).memory.rendered = s.memory.rendered

/-- What an operation meets it meets without rendering anything. -/
theorem RendersNothing.meets {op : WriteM μ (Watched μ ν) α} (h : RendersNothing op)
    {s : WriterState μ (Watched μ ν)} {P : α → WriterState μ (Watched μ ν) → Prop}
    {E : Error → WriterState μ (Watched μ ν) → Prop} (hm : Meets op s P E) :
    Meets op s (fun a s' => P a s' ∧ s'.memory.rendered = s.memory.rendered)
      fun e s' => E e s' ∧ s'.memory.rendered = s.memory.rendered := by
  have hs := h s
  cases hrun : op s with
  | ok a s' =>
    rw [hrun] at hs
    exact .of_ok hrun ⟨hm.ok hrun, hs⟩
  | error e s' =>
    rw [hrun] at hs
    exact .of_error hrun ⟨hm.error hrun, hs⟩

variable [MemoryPolicy μ ν]

/-- Memory that is asked for renders nothing. -/
theorem stable_rendered (rendered : List (BandStore μ)) :
    Stable fun s : WriterState μ (Watched μ ν) => s.memory.rendered = rendered where
  of_eq _ hmemory hs := by rw [hmemory, hs]
  reserve n s hs := by
    rw [← hs]
    cases hrun : (MemoryPolicy.reserve μ n : EStateM Error ν Unit) s.memory.memory <;>
      simp only [MemoryPolicy.reserve, Watched.onMemory, hrun, stateOf]
  lookup _ _ _ _ hs := hs
  mark _ _ _ hs := hs

theorem RendersNothing.of_keeps {op : WriteM μ (Watched μ ν) α}
    (h : ∀ I : WriterState μ (Watched μ ν) → Prop, Stable I → Keeps I op) : RendersNothing op :=
  fun s => h _ (stable_rendered s.memory.rendered) s rfl

omit [MemoryPolicy μ ν] in
theorem rendersNothing_updateImager (new : ImagerState) (selected : FieldSet) :
    RendersNothing (updateImager new selected : WriteM μ (Watched μ ν) Unit) :=
  -- No memory is asked for, so any way to get it will do.
  letI : MemoryPolicy μ ν := {}
  .of_keeps fun _ h => h.updateImager new selected

variable [Medium μ]

theorem rendersNothing_putAllBands (batch : List Command) :
    RendersNothing (putAllBands batch : WriteM μ (Watched μ ν) Unit) :=
  .of_keeps fun _ h => h.putAllBands batch

theorem rendersNothing_putPageState :
    RendersNothing (putPageState : WriteM μ (Watched μ ν) Unit) :=
  .of_keeps fun _ h => h.putPageState

theorem rendersNothing_fillBand (band : Nat) (r : Rect) (color : Color) :
    RendersNothing (fillBand band r color : WriteM μ (Watched μ ν) Unit) :=
  .of_keeps fun _ h => h.fillBand band r color

theorem rendersNothing_tileBand (band : Nat) (r : Rect) (tile : Tile) (colors : ColorPair)
    (phase : Phase) :
    RendersNothing (tileBand band r tile colors phase : WriteM μ (Watched μ ν) Unit) :=
  .of_keeps fun _ h => h.tileBand band r tile colors phase

theorem rendersNothing_pathBand (band : Nat) (p : PathDrawing) (rows : RowRange) :
    RendersNothing (pathBand band p rows : WriteM μ (Watched μ ν) Unit) :=
  .of_keeps fun _ h => h.pathBand band p rows

theorem rendersNothing_copyBand (band : Nat) (c : BitmapCopy) :
    RendersNothing (copyBand band c : WriteM μ (Watched μ ν) Unit) :=
  .of_keeps fun _ h => h.copyBand band c

theorem rendersNothing_imageDataBand (band : Nat) (rows : Command) :
    RendersNothing (imageDataBand band rows : WriteM μ (Watched μ ν) Unit) :=
  .of_keeps fun _ h => h.imageDataBand band rows

theorem rendersNothing_endImageBand (band : Nat) :
    RendersNothing (endImageBand band : WriteM μ (Watched μ ν) Unit) :=
  .of_keeps fun _ h => h.endImageBand band

end BandedPage.WriterState
