import Mathlib
import BandedPage.Proofs.Span
import BandedPage.Proofs.Tile.Vacancy
import BandedPage.Proofs.Writer.Intent
import BandedPage.Proofs.Writer.Keeping
import BandedPage.Proofs.Writer.Recovery

/-!
# What a writer keeps of its tiles

The tiles of a writer are asked for, marked as sent, and dropped when a page begins, and nothing else
is done to them. What these three keep is kept by every request, recovery included.
-/

namespace BandedPage

/-- What stays so of a cache of tiles, whatever is done to it. -/
structure TileCache.Lasting (P : TileCache → Prop) : Prop where
  lookup (id : BitmapId) (size : TileSize) (bits : Bytes) {c : TileCache} (hc : P c) :
    P (stateOf (lookupOrAdd id size bits c))
  mark (index band : Nat) {c : TileCache} (hc : P c) : P (c.markBand index band)
  reset {c : TileCache} (hc : P c) : P c.reset

theorem TileCache.lasting_counted : Lasting Counted where
  lookup id size bits _ hc := hc.lookupOrAdd id size bits
  mark index band _ hc := hc.markBand index band
  reset _ := counted_reset _

variable {μ ν α β : Type} {P : TileCache → Prop}

theorem TileCache.Lasting.stable [MemoryPolicy μ ν] (hP : Lasting P) :
    WriterState.Stable fun s : WriterState μ ν => P s.tiles where
  of_eq htiles _ hs := htiles.symm ▸ hs
  reserve _ _ hs := hs
  lookup id size bits _ hs := hP.lookup id size bits hs
  mark index band _ hs := hP.mark index band hs

namespace WriterState

@[simp] theorem tiles_useClip (s : WriterState μ ν) (clip : Option ClipPath) :
    (s.useClip clip).tiles = s.tiles := by
  cases clip with
  | none => rfl
  | some clip =>
    rw [useClip]
    split <;> rfl

@[simp] theorem tiles_useColorSpace (s : WriterState μ ν) (space : ColorSpace) :
    (s.useColorSpace space).tiles = s.tiles := by
  rw [useColorSpace]
  split <;> rfl

end WriterState

/-- Whatever comes of the request, what was so of the tiles is so then. -/
def Writer.KeepsTiles (P : TileCache → Prop) (m : WriterM μ ν α) : Prop :=
  ∀ w : Writer μ ν, P w.state.tiles → P (stateOf (m w)).state.tiles

namespace Writer.KeepsTiles

variable {m : WriterM μ ν α} {f : α → WriterM μ ν β}

theorem of_ok {w w' : Writer μ ν} {a : α} (h : KeepsTiles P m) (hw : P w.state.tiles)
    (hrun : m w = .ok a w') : P w'.state.tiles := by
  have hm := h w hw
  rwa [hrun] at hm

theorem pure (a : α) : KeepsTiles P (pure a : WriterM μ ν α) := fun _ hw => hw

theorem throw (e : Error) : KeepsTiles P (throw e : WriterM μ ν α) := fun _ hw => hw

theorem update {g : WriterState μ ν → WriterState μ ν} (hg : ∀ s, P s.tiles → P (g s).tiles) :
    KeepsTiles P (update g) := fun w hw => hg w.state hw

theorem lift (x : Except Error α) : KeepsTiles P (liftM x : WriterM μ ν α) := by
  intro w hw
  cases x <;> exact hw

theorem bind (h : KeepsTiles P m) (hf : ∀ a, KeepsTiles P (f a)) : KeepsTiles P (m >>= f) := by
  intro w hw
  have hm := h w hw
  cases hrun : m w with
  | ok a w' =>
    rw [hrun] at hm
    rw [bind_of_ok hrun]
    exact hf a w' hm
  | error e w' =>
    rw [hrun] at hm
    rw [bind_of_error hrun]
    exact hm

theorem get_bind {f : Writer μ ν → WriterM μ ν β} (hf : ∀ w, KeepsTiles P (f w)) :
    KeepsTiles P (get >>= f) := fun w hw => hf w w hw

theorem tryCatch {f : Error → WriterM μ ν α} (h : KeepsTiles P m) (hf : ∀ e, KeepsTiles P (f e)) :
    KeepsTiles P (tryCatch m f) := by
  intro w hw
  have hm := h w hw
  rw [tryCatch_run]
  cases hrun : m w with
  | ok a w' =>
    rw [hrun] at hm
    exact hm
  | error e w' =>
    rw [hrun] at hm
    exact hf e w' hm

theorem forM {f : α → WriterM μ ν Unit} (h : ∀ a, KeepsTiles P (f a)) (l : List α) :
    KeepsTiles P (l.forM f) := by
  induction l with
  | nil => exact pure ()
  | cons a l ih => exact (h a).bind fun _ => ih

theorem forM_span {f : Span → WriterM μ ν Unit} (h : ∀ s, KeepsTiles P (f s))
    (period origin lo hi : Int) : KeepsTiles P (Span.forM period origin lo hi f) := by
  rw [Span.forM_eq_cut]
  exact forM h _

theorem check : KeepsTiles P (check : WriterM μ ν Unit) := by
  refine get_bind fun w => ?_
  split
  · exact throw _
  · exact pure _

theorem onState {op : WriteM μ ν α} (h : WriterState.Keeps (fun s => P s.tiles) op) :
    KeepsTiles P (onState op) := by
  intro w hw
  have hop := h w.state hw
  rw [Writer.onState]
  cases hrun : op w.state <;>
  · rw [hrun] at hop
    exact hop

theorem disablingIf {p : Error → Bool} (h : KeepsTiles P m) :
    KeepsTiles P (Writer.disablingIf p m) := by
  intro w hw
  have hm := h w hw
  rw [Writer.disablingIf]
  cases hrun : m w <;>
  · rw [hrun] at hm
    exact hm

theorem useClip (clip : Option ClipPath) :
    KeepsTiles P (Writer.update (·.useClip clip) : WriterM μ ν Unit) :=
  update fun s hs => (s.tiles_useClip clip).symm ▸ hs

/-! ### Recovery -/

variable [MemoryPolicy μ ν]

theorem attempt {op : WriteM μ ν α} (h : WriterState.Keeps (fun s => P s.tiles) op) (n : Nat) :
    KeepsTiles P (attempt op n) := by
  have honce : KeepsTiles P (Writer.disablingIf Error.isIo (Writer.onState op)) :=
    disablingIf (onState h)
  induction n with
  | zero => exact honce
  | succ n ih =>
    intro w hw
    have hw' := honce w hw
    cases hrun : Writer.disablingIf Error.isIo (Writer.onState op) w with
    | ok a w' =>
      rw [hrun] at hw'
      simp only [Writer.attempt, hrun]
      exact hw'
    | error e w' =>
      rw [hrun] at hw'
      have hfreed : P (freeUpAfter e w').2.state.tiles := by
        rw [freeUpAfter]
        split <;> exact hw'
      simp only [Writer.attempt, hrun]
      split
      · exact ih _ hfreed
      · exact hfreed
      · exact hfreed

variable [Medium μ] (hP : TileCache.Lasting P)

include hP

omit [Medium μ] [MemoryPolicy μ ν] in
theorem resetPage : KeepsTiles P (Writer.update (·.resetPage) : WriterM μ ν Unit) :=
  update fun _ hs => hP.reset hs

theorem putPageState :
    KeepsTiles P (critical (Writer.onState WriterState.putPageState) : WriterM μ ν Unit) :=
  disablingIf (onState hP.stable.putPageState)

theorem flushRecovery : KeepsTiles P (flushRecovery : WriterM μ ν Unit) := by
  have hrender : WriterState.Keeps (fun s => P s.tiles)
      (WriterState.renderPartialPage : WriteM μ ν Unit) := by
    refine .bind (hP.stable.onBuffer _) fun _ => .bind .get fun s => .bind ?_ fun _ =>
      hP.stable.onBuffer _
    intro s' hs'
    rw [WriterState.onMemory]
    split <;> exact hs'
  exact (disablingIf (onState hrender)).bind fun _ => (resetPage hP).bind fun _ => putPageState hP

theorem withRecovery {op : WriteM μ ν α} (h : WriterState.Keeps (fun s => P s.tiles) op) :
    KeepsTiles P (withRecovery op) := by
  refine check.bind fun _ => get_bind fun w₀ w hw => ?_
  have hw' := attempt h w₀.state.config.retryBudget w hw
  cases hrun : Writer.attempt op w₀.state.config.retryBudget w with
  | ok a w' =>
    rw [hrun] at hw'
    exact hw'
  | error e w' =>
    rw [hrun] at hw'
    dsimp only
    split
    · exact ((flushRecovery hP).bind fun _ => attempt h _) w' hw'
    · exact hw'
    · exact hw'

/-! ### Requests -/

theorem copyBitmap (c : BitmapCopy) : KeepsTiles P (copyBitmap c : WriterM μ ν Unit) := by
  refine check.bind fun _ => get_bind fun w => ?_
  dsimp only
  split
  · exact forM (fun p => withRecovery hP (hP.stable.copyBand _ _)) _
  · exact pure _

theorem copyTile (tile : Tile) (r : Rect) (colors : ColorPair) (phase : Phase) :
    KeepsTiles P (copyTile tile r colors phase : WriterM μ ν Unit) := by
  refine forM_span (fun rows => forM_span (fun columns => ?_) _ _ _ _) _ _ _ _
  dsimp only
  split
  · exact copyBitmap hP _
  · exact copyBitmap hP _

theorem tilePart (tile : Tile) (band : Nat) (r : Rect) (colors : ColorPair) (phase : Phase) :
    KeepsTiles P (tilePart tile band r colors phase : WriterM μ ν Unit) := by
  rw [tilePart_eq]
  refine tryCatch (withRecovery hP (hP.stable.tileBand band r tile colors phase)) fun e => ?_
  split
  · exact copyTile hP tile r colors phase
  · exact throw e

theorem drawPath (p : PathDrawing) (bands : Option BandRange) (rows : Rect → RowRange) :
    KeepsTiles P (drawPath p bands rows : WriterM μ ν Unit) :=
  get_bind fun _ => forM (fun band => withRecovery hP (hP.stable.pathBand band p _)) _

omit [Medium μ] in
theorem useForPath (ps : ImagerState) (p : PathDrawing) :
    KeepsTiles P (useForPath ps p : WriterM μ ν Unit) :=
  (onState (hP.stable.updateImager ps _)).bind fun _ => useClip p.clip

theorem endImage : KeepsTiles P (endImage : WriterM μ ν Unit) := by
  refine check.bind fun _ => get_bind fun w => ?_
  split
  · refine bind (forM (fun band => withRecovery hP (hP.stable.endImageBand band)) _) fun _ => ?_
    exact update fun _ hs => hs
  · exact throw _

theorem endPage : KeepsTiles P (endPage : WriterM μ ν Unit) := by
  have hclose : KeepsTiles P (critical (Writer.onState (WriterState.onBuffer
      CommandBuffer.closePage)) >>= fun _ => Writer.update (·.resetPage) : WriterM μ ν Unit) :=
    (disablingIf (onState (hP.stable.onBuffer _))).bind fun _ => resetPage hP
  refine check.bind fun _ => get_bind fun w => ?_
  split
  · exact (endImage hP).bind fun _ => hclose
  · exact hclose

theorem fillRectangle (r : Rect) (color : Color) :
    KeepsTiles P (fillRectangle r color : WriterM μ ν Unit) := by
  refine check.bind fun _ => get_bind fun w => ?_
  dsimp only
  split
  · exact forM (fun p => withRecovery hP (hP.stable.fillBand _ _ _)) _
  · exact pure _

theorem tileRectangle (tile : Tile) (r : Rect) (colors : ColorPair) (phase : Phase) :
    KeepsTiles P (tileRectangle tile r colors phase : WriterM μ ν Unit) := by
  refine check.bind fun _ => get_bind fun w => ?_
  dsimp only
  split
  · next part _ =>
    have hparts : KeepsTiles P ((w.state.config.bandParts part).forM fun p =>
        if tile.replicated.size.dataSize ≤ w.state.tiles.maxTileSize then
          Writer.tilePart tile p.1 p.2 colors phase
        else Writer.copyTile tile p.2 colors phase : WriterM μ ν Unit) := by
      refine forM (fun p => ?_) _
      split
      · exact tilePart hP tile p.1 p.2 colors phase
      · exact copyTile hP tile p.2 colors phase
    split
    · exact (throw _).bind fun _ => hparts
    · exact hparts
  · exact pure _

omit [Medium μ] in
theorem beginImage (ps : ImagerState) (header : ImageHeader) (space : ColorSpace)
    (color : DrawingColor) (clip : Option ClipPath) :
    KeepsTiles P (beginImage ps header space color clip : WriterM μ ν Unit) := by
  refine check.bind fun _ => get_bind fun w => ?_
  dsimp only
  split
  · exact throw _
  split
  · exact throw _
  split
  · exact throw _
  · exact throw _
  refine (lift _).bind fun _ => ?_
  cases header.deviceBounds ps.ctm with
  | none => exact throw _
  | some bounds =>
    refine (onState (hP.stable.updateImager ps .image)).bind fun _ => update fun s hs => ?_
    show P ((s.useColorSpace space).useClip clip).tiles
    rw [WriterState.tiles_useClip, WriterState.tiles_useColorSpace]
    exact hs

theorem imageData (planes : List Bitmap) (height : Nat) :
    KeepsTiles P (imageData planes height : WriterM μ ν Unit) := by
  simp only [Writer.imageData]
  refine check.bind fun _ => get_bind fun w => ?_
  split
  · split
    · exact throw _
    · split
      · exact update fun _ hs => hs
      · split
        · exact throw _
        · refine forM_span (fun rows => ?_) _ _ _ _
          refine (lift _).bind fun data => bind (forM (fun band => ?_) _) fun _ => update fun _ hs => hs
          exact withRecovery hP (hP.stable.imageDataBand band _)
  · exact throw _

/-- What is known already is not sent again. -/
theorem sendNew {p : Prop} [Decidable p] {g : WriterState μ ν → WriterState μ ν}
    (batch : List Command) (hg : ∀ s, (g s).tiles = s.tiles) :
    KeepsTiles P (if p then Writer.update g >>= fun _ =>
      Writer.withRecovery (WriterState.putAllBands batch) else Pure.pure () : WriterM μ ν Unit) := by
  split
  · exact (update fun s hs => (hg s).symm ▸ hs).bind fun _ =>
      withRecovery hP (hP.stable.putAllBands batch)
  · exact pure _

theorem flush : KeepsTiles P (flush : WriterM μ ν Unit) :=
  check.bind fun _ => disablingIf (onState (hP.stable.onBuffer _))

theorem beginPage : KeepsTiles P (beginPage : WriterM μ ν Unit) :=
  check.bind fun _ => (onState (hP.stable.onBuffer _)).bind fun _ =>
    (resetPage hP).bind fun _ => putPageState hP

/-- Whatever is asked for, tiles stay as they should be. -/
theorem perform (intent : Intent) : KeepsTiles P (intent.perform : WriterM μ ν Unit) := by
  cases intent with
  | fillRectangle rect color => exact fillRectangle hP rect color
  | tileRectangle tile rect colors phase => exact tileRectangle hP tile rect colors phase
  | copyMono | copyColor => exact copyBitmap hP _
  | copyAlpha bitmap name rect color depth =>
    simp only [Intent.perform, Writer.copyAlpha]
    split
    · exact throw _
    · exact copyBitmap hP _
  | fillMask bitmap name rect color depth clip =>
    simp only [Intent.perform, Writer.fillMask]
    split
    · exact throw _
    · refine (useClip clip).bind fun _ => ?_
      cases color with
      | pure color => exact copyBitmap hP _
      | halftone tile colors phase => exact copyBitmap hP _
      | colored bases levels => exact throw _
  | fillPath ps path rule color clip =>
    simp only [Intent.perform, Writer.fillPath]
    refine check.bind fun _ => ?_
    split
    · exact (useForPath hP ps _).bind fun _ => get_bind fun _ => drawPath hP _ _ _
    · exact pure _
  | strokePath ps path color clip =>
    simp only [Intent.perform, Writer.strokePath]
    refine check.bind fun _ => ?_
    split
    · refine (useForPath hP ps _).bind fun _ => get_bind fun _ => ?_
      split
      · exact drawPath hP _ _ _
      · exact drawPath hP _ _ _
    · exact pure _
  | beginImage ps header space color clip => exact beginImage hP ps header space color clip
  | imageData planes height => exact imageData hP planes height
  | endImage => exact endImage hP
  | setLogicalOp op => exact update fun _ hs => hs
  | setColorSpace space => exact update fun s hs => (s.tiles_useColorSpace space).symm ▸ hs
  | putParams params =>
    exact (withRecovery hP (hP.stable.putAllBands _)).bind fun _ => update fun _ hs => hs
  | setHalftone halftone =>
    refine get_bind fun w => sendNew hP _ fun s => ?_
    rfl
  | setTransferMap index map =>
    simp only [Intent.perform, Writer.setTransferMap]
    split
    · exact throw _
    · cases map with
      | none =>
        refine get_bind fun w => sendNew hP _ fun s => ?_
        rfl
      | some entries =>
        dsimp only
        split
        · exact throw _
        · refine get_bind fun w => sendNew hP _ fun s => ?_
          rfl
  | endPage => exact endPage hP

end Writer.KeepsTiles

end BandedPage
