import Mathlib
import BandedPage.Proofs.Writer.Intent
import BandedPage.Proofs.Writer.Recovery
import BandedPage.Proofs.Writer.ResemblingBands

/-!
# Requests to writers that resemble each other

Writers that resemble each other answer a request in the same way, whatever memory they are refused,
and resemble each other then. An imager state is given to both; no number in it is a negative zero.
-/

namespace BandedPage

namespace Writer

variable {μ ν α : Type} {config : Config} {fields : FieldSet}

/-- The states resemble each other, and both writers were switched off or neither. -/
structure Resembles (config : Config) (fields : FieldSet) (w w' : Writer μ ν) : Prop where
  state : w.state.Resembles config fields w'.state
  disabled : w'.disabled = w.disabled

theorem lockstep_onState {m : WriteM μ ν α} (h : Lockstep (WriterState.Resembles config fields) m) :
    Lockstep (Resembles config fields) (onState m : WriterM μ ν α) := by
  intro w w' hw
  rcases (h w.state w'.state hw.state).cases with ⟨a, t, t', hm, hm', ht⟩ | ⟨e, t, t', hm, hm', ht⟩
  · exact .of_ok (onState_of_ok hm) (onState_of_ok hm') ⟨ht, hw.disabled⟩
  · have hrun : onState m w = .error e { w with state := t } := by simp only [onState, hm]
    have hrun' : onState m w' = .error e { w' with state := t' } := by simp only [onState, hm']
    exact .of_error hrun hrun' ⟨ht, hw.disabled⟩

theorem lockstep_update {f : WriterState μ ν → WriterState μ ν}
    (h : ∀ s s', WriterState.Resembles config fields s s' → WriterState.Resembles config fields (f s) (f s')) :
    Lockstep (Resembles config fields) (update f : WriterM μ ν Unit) :=
  lockstep_onState (.modify h)

theorem lockstep_check : Lockstep (Resembles config fields) (check : WriterM μ ν Unit) := by
  refine .read_of_eq (fun w w' hw => by rw [hw.disabled]) fun w => ?_
  split
  · exact .throw _
  · exact .pure ()

theorem lockstep_disablingIf (p : Error → Bool) {m : WriterM μ ν α}
    (h : Lockstep (Resembles config fields) m) : Lockstep (Resembles config fields) (disablingIf p m) := by
  intro w w' hw
  rcases (h w w' hw).cases with ⟨a, t, t', hm, hm', ht⟩ | ⟨e, t, t', hm, hm', ht⟩
  · exact .of_ok (disablingIf_of_ok hm) (disablingIf_of_ok hm') ht
  · have hrun : disablingIf p m w = .error e { t with disabled := t.disabled || p e } := by
      simp only [disablingIf, hm]
    have hrun' : disablingIf p m w' = .error e { t' with disabled := t'.disabled || p e } := by
      simp only [disablingIf, hm']
    exact .of_error hrun hrun' ⟨ht.state, congrArg (· || p e) ht.disabled⟩

variable [Medium μ] [MemoryPolicy μ ν]

omit [Medium μ] in
theorem lockstep_attempt {op : WriteM μ ν α} (h : Lockstep (WriterState.Resembles config fields) op)
    (n : Nat) : Lockstep (Resembles config fields) (attempt op n : WriterM μ ν α) := by
  have hone := lockstep_disablingIf Error.isIo (lockstep_onState h)
  have hwait : ∀ (e : Error) (w w' : Writer μ ν), w.Resembles config fields w' →
      (freeUpAfter e w').1 = (freeUpAfter e w).1 ∧
        (freeUpAfter e w).2.Resembles config fields (freeUpAfter e w').2 := by
    intro e w w' hw
    simp only [freeUpAfter, hw.state.memory]
    split
    · refine ⟨rfl, { hw with state := { hw.state with
        rest := ?_
        shaped := { hw.state.shaped with } } }⟩
      rw [hw.state.rest]
    · exact ⟨rfl, hw⟩
  induction n with
  | zero => exact hone
  | succ n ih =>
    intro w w' hw
    rcases (hone w w' hw).cases with ⟨a, t, t', hm, hm', ht⟩ | ⟨e, t, t', hm, hm', ht⟩
    · have hrun : attempt op (n + 1) w = .ok a t := by simp only [attempt, hm]
      have hrun' : attempt op (n + 1) w' = .ok a t' := by simp only [attempt, hm']
      exact .of_ok hrun hrun' ht
    · obtain ⟨hfreed, hstate⟩ := hwait e t t' ht
      by_cases hretry : Recovery.after e (freeUpAfter e t).1 = .retry
      · have hrun : attempt op (n + 1) w = attempt op n (freeUpAfter e t).2 := by
          simp only [attempt, hm, hretry]
        have hrun' : attempt op (n + 1) w' = attempt op n (freeUpAfter e t').2 := by
          simp only [attempt, hm', hfreed, hretry]
        exact .of_eq hrun hrun' (ih _ _ hstate)
      · have hrun : ∀ {w t : Writer μ ν}, disablingIf Error.isIo (onState op) w = .error e t →
            Recovery.after e (freeUpAfter e t).1 ≠ .retry →
            attempt op (n + 1) w = .error e (freeUpAfter e t).2 := by
          intro w t hm hne
          simp only [attempt, hm]
          cases hafter : Recovery.after e (freeUpAfter e t).1 with
          | retry => exact absurd hafter hne
          | flushAndRetry => rfl
          | fatal => rfl
        exact .of_error (hrun hm hretry) (hrun hm' (hfreed ▸ hretry)) hstate

omit [Medium μ] [MemoryPolicy μ ν] in
theorem lockstep_resetPage :
    Lockstep (Resembles config fields) (update (·.resetPage) : WriterM μ ν Unit) :=
  lockstep_update fun _ _ hs => hs.resetPage

theorem lockstep_flushRecovery : Lockstep (Resembles config fields) (flushRecovery : WriterM μ ν Unit) :=
  (lockstep_disablingIf _ (lockstep_onState WriterState.lockstep_renderPartialPage)).bind fun _ =>
    lockstep_resetPage.bind fun _ =>
      lockstep_disablingIf _ (lockstep_onState WriterState.lockstep_putPageState)

/-- What is done in spite of a lack of memory is done in both alike. -/
theorem lockstep_withRecovery {op : WriteM μ ν α} (h : Lockstep (WriterState.Resembles config fields) op) :
    Lockstep (Resembles config fields) (withRecovery op : WriterM μ ν α) := by
  intro w w' hw
  cases hdisabled : w.disabled with
  | true =>
    exact .of_error (withRecovery_of_disabled op hdisabled)
      (withRecovery_of_disabled op (hw.disabled.trans hdisabled)) hw
  | false =>
    refine .of_eq (withRecovery_eq_tryCatch op hdisabled)
      (withRecovery_eq_tryCatch op (hw.disabled.trans hdisabled)) ?_
    rw [hw.state.config_eq]
    refine Lockstep.handle (lockstep_attempt h _) (fun e => ?_) w w' hw
    split
    · exact lockstep_flushRecovery.bind fun _ => lockstep_attempt h _
    · exact .throw e

/-! ### Rectangles -/

theorem lockstep_fillRectangle (r : Rect) (color : Color) :
    Lockstep (Resembles config fields) (fillRectangle r color : WriterM μ ν Unit) := by
  refine lockstep_check.bind fun _ =>
    .read_of_eq (fun w w' hw => by simp only [hw.state.config_eq]) fun w => ?_
  dsimp only
  cases r.intersect w.state.config.pageRect with
  | none => exact .pure ()
  | some r => exact .forM fun _ _ => lockstep_withRecovery (WriterState.lockstep_fillBand _ _ _)

theorem lockstep_copyBitmap (c : BitmapCopy) :
    Lockstep (Resembles config fields) (copyBitmap c : WriterM μ ν Unit) := by
  refine lockstep_check.bind fun _ =>
    .read_of_eq (fun w w' hw => by simp only [hw.state.config_eq]) fun w => ?_
  dsimp only
  cases c.rect.intersect w.state.config.pageRect with
  | none => exact .pure ()
  | some r => exact .forM fun _ _ => lockstep_withRecovery (WriterState.lockstep_copyBand _ _)

theorem lockstep_copyTile (tile : Tile) (r : Rect) (colors : ColorPair) (phase : Phase) :
    Lockstep (Resembles config fields) (copyTile tile r colors phase : WriterM μ ν Unit) := by
  refine .spanForM _ _ _ _ fun rows => .spanForM _ _ _ _ fun columns => ?_
  dsimp only
  split
  · exact lockstep_copyBitmap _
  · exact lockstep_copyBitmap _

theorem lockstep_tilePart (tile : Tile) (band : Nat) (r : Rect) (colors : ColorPair) (phase : Phase) :
    Lockstep (Resembles config fields) (tilePart tile band r colors phase : WriterM μ ν Unit) := by
  rw [tilePart_eq]
  refine .handle (lockstep_withRecovery (WriterState.lockstep_tileBand _ _ _ _ _)) fun e => ?_
  split
  · exact lockstep_copyTile tile r colors phase
  · exact .throw _

theorem lockstep_tileRectangle (tile : Tile) (r : Rect) (colors : ColorPair) (phase : Phase) :
    Lockstep (Resembles config fields) (tileRectangle tile r colors phase : WriterM μ ν Unit) := by
  refine lockstep_check.bind fun _ => .read_of_eq
    (fun w w' hw => by simp only [hw.state.config_eq, hw.state.tiles.maxTileSize]) fun w => ?_
  dsimp only
  cases r.intersect w.state.config.pageRect with
  | none => exact .pure ()
  | some r =>
    dsimp only
    split
    · exact .throw _
    · refine .forM fun (band, part) _ => ?_
      dsimp only
      split
      · exact lockstep_tilePart tile band part colors phase
      · exact lockstep_copyTile tile part colors phase

theorem lockstep_copyAlpha (bitmap : Bitmap) (name : Option BitmapId) (r : Rect) (color : Color)
    (depth : Nat) :
    Lockstep (Resembles config fields) (copyAlpha bitmap name r color depth : WriterM μ ν Unit) := by
  simp only [copyAlpha]
  split
  · exact .throw _
  · exact lockstep_copyBitmap _

omit [Medium μ] [MemoryPolicy μ ν] in
theorem lockstep_useClip (clip : Option ClipPath) :
    Lockstep (Resembles config fields) (update (·.useClip clip) : WriterM μ ν Unit) :=
  lockstep_update fun _ _ hs => hs.useClip clip

theorem lockstep_fillMask (bitmap : Bitmap) (name : Option BitmapId) (r : Rect) (color : DrawingColor)
    (depth : Nat) (clip : Option ClipPath) :
    Lockstep (Resembles config fields) (fillMask bitmap name r color depth clip : WriterM μ ν Unit) := by
  simp only [fillMask]
  split
  · exact .throw _
  · refine (lockstep_useClip clip).bind fun _ => ?_
    cases color with
    | pure color => exact lockstep_copyBitmap _
    | halftone tile colors phase => exact lockstep_copyBitmap _
    | colored bases levels => exact .throw _

/-! ### Paths -/

theorem lockstep_drawPath {p : PathDrawing}
    (hrequired : ∀ f, p.use.required.contains f = true → fields.contains f = true)
    (bands : Option BandRange) (rows : Rect → RowRange) :
    Lockstep (Resembles config fields) (drawPath p bands rows : WriterM μ ν Unit) :=
  .read_of_eq (fun w w' hw => by rw [hw.state.config_eq]) fun _ => .forM fun _ _ =>
    lockstep_withRecovery (WriterState.lockstep_pathBand _ _ hrequired)

omit [Medium μ] [MemoryPolicy μ ν] in
/-- What a path requires is current in both before it is drawn. -/
theorem lockstep_useForPath_bind {ps : ImagerState} (hps : ps.Plain) (p : PathDrawing)
    (hspace : p.use.required.contains .colorSpace = false) {f : Unit → WriterM μ ν α} (hf : Lockstep (Resembles config p.use.required) (f ())) :
    Lockstep (Resembles config ∅) (useForPath ps p >>= f) := by
  have hweaken : ∀ {more : FieldSet} {w w' : Writer μ ν}, w.Resembles config more w' →
      w.Resembles config ∅ w' := fun hw => ⟨hw.state.forget_all, hw.disabled⟩
  intro w w' hw
  rcases hw.state.updateImager hps p.use.required with
    ⟨t, t', hrun, hrun', ht⟩ | ⟨e, t, t', hrun, hrun', ht⟩
  · have ht₁ : Resembles config p.use.required (⟨t.useClip p.clip, w.disabled⟩ : Writer μ ν)
        ⟨t'.useClip p.clip, w'.disabled⟩ := by
      refine ⟨(ht.mono fun f hf => hf.imp_left fun hf => ?_).useClip p.clip, hw.disabled⟩
      have hne : StateField.colorSpace ≠ f := fun heq => by simp [← heq, hspace] at hf
      simp [hf, hne]
    have huse : useForPath ps p w = .ok () ⟨t.useClip p.clip, w.disabled⟩ :=
      bind_of_ok (onState_of_ok hrun) _
    have huse' : useForPath ps p w' = .ok () ⟨t'.useClip p.clip, w'.disabled⟩ :=
      bind_of_ok (onState_of_ok hrun') _
    exact .of_eq (bind_of_ok huse f) (bind_of_ok huse' f) (InStep.mono (hf _ _ ht₁) fun _ _ => hweaken)
  · have huse : ∀ {w t : Writer μ ν}, WriterState.updateImager ps p.use.required w.state =
        .error e t.state → t.disabled = w.disabled → useForPath ps p w = .error e t := by
      intro w t hrun ht
      refine bind_of_error ?_ _
      simp only [onState, hrun, ← ht]
    exact .of_error (bind_of_error (huse (t := ⟨t, w.disabled⟩) hrun rfl) f)
      (bind_of_error (huse (t := ⟨t', w'.disabled⟩) hrun' rfl) f) ⟨ht.forget_all, hw.disabled⟩

theorem lockstep_fillPath {ps : ImagerState} (hps : ps.Plain) (path : Path) (rule : FillRule)
    (color : DrawingColor) (clip : Option ClipPath) :
    Lockstep (Resembles config ∅) (fillPath ps path rule color clip : WriterM μ ν Unit) := by
  refine lockstep_check.bind fun _ => ?_
  cases path.rowSpan with
  | none => exact .pure ()
  | some span =>
    obtain ⟨y, height⟩ := span
    refine lockstep_useForPath_bind hps _ (show PathUse.fill.required.contains _ = _ by decide) ?_
    exact .read_of_eq (fun w w' hw => by rw [hw.state.config_eq]) fun w =>
      lockstep_drawPath (fun _ hf => hf) _ _

theorem lockstep_strokePath {ps : ImagerState} (hps : ps.Plain) (path : Path) (color : DrawingColor)
    (clip : Option ClipPath) :
    Lockstep (Resembles config ∅) (strokePath ps path color clip : WriterM μ ν Unit) := by
  refine lockstep_check.bind fun _ => ?_
  cases path.rowSpan with
  | none => exact .pure ()
  | some span =>
    obtain ⟨y, height⟩ := span
    refine lockstep_useForPath_bind hps _ (show PathUse.stroke.required.contains _ = _ by decide) ?_
    refine .read_of_eq (fun w w' hw => by rw [hw.state.config_eq]) fun w => ?_
    cases ps.strokeReach with
    | none => exact lockstep_drawPath (fun _ hf => hf) _ _
    | some reach => exact lockstep_drawPath (fun _ hf => hf) _ _

/-! ### Images -/

omit [Medium μ] [MemoryPolicy μ ν] in
theorem lockstep_beginImage {ps : ImagerState} (hps : ps.Plain) (header : ImageHeader)
    (space : ColorSpace) (color : DrawingColor) (clip : Option ClipPath) :
    Lockstep (Resembles config ∅) (beginImage ps header space color clip : WriterM μ ν Unit) := by
  refine lockstep_check.bind fun _ => .read_of_eq
    (fun w w' hw => by simp only [hw.state.config_eq, hw.state.image_eq]) fun w => ?_
  dsimp only
  split
  · exact .throw _
  split
  · exact .throw _
  split
  · exact .throw _
  · exact .throw _
  refine .bind (.lift _) fun _ => ?_
  cases header.deviceBounds ps.ctm with
  | none => exact .throw _
  | some bounds =>
    refine .bind (lockstep_onState fun s s' hs => hs.updateImager_inStep hps .image) fun _ => ?_
    refine lockstep_update fun s s' hs => ?_
    have hcurrent := (hs.useColorSpace space).useClip clip
    refine (hcurrent.withImage (by rw [hcurrent.config_eq]) fun im him => ?_).forget_all
    cases him
    exact hps

theorem lockstep_endImage : Lockstep (Resembles config fields) (endImage : WriterM μ ν Unit) := by
  refine lockstep_check.bind fun _ =>
    .read_of_eq (fun w w' hw => by simp only [hw.state.image_eq]) fun w => ?_
  cases w.state.image with
  | none => exact .throw _
  | some im =>
    refine .bind (.forM fun band _ =>
      lockstep_withRecovery (WriterState.lockstep_endImageBand band)) fun _ => ?_
    exact lockstep_update fun s s' hs => hs.withImage rfl fun im him => by cases him

omit [Medium μ] [MemoryPolicy μ ν] in
theorem lockstep_advanceImage (rows : Nat) :
    Lockstep (Resembles config fields) (update (·.advanceImage rows) : WriterM μ ν Unit) := by
  refine lockstep_update fun s s' hs => ?_
  refine hs.withImage (by rw [hs.image_eq]) fun im him => ?_
  obtain ⟨im', him', rfl⟩ := Option.mem_map.mp him
  exact hs.image im' him'

theorem lockstep_imageData (planes : List Bitmap) (height : Nat) :
    Lockstep (Resembles config fields) (imageData planes height : WriterM μ ν Unit) := by
  refine lockstep_check.bind fun _ => .read_of_eq
    (fun w w' hw => by simp only [hw.state.config_eq, hw.state.image_eq]) fun w => ?_
  dsimp only
  cases w.state.image with
  | none => exact .throw _
  | some im =>
    dsimp only
    split
    · exact .throw _
    cases im.bands with
    | none => exact lockstep_advanceImage height
    | some bands =>
      dsimp only
      split
      · exact .throw _
      refine .spanForM _ _ _ _ fun rows => .bind (.lift _) fun data => ?_
      refine .bind (.forM fun band _ =>
        lockstep_withRecovery (WriterState.lockstep_imageDataBand band _)) fun _ => ?_
      exact lockstep_advanceImage _

/-! ### The page as a whole -/

theorem lockstep_putParams (params : List UInt8) :
    Lockstep (Resembles config fields) (putParams params : WriterM μ ν Unit) := by
  refine .bind (lockstep_withRecovery (WriterState.lockstep_putAllBands _)) fun _ => ?_
  exact lockstep_update fun s s' hs => hs.withParams (some params)

theorem lockstep_setHalftone (halftone : Halftone) :
    Lockstep (Resembles config fields) (setHalftone halftone : WriterM μ ν Unit) := by
  refine .read_of_eq (fun w w' hw => by rw [hw.state.halftone]) fun w => ?_
  split
  · refine .bind (lockstep_update fun s s' hs => hs.withHalftone (some halftone)) fun _ => ?_
    exact lockstep_withRecovery (WriterState.lockstep_putAllBands _)
  · exact .pure ()

theorem lockstep_setTransferMap (index : Nat) (map : TransferMap) :
    Lockstep (Resembles config fields) (setTransferMap index map : WriterM μ ν Unit) := by
  have hsend : (∀ entries, map = some entries → entries.length = transferMapSize) →
      Lockstep (Resembles config fields)
        (get >>= fun w : Writer μ ν =>
          if w.state.transfers[index]?.join ≠ some map then do
            update fun s => { s with transfers := s.transfers.setIfInBounds index (some map) }
            withRecovery (WriterState.putTransfer index map)
          else pure ()) := by
    intro hmap
    refine .read_of_eq (fun w w' hw => by rw [hw.state.transfers]) fun w => ?_
    split
    · refine .bind (lockstep_update fun s s' hs => hs.withTransfer index hmap) fun _ => ?_
      exact lockstep_withRecovery (WriterState.lockstep_putAllBands _)
    · exact .pure ()
  simp only [setTransferMap]
  split
  · exact .throw _
  cases map with
  | none => exact hsend fun entries h => by cases h
  | some entries =>
    dsimp only
    split
    · exact .throw _
    · next hlength =>
      refine hsend fun entries' h => ?_
      cases h
      exact not_not.mp hlength

omit [Medium μ] [MemoryPolicy μ ν] in
theorem lockstep_setLogicalOp (op : LogicalOp) :
    Lockstep (Resembles config fields) (setLogicalOp op : WriterM μ ν Unit) :=
  lockstep_update fun _ _ hs => hs.setLogicalOp op

omit [Medium μ] [MemoryPolicy μ ν] in
theorem lockstep_setColorSpace (space : ColorSpace) :
    Lockstep (Resembles config ∅) (setColorSpace space : WriterM μ ν Unit) :=
  lockstep_update fun _ _ hs => (hs.useColorSpace space).forget_all

omit [MemoryPolicy μ ν] in
/-- What is held is stored, and the page closed. -/
theorem lockstep_closePage :
    Lockstep (Resembles config fields)
      (critical (onState (WriterState.onBuffer CommandBuffer.closePage)) : WriterM μ ν Unit) :=
  lockstep_disablingIf _ (lockstep_onState (WriterState.lockstep_onBuffer CommandBuffer.matched_closePage))

theorem lockstep_endPage : Lockstep (Resembles config fields) (endPage : WriterM μ ν Unit) := by
  have hclose : Lockstep (Resembles config fields)
      (critical (onState (WriterState.onBuffer CommandBuffer.closePage)) >>= fun _ =>
        update (·.resetPage) : WriterM μ ν Unit) :=
    lockstep_closePage.bind fun _ => lockstep_resetPage
  refine lockstep_check.bind fun _ =>
    .read_of_eq (fun w w' hw => by simp only [hw.state.image_eq]) fun w => ?_
  split
  · exact lockstep_endImage.bind fun _ => hclose
  · exact hclose

theorem lockstep_beginPage : Lockstep (Resembles config fields) (beginPage : WriterM μ ν Unit) := by
  refine lockstep_check.bind fun _ => .bind (lockstep_onState
    (WriterState.lockstep_onBuffer (CommandBuffer.matched_onStore _))) fun _ => lockstep_resetPage.bind fun _ => ?_
  exact lockstep_disablingIf _ (lockstep_onState WriterState.lockstep_putPageState)

end Writer

namespace Intent

variable {μ ν : Type} {config : Config}

/-- No number of an imager state that is given is a negative zero. -/
def Plain : Intent → Prop
  | fillPath ps _ _ _ _ => ps.Plain
  | strokePath ps _ _ _ => ps.Plain
  | beginImage ps _ _ _ _ => ps.Plain
  | _ => True

variable [Medium μ] [MemoryPolicy μ ν]

theorem lockstep_perform {intent : Intent} (h : intent.Plain) :
    Lockstep (Writer.Resembles config ∅) (intent.perform : WriterM μ ν Unit) := by
  cases intent with
  | fillRectangle rect color => exact Writer.lockstep_fillRectangle rect color
  | tileRectangle tile rect colors phase => exact Writer.lockstep_tileRectangle tile rect colors phase
  | copyMono bitmap name rect colors => exact Writer.lockstep_copyBitmap _
  | copyColor bitmap name rect => exact Writer.lockstep_copyBitmap _
  | copyAlpha bitmap name rect color depth =>
    exact Writer.lockstep_copyAlpha bitmap name rect color depth
  | fillMask bitmap name rect color depth clip =>
    exact Writer.lockstep_fillMask bitmap name rect color depth clip
  | fillPath ps path rule color clip => exact Writer.lockstep_fillPath h path rule color clip
  | strokePath ps path color clip => exact Writer.lockstep_strokePath h path color clip
  | beginImage ps header space color clip =>
    exact Writer.lockstep_beginImage h header space color clip
  | imageData planes height => exact Writer.lockstep_imageData planes height
  | endImage => exact Writer.lockstep_endImage
  | setLogicalOp op => exact Writer.lockstep_setLogicalOp op
  | setColorSpace space => exact Writer.lockstep_setColorSpace space
  | putParams params => exact Writer.lockstep_putParams params
  | setHalftone halftone => exact Writer.lockstep_setHalftone halftone
  | setTransferMap index map => exact Writer.lockstep_setTransferMap index map
  | endPage => exact Writer.lockstep_endPage

/-- Intents are answered alike, one after the other. -/
theorem serveAll_of_resembles {intents : List Intent} (h : ∀ intent ∈ intents, intent.Plain)
    {w w' : Writer μ ν} (hw : w.Resembles config ∅ w') :
    (serveAll intents w').1 = (serveAll intents w).1 ∧
      (serveAll intents w).2.Resembles config ∅ (serveAll intents w').2 := by
  induction intents generalizing w w' with
  | nil => exact ⟨rfl, hw⟩
  | cons intent intents ih =>
    have hone : (intent.serve w').1 = (intent.serve w).1 ∧
        (intent.serve w).2.Resembles config ∅ (intent.serve w').2 := by
      rcases (lockstep_perform (h intent List.mem_cons_self) w w' hw).cases with
        ⟨a, t, t', hrun, hrun', ht⟩ | ⟨e, t, t', hrun, hrun', ht⟩
      · rw [serve, serve, hrun, hrun']
        exact ⟨rfl, ht⟩
      · rw [serve, serve, hrun, hrun']
        exact ⟨rfl, ht⟩
    obtain ⟨hanswers, hrest⟩ := ih (fun i hi => h i (List.mem_cons_of_mem intent hi)) hone.2
    simp only [serveAll]
    exact ⟨by rw [hone.1, hanswers], hrest⟩

end Intent

end BandedPage
