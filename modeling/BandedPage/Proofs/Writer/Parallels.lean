import Mathlib
import BandedPage.Proofs.Config
import BandedPage.Proofs.Store.Content
import BandedPage.Proofs.Writer.Intent
import BandedPage.Proofs.Writer.Retrying
import BandedPage.Store.Feed
import BandedPage.Writer.Rationed

/-!
# Every intent has its parallel

What an intent does, and what it answers, is what it would do and answer without a limit on memory,
unless it has a partial page rendered.
-/

namespace BandedPage

namespace Writer

variable {μ ν : Type} [Medium μ] [LawfulMedium μ] [MemoryPolicy μ ν] {config : Config}

/-- A band operation that resumes from every state keeps its parallel. -/
theorem parallels_recovered (hlack : MemoryPolicy.RefusesForLack μ ν)
    {op : WriteM μ (Watched μ ν) Unit} {op' : WriteM μ Unlimited Unit}
    (h : WriterState.Resumes op op') : Parallels config (withRecovery op) (withRecovery op') :=
  parallels_withRecovery hlack h (fun _ _ _ _ _ => trivial) fun _ _ => trivial

theorem parallels_fillRectangle (hlack : MemoryPolicy.RefusesForLack μ ν) (rect : Rect)
    (color : Color) :
    Parallels config (fillRectangle rect color : WriterM μ (Watched μ ν) Unit)
      (fillRectangle rect color) := by
  refine Parallels.check.bind fun _ => .read fun w _ => ?_
  have hconfig : w.unlimited.state.config = w.state.config := rfl
  simp only [hconfig]
  cases rect.intersect w.state.config.pageRect with
  | none => exact .pure ()
  | some r =>
    exact .forM fun _ _ => parallels_recovered hlack (WriterState.resumes_fillBand hlack _ _ _)

theorem parallels_copyBitmap (hlack : MemoryPolicy.RefusesForLack μ ν) {c : BitmapCopy}
    (hc : c.IsPlain) :
    Parallels config (copyBitmap c : WriterM μ (Watched μ ν) Unit) (copyBitmap c) := by
  refine Parallels.check.bind fun _ => .read fun w _ => ?_
  have hconfig : w.unlimited.state.config = w.state.config := rfl
  simp only [hconfig]
  cases c.rect.intersect w.state.config.pageRect with
  | none => exact .pure ()
  | some r =>
    refine .forM fun (band, part) _ => ?_
    refine parallels_recovered hlack (WriterState.resumes_copyBand hlack band ?_)
    refine hc.imp (fun hname => ?_) id
    simp only [BitmapCopy.restrict, hname, ite_self]

theorem parallels_copyTile (hlack : MemoryPolicy.RefusesForLack μ ν) (tile : Tile) (rect : Rect)
    (colors : ColorPair) (phase : Phase) :
    Parallels config (copyTile tile rect colors phase : WriterM μ (Watched μ ν) Unit)
      (copyTile tile rect colors phase) := by
  refine .spanForM _ _ _ _ fun rows => .spanForM _ _ _ _ fun columns => ?_
  dsimp only
  split
  · exact parallels_copyBitmap hlack (.inl rfl)
  · exact parallels_copyBitmap hlack (.inl rfl)

theorem parallels_tilePart (hlack : MemoryPolicy.RefusesForLack μ ν) (tile : Tile) (band : Nat)
    (rect : Rect) (colors : ColorPair) (phase : Phase) :
    Parallels config (tilePart tile band rect colors phase : WriterM μ (Watched μ ν) Unit)
      (tilePart tile band rect colors phase) := by
  rw [tilePart_eq, tilePart_eq]
  refine .handle (parallels_recovered hlack (WriterState.resumes_tileBand hlack band rect tile colors
    phase)) fun e => ?_
  split
  · exact parallels_copyTile hlack tile rect colors phase
  · exact .throw _

theorem parallels_tileRectangle (hlack : MemoryPolicy.RefusesForLack μ ν) (tile : Tile) (rect : Rect)
    (colors : ColorPair) (phase : Phase) :
    Parallels config (tileRectangle tile rect colors phase : WriterM μ (Watched μ ν) Unit)
      (tileRectangle tile rect colors phase) := by
  refine Parallels.check.bind fun _ => .read fun w _ => ?_
  have hconfig : w.unlimited.state.config = w.state.config := rfl
  have htiles : w.unlimited.state.tiles = w.state.tiles := rfl
  simp only [hconfig, htiles]
  cases rect.intersect w.state.config.pageRect with
  | none => exact .pure ()
  | some r =>
    dsimp only
    split
    · exact .throw _
    · refine .forM fun (band, part) _ => ?_
      dsimp only
      split
      · exact parallels_tilePart hlack tile band part colors phase
      · exact parallels_copyTile hlack tile part colors phase

theorem parallels_copyAlpha (hlack : MemoryPolicy.RefusesForLack μ ν) (bitmap : Bitmap)
    (name : Option BitmapId) (rect : Rect) (color : Color) (depth : Nat) :
    Parallels config (copyAlpha bitmap name rect color depth : WriterM μ (Watched μ ν) Unit)
      (copyAlpha bitmap name rect color depth) := by
  simp only [copyAlpha]
  split
  · exact .throw _
  · exact parallels_copyBitmap hlack (.inr fun _ _ _ h => by cases h)

omit [Medium μ] [LawfulMedium μ] [MemoryPolicy μ ν] in
theorem useClip_eq (s : WriterState μ ν) (clip : Option ClipPath) :
    ∃ bands clipId, s.useClip clip = { s with bands, clipId } ∧
      s.unlimited.useClip clip = { s.unlimited with bands, clipId } := by
  cases clip with
  | none => exact ⟨s.bands, s.clipId, rfl, rfl⟩
  | some clip =>
    by_cases h : s.clipId = some clip.id
    · have h' : s.unlimited.clipId = some clip.id := h
      refine ⟨s.bands, s.clipId, ?_⟩
      rw [WriterState.useClip, WriterState.useClip, if_pos h, if_pos h']
      exact ⟨rfl, rfl⟩
    · have h' : ¬ s.unlimited.clipId = some clip.id := h
      rw [WriterState.useClip, WriterState.useClip, if_neg h, if_neg h']
      exact ⟨_, _, rfl, rfl⟩

omit [MemoryPolicy μ ν] in
/-- A clip becomes current in the same way however memory is got. -/
theorem parallels_useClip (clip : Option ClipPath) :
    Parallels config (update (·.useClip clip) : WriterM μ (Watched μ ν) Unit)
      (update (·.useClip clip)) := by
  refine .update fun s hs => ?_
  obtain ⟨bands, clipId, hclip, hclip'⟩ := useClip_eq s clip
  rw [hclip, hclip']
  exact ⟨.of_eq hs rfl rfl rfl rfl, rfl⟩

theorem parallels_fillMask (hlack : MemoryPolicy.RefusesForLack μ ν) (bitmap : Bitmap)
    (name : Option BitmapId) (rect : Rect) (color : DrawingColor) (depth : Nat)
    (clip : Option ClipPath) :
    Parallels config (fillMask bitmap name rect color depth clip : WriterM μ (Watched μ ν) Unit)
      (fillMask bitmap name rect color depth clip) := by
  simp only [fillMask]
  split
  · exact .throw _
  · refine (parallels_useClip clip).bind fun _ => ?_
    cases color with
    | pure color => exact parallels_copyBitmap hlack (.inr fun _ _ _ h => by cases h)
    | halftone tile colors phase => exact parallels_copyBitmap hlack (.inl rfl)
    | colored bases levels => exact .throw _

omit [MemoryPolicy μ ν] in
theorem parallels_updateImager (ps : ImagerState) (selected : FieldSet) :
    Parallels config (onState (WriterState.updateImager ps selected) : WriterM μ (Watched μ ν) Unit)
      (onState (WriterState.updateImager ps selected)) := by
  refine .onState fun s hs => ?_
  rcases WriterState.updateImager_cases (μ := μ) ps selected s.imager with
    ⟨changed, imager, hupdate⟩ | ⟨e, imager, -, hupdate⟩
  · rw [hupdate s rfl, hupdate s.unlimited rfl]
    exact ⟨.of_eq hs rfl rfl rfl rfl, rfl⟩
  · rw [hupdate s rfl, hupdate s.unlimited rfl]
    exact ⟨.of_eq hs rfl rfl rfl rfl, rfl⟩

omit [MemoryPolicy μ ν] in
theorem parallels_useForPath (ps : ImagerState) (p : PathDrawing) :
    Parallels config (useForPath ps p : WriterM μ (Watched μ ν) Unit) (useForPath ps p) :=
  (parallels_updateImager ps _).bind fun _ => parallels_useClip p.clip

theorem parallels_drawPath (hlack : MemoryPolicy.RefusesForLack μ ν) (p : PathDrawing)
    (bands : Option BandRange) (rows : Rect → RowRange) :
    Parallels config (drawPath p bands rows : WriterM μ (Watched μ ν) Unit)
      (drawPath p bands rows) :=
  .read fun _ _ => .forM fun band _ =>
    parallels_recovered hlack (WriterState.resumes_pathBand hlack band p _)

theorem parallels_fillPath (hlack : MemoryPolicy.RefusesForLack μ ν) (ps : ImagerState) (path : Path)
    (rule : FillRule) (color : DrawingColor) (clip : Option ClipPath) :
    Parallels config (fillPath ps path rule color clip : WriterM μ (Watched μ ν) Unit)
      (fillPath ps path rule color clip) := by
  refine Parallels.check.bind fun _ => ?_
  cases path.rowSpan with
  | none => exact .pure ()
  | some span =>
    obtain ⟨y, height⟩ := span
    exact (parallels_useForPath ps _).bind fun _ => .read fun w _ => parallels_drawPath hlack _ _ _

theorem parallels_strokePath (hlack : MemoryPolicy.RefusesForLack μ ν) (ps : ImagerState)
    (path : Path) (color : DrawingColor) (clip : Option ClipPath) :
    Parallels config (strokePath ps path color clip : WriterM μ (Watched μ ν) Unit)
      (strokePath ps path color clip) := by
  refine Parallels.check.bind fun _ => ?_
  cases path.rowSpan with
  | none => exact .pure ()
  | some span =>
    obtain ⟨y, height⟩ := span
    refine (parallels_useForPath ps _).bind fun _ => .read fun w _ => ?_
    cases ps.strokeReach with
    | none => exact parallels_drawPath hlack _ _ _
    | some reach => exact parallels_drawPath hlack _ _ _

omit [MemoryPolicy μ ν] in
theorem parallels_beginImage (hvalid : config.Valid) (ps : ImagerState) (header : ImageHeader)
    (space : ColorSpace) (color : DrawingColor) (clip : Option ClipPath) :
    Parallels config (beginImage ps header space color clip : WriterM μ (Watched μ ν) Unit)
      (beginImage ps header space color clip) := by
  refine Parallels.check.bind fun _ => .read fun w hw => ?_
  have hconfig : w.unlimited.state.config = config := hw.config_eq
  have himage : w.unlimited.state.image = w.state.image := rfl
  simp only [hconfig, hw.config_eq, himage]
  split
  · exact .throw _
  split
  · exact .throw _
  split
  · exact .throw _
  · exact .throw _
  refine .bind (.lift _) fun bytes => ?_
  cases header.deviceBounds ps.ctm with
  | none => exact .throw _
  | some bounds =>
    dsimp only
    refine .bind ?_ fun _ => ?_
    · exact parallels_updateImager ps .image
    refine .updateImage (fun s => ?_) fun s hs im him => ?_
    · obtain ⟨bands, hspace, hspace'⟩ := WriterState.useColorSpace_eq s space
      obtain ⟨bands', clipId, hclip, hclip'⟩ := useClip_eq { s with colorSpace := space, bands } clip
      have hboth : (s.useColorSpace space).useClip clip =
          { s with colorSpace := space, bands := bands', clipId } := by
        rw [hspace, hclip]
      have hboth' : (s.unlimited.useColorSpace space).useClip clip =
          { s.unlimited with colorSpace := space, bands := bands', clipId } := by
        rw [hspace']
        exact hclip'
      simp only [hboth, hboth']
      exact ⟨trivial, trivial, trivial, rfl⟩
    · have hkeep : ((s.useColorSpace space).useClip clip).config = config := by
        obtain ⟨bands, hspace, -⟩ := WriterState.useColorSpace_eq s space
        obtain ⟨bands', clipId, hclip, -⟩ :=
          useClip_eq { s with colorSpace := space, bands } clip
        rw [hspace, hclip]
        exact hs
      simp only [WriterState.imageBands, hkeep, Option.map_some, Option.mem_def,
        Option.some.injEq] at him
      subst him
      refine ⟨?_, fun bands hbands => ?_⟩
      · simp only [BandSet.empty]
        omega
      · obtain ⟨r, -, hr⟩ := Option.bind_eq_some_iff.mp hbands
        exact (hvalid.bandsFor_lt hr).2

theorem parallels_endImage (hlack : MemoryPolicy.RefusesForLack μ ν) :
    Parallels config (endImage : WriterM μ (Watched μ ν) Unit) endImage := by
  refine Parallels.check.bind fun _ => .read fun w hw => ?_
  have himage : w.unlimited.state.image = w.state.image := rfl
  simp only [himage]
  cases w.state.image with
  | none => exact .throw _
  | some im =>
    refine .bind (.forM fun band _ =>
      parallels_recovered hlack (WriterState.resumes_endImageBand hlack band)) fun _ => ?_
    exact .updateImage (fun s => ⟨rfl, rfl, rfl, rfl⟩) fun s _ im h => by cases h

omit [MemoryPolicy μ ν] in
/-- Rows of an image are counted in the same way however memory is got. -/
theorem parallels_advanceImage (rows : Nat) :
    Parallels config (update (·.advanceImage rows) : WriterM μ (Watched μ ν) Unit)
      (update (·.advanceImage rows)) := by
  refine .update fun s hs => ⟨.of_eq hs rfl rfl rfl ?_, rfl⟩
  rw [WriterState.imageBands, WriterState.imageBands, WriterState.advanceImage, Option.map_map]
  rfl

theorem parallels_imageDataBand (hlack : MemoryPolicy.RefusesForLack μ ν) {band : Nat}
    (hband : band < config.nbands) (rows : Command) :
    Parallels config
      (withRecovery (WriterState.imageDataBand band rows) : WriterM μ (Watched μ ν) Unit)
      (withRecovery (WriterState.imageDataBand band rows)) := by
  refine parallels_withRecovery hlack (WriterState.resumes_imageDataBand hlack band rows) ?_ ?_
  · intro s s' _ himage hroom
    rw [WriterState.hasRoom_iff] at hroom ⊢
    rwa [himage]
  · intro w hw
    rw [WriterState.hasRoom_iff]
    intro im him
    have hcapacity := (hw.image im him).1
    omega

theorem parallels_imageData (hlack : MemoryPolicy.RefusesForLack μ ν) (planes : List Bitmap)
    (height : Nat) :
    Parallels config (imageData planes height : WriterM μ (Watched μ ν) Unit)
      (imageData planes height) := by
  refine Parallels.check.bind fun _ => .read fun w hw => ?_
  have hconfig : w.unlimited.state.config = w.state.config := rfl
  have himage : w.unlimited.state.image = w.state.image := rfl
  simp only [hconfig, himage]
  cases him : w.state.image with
  | none => exact .throw _
  | some im =>
    dsimp only
    split
    · exact .throw _
    cases hbands : im.bands with
    | none => exact parallels_advanceImage height
    | some bands =>
      dsimp only
      split
      · exact .throw _
      refine .spanForM _ _ _ _ fun rows => ?_
      refine .bind (.lift _) fun data => .bind (.forM fun band hband => ?_) fun _ => ?_
      · have him' : (some bands, im.started.capacity) ∈ w.state.imageBands := by
          simp [WriterState.imageBands, him, hbands]
        have hmax := (hw.image _ him').2 bands rfl
        rw [BandRange.mem_toList, BandRange.contains, Bool.and_eq_true, decide_eq_true_eq,
          decide_eq_true_eq] at hband
        exact parallels_imageDataBand hlack (by omega) _
      · exact parallels_advanceImage _

theorem parallels_putParams (hlack : MemoryPolicy.RefusesForLack μ ν) (params : List UInt8) :
    Parallels config (putParams params : WriterM μ (Watched μ ν) Unit) (putParams params) := by
  refine .bind ?_ fun _ => ?_
  · exact parallels_recovered hlack (WriterState.atomic_putAllBands hlack _).resumes
  · exact .update fun s hs => ⟨.of_eq hs rfl rfl rfl rfl, rfl⟩

theorem parallels_setHalftone (hlack : MemoryPolicy.RefusesForLack μ ν) (halftone : Halftone) :
    Parallels config (setHalftone halftone : WriterM μ (Watched μ ν) Unit) (setHalftone halftone) := by
  refine .read fun w _ => ?_
  have hhalftone : w.unlimited.state.halftone = w.state.halftone := rfl
  simp only [hhalftone]
  split
  · refine .bind ?_ fun _ => ?_
    · exact .update fun s hs => ⟨.of_eq hs rfl rfl rfl rfl, rfl⟩
    · exact parallels_recovered hlack (WriterState.atomic_putAllBands hlack _).resumes
  · exact .pure ()

theorem parallels_setTransferMap (hlack : MemoryPolicy.RefusesForLack μ ν) (index : Nat)
    (map : TransferMap) :
    Parallels config (setTransferMap index map : WriterM μ (Watched μ ν) Unit)
      (setTransferMap index map) := by
  have hknown : ∀ w : Writer μ (Watched μ ν), w.unlimited.state.transfers = w.state.transfers :=
    fun _ => rfl
  have hsend : Parallels config
      (get >>= fun w : Writer μ (Watched μ ν) =>
        if w.state.transfers[index]?.join ≠ some map then do
          update fun s => { s with transfers := s.transfers.setIfInBounds index (some map) }
          withRecovery (WriterState.putTransfer index map)
        else pure ())
      (get >>= fun w : Writer μ Unlimited =>
        if w.state.transfers[index]?.join ≠ some map then do
          update fun s => { s with transfers := s.transfers.setIfInBounds index (some map) }
          withRecovery (WriterState.putTransfer index map)
        else pure ()) := by
    refine .read fun w _ => ?_
    rw [hknown]
    split
    · refine .bind ?_ fun _ => ?_
      · exact .update fun s hs => ⟨.of_eq hs rfl rfl rfl rfl, rfl⟩
      · exact parallels_recovered hlack (WriterState.atomic_putAllBands hlack _).resumes
    · exact .pure ()
  simp only [setTransferMap]
  split
  · exact .throw _
  cases map with
  | none => exact hsend
  | some entries =>
    dsimp only
    split
    · exact .throw _
    · exact hsend

omit [MemoryPolicy μ ν] in
/-- What no band knows of may change at will. -/
theorem parallels_setLogicalOp (op : LogicalOp) :
    Parallels config (setLogicalOp op : WriterM μ (Watched μ ν) Unit) (setLogicalOp op) :=
  .update fun _ hs => ⟨.of_eq hs rfl rfl rfl rfl, rfl⟩

omit [MemoryPolicy μ ν] in
theorem parallels_setColorSpace (space : ColorSpace) :
    Parallels config (setColorSpace space : WriterM μ (Watched μ ν) Unit) (setColorSpace space) := by
  refine .update fun s hs => ?_
  obtain ⟨bands, hspace, hspace'⟩ := WriterState.useColorSpace_eq s space
  rw [hspace, hspace']
  exact ⟨.of_eq hs rfl rfl rfl rfl, rfl⟩

omit [MemoryPolicy μ ν] in
/-- A page is closed without a request for memory. -/
theorem parallels_closePage :
    Parallels config
      (critical (onState (WriterState.onBuffer CommandBuffer.closePage)) :
        WriterM μ (Watched μ ν) Unit)
      (critical (onState (WriterState.onBuffer CommandBuffer.closePage))) := by
  intro w hw
  obtain ⟨store, hclose, entries, hstore⟩ := hw.stored.closePage
  have hrun : critical (onState (WriterState.onBuffer CommandBuffer.closePage)) w =
      .ok () ⟨{ w.state with buffer := { w.state.buffer.discard with store } }, w.disabled⟩ :=
    disablingIf_of_ok (onState_of_ok (WriterState.onBuffer_of_ok hclose))
  rw [hrun]
  refine ⟨hw.of_eq ⟨entries, hstore⟩ rfl rfl, le_rfl, fun _ => ?_⟩
  exact disablingIf_of_ok (onState_of_ok (WriterState.onBuffer_of_ok hclose))

omit [MemoryPolicy μ ν] in
/-- A page starts empty in the same way however memory is got. -/
theorem parallels_resetPage :
    Parallels config (update (·.resetPage) : WriterM μ (Watched μ ν) Unit) (update (·.resetPage)) := by
  refine .update fun s hs => ⟨⟨rfl, hs, rfl, ?_⟩, rfl⟩
  rw [WriterState.imageBands, WriterState.imageBands, WriterState.resetPage, Option.map_map]
  rfl

theorem parallels_endPage (hlack : MemoryPolicy.RefusesForLack μ ν) :
    Parallels config (endPage : WriterM μ (Watched μ ν) Unit) endPage := by
  refine Parallels.check.bind fun _ => .read fun w _ => ?_
  have himage : w.unlimited.state.image = w.state.image := rfl
  have hclose : Parallels config
      (critical (onState (WriterState.onBuffer CommandBuffer.closePage)) >>= fun _ =>
        update (·.resetPage) : WriterM μ (Watched μ ν) Unit)
      (critical (onState (WriterState.onBuffer CommandBuffer.closePage)) >>= fun _ =>
        update (·.resetPage)) :=
    parallels_closePage.bind fun _ => parallels_resetPage
  rw [himage]
  split
  · exact (parallels_endImage hlack).bind fun _ => hclose
  · exact hclose

end Writer

namespace Intent

variable {μ ν : Type} [Medium μ] [LawfulMedium μ] [MemoryPolicy μ ν] {config : Config}

theorem parallels_perform (hlack : MemoryPolicy.RefusesForLack μ ν) (hvalid : config.Valid)
    (intent : Intent) :
    Writer.Parallels config (intent.perform : WriterM μ (Watched μ ν) Unit) intent.perform := by
  cases intent with
  | fillRectangle rect color => exact Writer.parallels_fillRectangle hlack rect color
  | tileRectangle tile rect colors phase =>
    exact Writer.parallels_tileRectangle hlack tile rect colors phase
  | copyMono bitmap name rect colors =>
    exact Writer.parallels_copyBitmap hlack (.inr fun _ _ _ h => by cases h)
  | copyColor bitmap name rect =>
    exact Writer.parallels_copyBitmap hlack (.inr fun _ _ _ h => by cases h)
  | copyAlpha bitmap name rect color depth =>
    exact Writer.parallels_copyAlpha hlack bitmap name rect color depth
  | fillMask bitmap name rect color depth clip =>
    exact Writer.parallels_fillMask hlack bitmap name rect color depth clip
  | fillPath ps path rule color clip => exact Writer.parallels_fillPath hlack ps path rule color clip
  | strokePath ps path color clip => exact Writer.parallels_strokePath hlack ps path color clip
  | beginImage ps header space color clip =>
    exact Writer.parallels_beginImage hvalid ps header space color clip
  | imageData planes height => exact Writer.parallels_imageData hlack planes height
  | endImage => exact Writer.parallels_endImage hlack
  | setLogicalOp op => exact Writer.parallels_setLogicalOp op
  | setColorSpace space => exact Writer.parallels_setColorSpace space
  | putParams params => exact Writer.parallels_putParams hlack params
  | setHalftone halftone => exact Writer.parallels_setHalftone hlack halftone
  | setTransferMap index map => exact Writer.parallels_setTransferMap hlack index map
  | endPage => exact Writer.parallels_endPage hlack

/-- If no page is rendered while some intents are served, they are answered as without a limit, and
the writer is then as it would be without one. -/
theorem serveAll_parallels (hlack : MemoryPolicy.RefusesForLack μ ν) (hvalid : config.Valid)
    (intents : List Intent) {w : Writer μ (Watched μ ν)} (hw : w.Sound config) :
    w.pages.length ≤ (serveAll intents w).2.pages.length ∧
      ((serveAll intents w).2.pages.length = w.pages.length →
        serveAll intents w.unlimited =
          ((serveAll intents w).1, (serveAll intents w).2.unlimited)) := by
  induction intents generalizing w with
  | nil => exact ⟨le_rfl, fun _ => rfl⟩
  | cons intent intents ih =>
    obtain ⟨hw₁, hle, hsame⟩ := parallels_perform hlack hvalid intent w hw
    have hserve : (intent.serve w).2 = stateOf (intent.perform w) := by
      simp only [serve]
      cases intent.perform w <;> rfl
    obtain ⟨hle₂, hsame₂⟩ := ih (w := (intent.serve w).2) (hserve ▸ hw₁)
    rw [← hserve] at hle hsame
    refine ⟨hle.trans hle₂, fun heq => ?_⟩
    have heq' : (serveAll intents (intent.serve w).2).2.pages.length = w.pages.length := heq
    have hone : intent.serve w.unlimited = ((intent.serve w).1, (intent.serve w).2.unlimited) := by
      have hone' := hsame (by omega)
      simp only [serve] at hone' ⊢
      rw [hone']
      cases intent.perform w <;> rfl
    have hrest := hsame₂ (by omega)
    simp only [serveAll, hone, hrest]

end Intent

end BandedPage

/-!
## Refusals that are resolved by waiting leave no trace

If no partial page had to be rendered, the store holds what it would hold had memory never been
refused, whatever the intents were and whenever memory was refused.
-/

namespace BandedPage

theorem RationedMemory.refusesForLack {μ : Type} [Medium μ] :
    MemoryPolicy.RefusesForLack μ RationedMemory := by
  intro n memory memory' e h
  simp only [MemoryPolicy.reserve, RationedMemory.reserve, modify_bind_run, get_bind_run] at h
  split at h
  · cases h
    rfl
  · cases h

namespace Writer

variable {μ ν : Type} [Medium μ] [LawfulMedium μ] [MemoryPolicy μ ν]

/-- On a page that was started with its store in order and no image open: if all refusals were
resolved without rendering a partial page, every intent has been answered as if memory were never
refused, and the command stream and the block index are the same. -/
theorem local_retries_are_invisible (hlack : MemoryPolicy.RefusesForLack μ ν)
    {w : Writer μ (Watched μ ν)} (hconfig : w.state.config.validate = .ok ())
    (hstored : ∃ entries, w.state.buffer.store.Contains entries) (himage : w.state.image = none)
    (intents : List Intent) (hlocal : (Intent.serveAll intents w).2.pages = w.pages) :
    (Intent.serveAll intents w.unlimited).1 = (Intent.serveAll intents w).1 ∧
      (Intent.serveAll intents w.unlimited).2.state.buffer.store =
        (Intent.serveAll intents w).2.state.buffer.store := by
  have hw : w.Sound w.state.config := by
    refine ⟨hstored, rfl, ?_⟩
    simp [WriterState.imageBands, himage]
  obtain ⟨-, hsame⟩ :=
    Intent.serveAll_parallels hlack (Config.valid_of_validate hconfig) intents hw
  rw [hsame (congrArg List.length hlocal)]
  exact ⟨rfl, rfl⟩

/-- A writer of the default page that is refused memory twice, which waiting helps. -/
def refusedTwice : Writer MemoryMedium (Watched MemoryMedium RationedMemory) where
  state := .fresh default { commands := {}, index := {} }
    { memory := { config := default, refused := [(1, 1), (4, 4)], frees := 2 } }

/-- The memory was freed twice, and no trace of that is left. -/
theorem two_refusals_are_invisible :
    let intents := [.fillRectangle ⟨0, 60, 10, 68⟩ 3, .putParams [1, 2],
      .fillRectangle ⟨0, 0, 10, 10⟩ 4, .endPage]
    (Intent.serveAll intents refusedTwice).2.state.memory.memory.frees = 0 ∧
      (Intent.serveAll intents refusedTwice.unlimited).1 =
        (Intent.serveAll intents refusedTwice).1 ∧
      (Intent.serveAll intents refusedTwice.unlimited).2.state.buffer.store =
        (Intent.serveAll intents refusedTwice).2.state.buffer.store := by
  have hempty : BandStore.Contains ({ commands := {}, index := {} } : BandStore MemoryMedium) [] :=
    ⟨MemoryMedium.sound_empty, MemoryMedium.sound_empty, rfl, rfl⟩
  intro intents
  have hlocal : (Intent.serveAll intents refusedTwice).2.pages.length = 0 := by
    decide +kernel
  have hfreed : (Intent.serveAll intents refusedTwice).2.state.memory.memory.frees = 0 := by
    decide +kernel
  exact ⟨hfreed, local_retries_are_invisible RationedMemory.refusesForLack rfl ⟨[], hempty⟩ rfl
    intents (List.length_eq_zero_iff.mp hlocal)⟩

end Writer

end BandedPage
