import Mathlib
import BandedPage.Proofs.Writer.Copies
import BandedPage.Proofs.Writer.Resembling
import BandedPage.Proofs.Writer.ResumedImages

/-!
# Band operations of writers that resemble each other

A band is told fields of the imager state that have just become current, and of everything else what
the writers agree on. So the same draft is drawn up in both, and what the band knows after it is what
bands knew before or what is current in both.
-/

namespace BandedPage

namespace BandDraft

variable {d d' : BandDraft} {fields required : FieldSet}

/-- The band knows fields among some, or the clip. -/
def KnowsOnly (d : BandDraft) (fields : FieldSet) : Prop :=
  ∀ f, d.state.known.contains f = true → f = .clip ∨ fields.contains f = true

theorem Continues.knowsOnly (hd : d.Continues d') (h : d.KnowsOnly fields) : d'.KnowsOnly fields :=
  fun f hf => h f (hd.known ▸ hf)

theorem KnowsOnly.of_known_eq (h : d.KnowsOnly fields) (hknown : d'.state.known = d.state.known) :
    d'.KnowsOnly fields :=
  fun f hf => h f (hknown ▸ hf)

theorem KnowsOnly.useClip (h : d.KnowsOnly fields) (area : Rect) (clip : Option ClipPath) :
    (d.useClip area clip).KnowsOnly fields := by
  intro f hf
  rw [contains_useClip, Bool.or_eq_true, Bool.and_eq_true, decide_eq_true_iff] at hf
  exact hf.elim (h f) fun hf => .inl hf.2

theorem KnowsOnly.tellFields (h : d.KnowsOnly fields) (hrequired : ∀ f, required.contains f = true →
    f ≠ .clip → fields.contains f = true) (imager : ImagerState) (space : ColorSpace) :
    (d.tellFields required imager space).KnowsOnly fields := by
  intro f hf
  rw [contains_tellFields, Bool.or_eq_true, Bool.and_eq_true, decide_eq_true_iff] at hf
  exact hf.elim (h f) fun hf => .inr (hrequired f hf.1 hf.2)

theorem KnowsOnly.useLop (h : d.KnowsOnly fields) (lop : LogicalOp) (forRects : Bool) :
    (d.useLop lop forRects).KnowsOnly fields :=
  h.of_known_eq (by rw [useLop_state])

end BandDraft

namespace WriterState

open BandDraft

variable {μ ν α : Type} {config : Config} {s s' t : WriterState μ ν} {fields required : FieldSet} {d d' : BandDraft}

/-- Fields that are among those relied on are told alike. -/
theorem Resembles.tellFields_eq (hs : Resembles config fields s s') (hrequired : ∀ f,
    required.contains f = true → f ≠ .clip → fields.contains f = true) (d : BandDraft) :
    d.tellFields required s'.imager s'.colorSpace = d.tellFields required s.imager s.colorSpace := by
  have hspace : ∀ (a : ImagerState) (f : StateField), f ≠ .colorSpace → ∀ space space',
      Command.ofField a space f = Command.ofField a space' f := by
    intro a f hf space space'
    cases f <;> first | exact absurd rfl hf | rfl
  have hcommands : (d.fieldsToTell required).map (Command.ofField s'.imager s'.colorSpace) =
      (d.fieldsToTell required).map (Command.ofField s.imager s.colorSpace) := by
    refine List.map_congr_left fun f hf => ?_
    obtain ⟨hf, -, hne⟩ := (BandDraft.mem_fieldsToTell d).mp hf
    have hrelies : s.Relies fields f := .inl (hrequired f hf hne)
    rw [(hs.imager f hrelies).ofField_eq]
    by_cases heq : f = .colorSpace
    · rw [hs.colorSpace (heq ▸ hrelies)]
    · exact hspace s'.imager f heq _ _
  simp [BandDraft.tellFields_eq, hcommands]

/-- What a band knows may be relied on while something is done for it. -/
theorem lockstep_of_known (band : Nat) {op : WriteM μ ν α} (h : ∀ s s' known,
    (BandDraft.mk band (s.band band) #[] []).KnowsOnly known → (∀ f, fields.contains f = true →
      known.contains f = true) → Resembles config known s s' → InStep (Resembles config known) op s op s') :
    Lockstep (Resembles config fields) op := by
  intro s s' hs
  have hknown := h s s' (fields ∪ (s.band band).known)
    (fun f hf => .inr (by simp [hf]))
    (fun f hf => by simp [hf]) (hs.known band)
  refine hknown.mono fun t t' ht => ht.mono fun f hf => hf.imp_left fun hf => ?_
  simp [hf]

section

variable [Medium μ] [MemoryPolicy μ ν]

/-- A draft that tells only what is relied on is held by both. -/
theorem lockstep_commit (hd : d.KnowsOnly fields) :
    Lockstep (Resembles config fields) (commit d : WriteM μ ν Unit) := by
  refine (lockstep_putBand d.band _).bind fun _ => .modify fun s s' hs => ?_
  obtain ⟨-, -, htable⟩ := TileCache.heap_foldl_markBand d.sent d.band s.tiles
  obtain ⟨hheap, -, -⟩ := TileCache.heap_foldl_markBand d.sent d.band s.tiles
  have hband : ∀ band, ({ s with
      bands := s.bands.setIfInBounds d.band d.state
      tiles := d.sent.foldl (·.markBand · d.band) s.tiles } : WriterState μ ν).band band = d.state ∨
      ({ s with
        bands := s.bands.setIfInBounds d.band d.state
        tiles := d.sent.foldl (·.markBand · d.band) s.tiles } : WriterState μ ν).band band =
        s.band band := by
    intro band
    simp only [WriterState.band, Array.getD_eq_getD_getElem?, Array.getElem?_setIfInBounds]
    split
    · next heq =>
      split
      · exact .inl rfl
      · next hlt =>
        subst heq
        rw [Array.getElem?_eq_none (by omega)]
        exact .inr rfl
    · exact .inr rfl
  have hrelies : ∀ f, WriterState.Relies { s with
      bands := s.bands.setIfInBounds d.band d.state
      tiles := d.sent.foldl (·.markBand · d.band) s.tiles } fields f → f = .clip ∨ s.Relies fields f := by
    rintro f (hf | ⟨band, hf⟩)
    · exact .inr (.inl hf)
    · rcases hband band with heq | heq
      · rw [heq] at hf
        exact (hd f hf).imp_right .inl
      · rw [heq] at hf
        exact .inr (.inr ⟨band, hf⟩)
  refine { hs with
    rest := ?_
    shaped := { hs.shaped with
      bands := (Array.size_setIfInBounds ..).trans hs.shaped.bands
      heap := (congrArg Array.size hheap).trans hs.shaped.heap
      table := htable.trans hs.shaped.table
      nbands := (TileCache.nbands_foldl_markBand ..).trans hs.shaped.nbands }
    tiles := hs.tiles.foldl_markBand d.sent d.band
    layout := hs.layout.foldl_markBand d.sent d.band
    imager := fun f hf => ?_
    colorSpace := fun hf => hs.colorSpace ((hrelies _ hf).resolve_left (by decide)) }
  · rw [hs.bands]
    rw [hs.rest]
  · rcases hrelies f hf with rfl | hf
    · exact fun _ => rfl
    · exact hs.imager f hf

end

/-! ### Tiles -/

theorem lockstep_cacheTile (tile : Tile) :
    Lockstep (Resembles config fields) (cacheTile tile : WriteM μ ν Nat) := by
  refine .read_of_eq (fun s s' hs => by rw [hs.tiles.find?]) fun s => ?_
  cases s.tiles.find? tile.id with
  | some index => exact .pure index
  | none => exact Lockstep.bind (lockstep_lookupOrAdd _ _ _) fun _ => .pure _

variable [Medium μ] [MemoryPolicy μ ν]

theorem lockstep_announceTileSize (size : TileSize) :
    Lockstep (Resembles config fields) (announceTileSize size : WriteM μ ν Unit) := by
  refine .read_of_eq (fun s s' hs => by rw [hs.tileSize]) fun s => ?_
  split
  · refine (lockstep_putAllBands _).bind fun _ => .modify fun s s' hs => ?_
    exact { hs with
      rest := by rw [hs.rest]
      shaped := { hs.shaped with } }
  · exact .pure ()

theorem lockstep_selectTile (d : BandDraft) (tile : Tile) :
    Lockstep (Resembles config fields) (selectTile d tile : WriteM μ ν BandDraft) := by
  refine (lockstep_cacheTile tile).bind fun index =>
    .read_of_eq (fun s s' hs => by rw [hs.tiles.entryAt]) fun s => ?_
  cases s.tiles.entryAt index with
  | none => exact .throw _
  | some entry =>
    dsimp only
    split
    · exact .pure _
    · refine (lockstep_announceTileSize _).bind fun _ =>
        .read_of_eq (fun s s' hs => by rw [hs.tiles.bits?]) fun s => ?_
      cases s.tiles.bits? index with
      | none => exact .throw _
      | some bits => exact .pure _

theorem continues_of_selectTile {tile : Tile} (h : selectTile d tile s = .ok d' t) :
    d.Continues d' := by
  obtain ⟨index, s₁, -, h⟩ := bind_eq_ok_iff.mp h
  rw [get_bind_run] at h
  cases hentry : s₁.tiles.entryAt index with
  | none =>
    rw [hentry] at h
    cases h
  | some entry =>
    rw [hentry] at h
    dsimp only at h
    split at h
    · cases h
      constructor <;> simp
    · obtain ⟨-, s₂, -, h⟩ := bind_eq_ok_iff.mp h
      rw [get_bind_run] at h
      cases hbits : s₂.tiles.bits? index with
      | none =>
        rw [hbits] at h
        cases h
      | some bits =>
        rw [hbits] at h
        cases h
        exact ⟨rfl, rfl, rfl, rfl⟩

theorem lockstep_useTile (d : BandDraft) (tile : Tile) (colors : ColorPair) (phase : Phase) :
    Lockstep (Resembles config fields) (useTile d tile colors phase : WriteM μ ν BandDraft) :=
  (lockstep_selectTile d tile).bind fun _ =>
    .read_of_eq (fun s s' hs => by rw [hs.config_eq]) fun _ => .pure _

theorem continues_of_useTile {tile : Tile} {colors : ColorPair} {phase : Phase}
    (h : useTile d tile colors phase s = .ok d' t) : d.Continues d' := by
  obtain ⟨d₁, s₁, hselect, h⟩ := bind_eq_ok_iff.mp h
  cases h
  refine (continues_of_selectTile hselect).trans ?_
  constructor <;> simp [BandDraft.useTileColors]

/-! ### Rectangles -/

theorem lockstep_fillBand (band : Nat) (r : Rect) (color : Color) :
    Lockstep (Resembles config fields) (fillBand band r color : WriteM μ ν Unit) := by
  refine lockstep_of_known band fun s s' known hd _ hs => ?_
  have hsame : s'.fillDraft band r color = s.fillDraft band r color := by
    simp only [fillDraft, rectDraft, hs.band, hs.config_eq, hs.logOp]
  have hrun : ∀ s : WriterState μ ν, fillBand band r color s =
      commit (s.fillDraft band r color) s := fun _ => rfl
  refine .of_eq (hrun s) (hrun s') ?_
  rw [hsame]
  refine lockstep_commit (hd.of_known_eq ?_) s s' hs
  simp [fillDraft, rectDraft, BandDraft.rect, BandDraft.emit]

theorem lockstep_tileBand (band : Nat) (r : Rect) (tile : Tile) (colors : ColorPair)
    (phase : Phase) :
    Lockstep (Resembles config fields) (tileBand band r tile colors phase : WriteM μ ν Unit) := by
  refine lockstep_of_known band fun s s' known hd _ hs => ?_
  have hsame : s'.rectDraft band = s.rectDraft band := by
    simp only [rectDraft, hs.band, hs.logOp]
  have hrun : ∀ s : WriterState μ ν, tileBand band r tile colors phase s =
      (selectTile (s.rectDraft band) tile >>= fun d =>
        commit (tileDraft s.config r tile colors phase d)) s := fun _ => rfl
  refine .of_eq (hrun s) (hrun s') ?_
  rw [hsame, hs.config_eq]
  refine (lockstep_selectTile _ tile).bind_of_answer (fun d t t' hselect => ?_) s s' hs
  have hrect : (s.rectDraft band).KnowsOnly known := hd.of_known_eq (by simp [rectDraft])
  refine lockstep_commit (((continues_of_selectTile hselect).knowsOnly hrect).of_known_eq ?_)
  simp only [tileDraft]
  split <;> simp [BandDraft.rect, BandDraft.emit, BandDraft.useTileColors]

/-! ### Paths -/

omit [Medium μ] [MemoryPolicy μ ν] in
theorem lockstep_tellColored (d : BandDraft) (bases : List UInt8) (levels : List Nat) :
    Lockstep (Resembles config fields) (tellColored d bases levels : WriteM μ ν BandDraft) := by
  refine .read_of_eq (fun s s' hs => by rw [hs.config_eq]) fun s => ?_
  dsimp only
  split
  · exact .throw _
  · exact .pure _

theorem lockstep_useDrawingColor (d : BandDraft) (color : DrawingColor) :
    Lockstep (Resembles config fields) (useDrawingColor d color : WriteM μ ν (ColorSource × BandDraft)) := by
  cases color with
  | pure color => exact .read_of_eq (fun s s' hs => by rw [hs.config_eq]) fun _ => .pure _
  | halftone tile colors phase => exact (lockstep_useTile d tile colors phase).bind fun _ => .pure _
  | colored bases levels => exact (lockstep_tellColored d bases levels).bind fun _ => .pure _

theorem continues_of_useDrawingColor {color : DrawingColor} {source : ColorSource}
    (h : useDrawingColor d color s = .ok (source, d') t) : d.Continues d' := by
  cases color with
  | pure color =>
    cases h
    exact d.continues_useColor ..
  | halftone tile colors phase =>
    obtain ⟨d₁, s₁, htile, h⟩ := bind_eq_ok_iff.mp h
    cases h
    exact continues_of_useTile htile
  | colored bases levels =>
    obtain ⟨d₁, s₁, htell, h⟩ := bind_eq_ok_iff.mp h
    cases h
    rw [tellColored, get_bind_run] at htell
    dsimp only at htell
    split at htell
    · cases htell
    · cases htell
      exact ⟨rfl, rfl, rfl, rfl⟩

/-- A path is drawn alike if the fields that it requires are relied on. -/
theorem lockstep_pathBand (band : Nat) {p : PathDrawing} (rows : RowRange)
    (hrequired : ∀ f, p.use.required.contains f = true → fields.contains f = true) :
    Lockstep (Resembles config fields) (pathBand band p rows : WriteM μ ν Unit) := by
  refine lockstep_of_known band fun s s' known hd hknown hs => ?_
  have hrequired' : ∀ f, p.use.required.contains f = true → f ≠ .clip → known.contains f = true :=
    fun f hf _ => hknown f (hrequired f hf)
  have hsame : s'.pathDraft band p = s.pathDraft band p := by
    simp only [pathDraft, hs.band, hs.config_eq, hs.logOp, hs.tellFields_eq hrequired']
  have hrun : ∀ s : WriterState μ ν, pathBand band p rows s =
      (useDrawingColor (s.pathDraft band p) p.color >>= fun drawn =>
        commit (drawn.2.drawPath p rows drawn.1)) s := fun _ => rfl
  refine .of_eq (hrun s) (hrun s') ?_
  rw [hsame]
  refine (lockstep_useDrawingColor _ p.color).bind_of_answer (fun drawn t t' hcolor => ?_) s s' hs
  have hpath : (s.pathDraft band p).KnowsOnly known :=
    ((hd.tellFields hrequired' _ _).useClip _ _).useLop _ _
  exact lockstep_commit (((continues_of_useDrawingColor hcolor).knowsOnly hpath).of_known_eq rfl)

/-! ### Copies -/

theorem lockstep_usePaint (d : BandDraft) (paint : CopyPaint) :
    Lockstep (Resembles config fields) (usePaint d paint : WriteM μ ν BandDraft) := by
  refine .read_of_eq (fun s s' hs => by rw [hs.config_eq]) fun s => ?_
  cases paint with
  | mono colors => exact .pure _
  | deep => exact .pure _
  | coverage color depth => exact .pure _
  | halftone tile colors phase => exact lockstep_useTile d tile colors phase

theorem continues_of_usePaint {paint : CopyPaint} (h : usePaint d paint s = .ok d' t) :
    d.Continues d' := by
  rw [usePaint, get_bind_run] at h
  cases paint with
  | mono colors =>
    cases h
    exact (d.continues_useColor ..).trans (BandDraft.continues_useColor ..)
  | deep =>
    cases h
    exact d.continues_useCopyMode false
  | coverage color depth =>
    cases h
    exact (d.continues_useCopyMode true).trans (BandDraft.continues_useColor ..)
  | halftone tile colors phase => exact continues_of_useTile h

omit [Medium μ] [MemoryPolicy μ ν] in
theorem lockstep_cacheCopy (c : BitmapCopy) (id : BitmapId) :
    Lockstep (Resembles config fields)
      (cacheCopy c id : WriteM μ ν (Option (Nat × TileEntry × Bytes))) := by
  have hplace : ∀ size rows, Lockstep (Resembles config fields)
      (cachePlace id size rows : WriteM μ ν (Option Nat)) := by
    intro size rows
    refine .handle (.bind (lockstep_lookupOrAdd _ _ _) fun _ => .pure _) fun e => ?_
    cases e
    case bitmapTooLarge => exact .pure none
    all_goals exact .throw _
  refine .read_of_eq (fun s s' hs => by rw [hs.config_eq, hs.tiles.maxTileSize]) fun s => ?_
  dsimp only
  split
  · exact .pure none
  · refine .bind (.lift _) fun rows => .bind (hplace _ rows) fun place => ?_
    cases place with
    | none => exact .pure none
    | some index => exact .read_of_eq (fun s s' hs => by rw [hs.tiles.entryAt]) fun s => .pure _

omit [Medium μ] [MemoryPolicy μ ν] in
theorem lockstep_sendCopy (d : BandDraft) (c : BitmapCopy) :
    Lockstep (Resembles config fields) (sendCopy d c : WriteM μ ν BandDraft) := by
  refine .read_of_eq (fun s s' hs => by rw [hs.config_eq]) fun s => ?_
  cases c.name with
  | none => exact .bind (.pure none) (Option.forall.mpr ⟨.lift _, .pure⟩)
  | some id =>
    exact (lockstep_cacheCopy c id).bind fun _ =>
      .bind (.pure _) (Option.forall.mpr ⟨.lift _, .pure⟩)

omit [Medium μ] [MemoryPolicy μ ν] in
theorem continues_of_sendCopy {c : BitmapCopy} (h : sendCopy d c s = .ok d' t) :
    d.Continues d' := by
  have hpieces : ∀ {s : WriterState μ ν} {config : Config},
      (liftM (c.sendPieces config d) : WriteM μ ν BandDraft) s = .ok d' t → d.Continues d' := by
    intro s config h
    cases hsend : c.sendPieces config d with
    | error e =>
      rw [hsend] at h
      cases h
    | ok d₁ =>
      rw [hsend] at h
      cases h
      rw [BitmapCopy.sendPieces_eq] at hsend
      exact BitmapCopy.continues_of_foldlM_sendPiece hsend
  rw [sendCopy, get_bind_run] at h
  cases hname : c.name with
  | none =>
    rw [hname] at h
    exact hpieces h
  | some id =>
    rw [hname] at h
    obtain ⟨place, s₂, -, h⟩ := bind_eq_ok_iff.mp h
    cases place with
    | none => exact hpieces h
    | some place =>
      cases hsend : c.sendCached s.config d place.1 place.2.1 place.2.2 with
      | none =>
        simp only [Option.bind_some, hsend] at h
        exact hpieces h
      | some d₁ =>
        simp only [Option.bind_some, hsend] at h
        cases h
        exact BitmapCopy.continues_of_sendCached hsend

theorem lockstep_copyBand (band : Nat) (c : BitmapCopy) :
    Lockstep (Resembles config fields) (copyBand band c : WriteM μ ν Unit) := by
  refine lockstep_of_known band fun s s' known hd _ hs => ?_
  have hsame : s'.copyDraft band c = s.copyDraft band c := by
    simp only [copyDraft, hs.band, hs.config_eq, hs.logOp]
  have hrun : ∀ s : WriterState μ ν, copyBand band c s =
      (usePaint (s.copyDraft band c) c.paint >>= fun d => sendCopy d c >>= commit) s := fun _ => rfl
  refine .of_eq (hrun s) (hrun s') ?_
  rw [hsame]
  refine (lockstep_usePaint _ _).bind_of_answer (fun d t t' hpaint =>
    (lockstep_sendCopy d c).bind_of_answer fun d' u u' hcopy => ?_) s s' hs
  have hcopied : (s.copyDraft band c).KnowsOnly known := by
    simp only [copyDraft]
    split
    · exact (hd.useClip _ _).useLop _ _
    · exact hd.useClip _ _
  exact lockstep_commit ((continues_of_sendCopy hcopy).knowsOnly
    ((continues_of_usePaint hpaint).knowsOnly hcopied))

/-! ### Images -/

/-- An image whose imager state and color space are relied on begins in a band of both. -/
theorem lockstep_startImage (band : Nat) (im : OpenImage)
    (hrequired : ∀ f, FieldSet.image.contains f = true → fields.contains f = true) :
    Lockstep (Resembles config fields) (startImage band im : WriteM μ ν Unit) := by
  refine lockstep_of_known band fun s s' known hd hknown hs => ?_
  have hrequired' : ∀ f, FieldSet.image.contains f = true → f ≠ .clip → known.contains f = true :=
    fun f hf _ => hknown f (hrequired f hf)
  have hsame : s'.imageDraft band im = s.imageDraft band im := by
    simp only [imageDraft, hs.band, hs.config_eq, hs.logOp, hs.tellFields_eq hrequired']
  have hrun : ∀ s : WriterState μ ν, startImage band im s =
      (liftM (Command.imageBegin im.remaining im.space) >>= fun c =>
        commit ((s.imageDraft band im).emit c)) s := fun _ => rfl
  refine .of_eq (hrun s) (hrun s') ?_
  rw [hsame]
  refine Lockstep.bind (.lift _) (fun c => lockstep_commit (KnowsOnly.of_known_eq ?_ rfl)) s s' hs
  have hbegun := ((hd.tellFields hrequired' s.imager s.colorSpace).useClip (s.config.bandRect band)
    im.clip).useLop s.imager.logOp false
  simp only [imageDraft]
  split
  · exact hbegun.of_known_eq (by simp [emit])
  · exact hbegun

/-- An image begins in a band of both, since its imager state and its color space become current. -/
theorem lockstep_beginImageBand (band : Nat) {im : OpenImage} (him : im.state.Plain) :
    Lockstep (Resembles config fields) (beginImageBand band im : WriteM μ ν Unit) := by
  have hweaken : ∀ {more : FieldSet} {t t' : WriterState μ ν},
      (∀ f, fields.contains f = true → more.contains f = true) → Resembles config more t t' →
      Resembles config fields t t' :=
    fun hmore ht => ht.mono fun f hf => hf.imp_left (hmore f)
  intro s s' hs
  rw [beginImageBand_eq]
  rcases (hs.useColorSpace im.space).updateImager him .image with
    ⟨t, t', hrun, hrun', ht⟩ | ⟨e, t, t', hrun, hrun', ht⟩
  · have huse : useImageState im s = .ok () t := hrun
    have huse' : useImageState im s' = .ok () t' := hrun'
    refine .of_eq (bind_of_ok huse _) (bind_of_ok huse' _) ?_
    refine InStep.mono (lockstep_startImage band im (fun f hf => ?_) t t' ht)
      fun u u' => hweaken fun f hf => ?_
    · rw [FieldSet.contains_union, FieldSet.contains_insert, FieldSet.contains_sdiff,
        FieldSet.contains_singleton, hf]
      cases f <;> simp
    · rw [FieldSet.contains_union, FieldSet.contains_insert, hf]
      rfl
  · have huse : useImageState im s = .error e t := hrun
    have huse' : useImageState im s' = .error e t' := hrun'
    refine .of_error (bind_of_error huse _) (bind_of_error huse' _) (hweaken (fun f hf => ?_) ht)
    simp [hf]

theorem lockstep_imageDataBand (band : Nat) (rows : Command) :
    Lockstep (Resembles config fields) (imageDataBand band rows : WriteM μ ν Unit) := by
  have hmark : Lockstep (Resembles config fields) (modify (·.markStarted band) : WriteM μ ν PUnit) := by
    refine .modify fun s s' hs => ?_
    refine hs.withImage (by rw [hs.image_eq]) fun im him => ?_
    obtain ⟨im', him', rfl⟩ := Option.mem_map.mp him
    exact hs.image im' him'
  rw [imageDataBand_eq]
  refine .bind (.read fun s s' hs => ?_) fun _ => lockstep_putBand band _
  rw [hs.image_eq]
  cases him : s.image with
  | none => exact .of_error rfl rfl hs
  | some im =>
    dsimp only
    split
    · exact ((lockstep_beginImageBand band (hs.image im him)).bind fun _ => hmark) s s' hs
    · exact .of_ok rfl rfl hs

theorem lockstep_endImageBand (band : Nat) :
    Lockstep (Resembles config fields) (endImageBand band : WriteM μ ν Unit) := by
  refine .read_of_eq (fun s s' hs => by rw [hs.image_eq]) fun s => ?_
  split
  · exact lockstep_putBand band _
  · exact .pure ()

end WriterState

end BandedPage
