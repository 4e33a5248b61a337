import Mathlib
import BandedPage.Proofs.Page.Rectangles

/-!
# Masks and tiles in a session

A mask is painted within the clip that was given for it. A tile that the cache refuses, for a band
or altogether, is drawn there as copies of its pieces.
-/

namespace BandedPage

variable {μ ν : Type} [Medium μ] [LawfulMedium μ] [MemoryPolicy μ ν]

omit [MemoryPolicy μ ν] in
/-- A request for each piece of an interval. -/
theorem Makes.spanForM {q : Terms} {config : Config} {I : WriterState μ (Watched μ ν) → Prop}
    {period origin lo hi : Int} {f : Span → WriterM μ (Watched μ ν) Unit}
    {P : Span → Nat → List TargetCall → Prop}
    (h : ∀ s ∈ Span.cut period origin lo hi, Makes q config I (f s) (P s)) :
    Makes q config I (Span.forM period origin lo hi f) fun band =>
      InTurn (fun s => P s band) (Span.cut period origin lo hi) := by
  rw [Span.forM_eq_cut]
  exact .forM h

/-- The calls of all items of some lists, in turn. -/
theorem InTurn.flatMap {ι κ : Type} {P : ι → List TargetCall → Prop}
    {Q : κ → List TargetCall → Prop} {items : κ → List ι} {keys : List κ} {calls : List TargetCall}
    (h : InTurn Q keys calls) (hq : ∀ k ∈ keys, ∀ calls, Q k calls → InTurn P (items k) calls) :
    InTurn P (keys.flatMap items) calls := by
  induction h with
  | nil => exact .nil
  | cons hcalls _ ih =>
    rw [List.flatMap_cons]
    exact (hq _ List.mem_cons_self _ hcalls).append
      (ih fun k hk => hq k (List.mem_cons_of_mem _ hk))

theorem InTurn.map {ι κ : Type} {P : ι → List TargetCall → Prop} {f : κ → ι} {keys : List κ}
    {calls : List TargetCall} (h : InTurn (fun k => P (f k)) keys calls) :
    InTurn P (keys.map f) calls := by
  induction h with
  | nil => exact .nil
  | cons hcalls _ ih => exact .cons hcalls ih

namespace Session

variable {S : Session} {c : BitmapCopy} {clip : Option ClipPath} {imager : ImagerState}

/-! ### Copies and masks -/

theorem serves_copyBitmap (hS : S.Sound) (hc : S.AdmitsCopy c) (hclip : c.clip = none) :
    S.Serves (Writer.copyBitmap c : WriterM μ (Watched μ ν) Unit) (S.Copies c) :=
  .of_makes fun _ _ _ hlop => makes_copyBitmap hS hlop hc fun hsome => by simp [hclip] at hsome

theorem serves_copyAlpha (hS : S.Sound) {bitmap : Bitmap} {name : Option BitmapId} {rect : Rect}
    {color : Color} {depth : Nat}
    (hc : depth ∈ [1, 2, 4, 8] → S.AdmitsCopy { bitmap, rect, paint := .coverage color depth, name }) :
    S.Serves (Writer.copyAlpha bitmap name rect color depth : WriterM μ (Watched μ ν) Unit)
      (S.Copies { bitmap, rect, paint := .coverage color depth, name }) := by
  unfold Writer.copyAlpha
  by_cases hdepth : depth ∈ [1, 2, 4, 8]
  · rw [if_neg (not_not.mpr hdepth)]
    exact serves_copyBitmap hS (hc hdepth) rfl
  · rw [if_pos hdepth]
    exact .throw _

omit [MemoryPolicy μ ν] in
/-- A clip becomes current before the rest is done. -/
theorem Serves.useClip_bind {m : WriterM μ (Watched μ ν) Unit} {P : Nat → List TargetCall → Prop}
    (h : ∀ current, (clip.isSome = true → current = clip.bind fun k => S.clips k.id) →
      ∀ (w : Writer μ (Watched μ ν)) drawn, w.InSession S current drawn → S.Answers m P w drawn) :
    S.Serves (Writer.update (·.useClip clip) >>= fun _ => m) P := by
  intro current w drawn hw
  have hrun : Writer.update (·.useClip clip) w = .ok () ⟨w.state.useClip clip, w.disabled⟩ := rfl
  rw [Answers, Meets, bind_of_ok hrun, hw.told.enabled]
  refine h _ (fun hsome => ?_) _ _ (hw.useClip clip)
  obtain ⟨k, rfl⟩ := Option.isSome_iff_exists.mp hsome
  rfl

/-- What a mask paints with a color. -/
def maskOf (bitmap : Bitmap) (name : Option BitmapId) (rect : Rect) (clip : Option ClipPath) :
    DrawingColor → BitmapCopy
  | .pure color =>
    { bitmap, rect, paint := .mono { one := color }, name, clip, isMask := true }
  | .halftone tile colors phase =>
    { bitmap, rect, paint := .halftone tile colors phase, clip, isMask := true }
  | .colored _ _ => { bitmap, rect, paint := .deep, clip, isMask := true }

theorem serves_fillMask (hS : S.Sound) {bitmap : Bitmap} {name : Option BitmapId} {rect : Rect}
    {color : DrawingColor} {depth : Nat}
    (hc : depth = 1 → (∀ bases levels, color ≠ .colored bases levels) →
      S.AdmitsCopy (maskOf bitmap name rect clip color)) :
    S.Serves (Writer.fillMask bitmap name rect color depth clip : WriterM μ (Watched μ ν) Unit)
      (S.Copies (maskOf bitmap name rect clip color)) := by
  unfold Writer.fillMask
  by_cases hdepth : depth = 1
  · rw [if_neg (not_not.mpr hdepth)]
    refine .useClip_bind fun current hcurrent w drawn hw => ?_
    cases color with
    | pure color =>
      have hadmits := hc hdepth fun _ _ h => by cases h
      exact (makes_copyBitmap hS hw.ready.lop hadmits hcurrent).answers hw
    | halftone tile colors phase =>
      have hadmits := hc hdepth fun _ _ h => by cases h
      exact (makes_copyBitmap hS hw.ready.lop hadmits hcurrent).answers hw
    | colored bases levels => exact Serves.throw _ _ _ _ hw
  · rw [if_pos hdepth]
    exact .throw _

/-! ### Tiles -/

/-- A tiled rectangle that can be told, and the pieces of the tile too. -/
structure AdmitsTiles (S : Session) (tile : Tile) (rect : Rect) (colors : ColorPair)
    (phase : Phase) : Prop where
  reaches : S.Reaches rect
  room : S.config.payloadRoom * 8 < 2147483648
  sides : tile.width < 2147483648 ∧ tile.height < 2147483648
  tile : tile.Fits S.terms
  colors : colors.Fits S.terms S.config
  phase : phase.Fits

/-- The piece of a tile that covers some columns and rows. -/
def pieceOf (tile : Tile) (colors : ColorPair) (phase : Phase) (rows columns : Span) : BitmapCopy where
  bitmap := tile.bitmapAt phase columns.start rows.start
  rect := .ofSize columns.start rows.start columns.length rows.length
  paint := if tile.size.depth = 1 then .mono colors else .deep

/-- The pieces of a tile that cover a rectangle, row by row. -/
def piecesOf (tile : Tile) (part : Rect) (colors : ColorPair) (phase : Phase) : List BitmapCopy :=
  (Span.cut tile.size.yPeriod (-phase.y) part.y1 part.y2).flatMap fun rows =>
    (Span.cut tile.size.xPeriod (-tile.size.xOffset phase rows.start) part.x1 part.x2).map fun columns =>
      pieceOf tile colors phase rows columns

/-- The calls that fill a part of a rectangle with a tile, or with its pieces, when `lop` is current. -/
def TilesUnder (S : Session) (lop : LogicalOp) (tile : Tile) (colors : ColorPair) (phase : Phase)
    (p : Nat × Rect) (band : Nat) (calls : List TargetCall) : Prop :=
  InBand p.1 (S.terms.TilesRect S.config lop p.1 p.2 tile colors phase) band calls ∨
  InTurn (fun c => S.Copies c band) (piecesOf tile p.2 colors phase) calls

/-- The calls that fill a part of a rectangle with a tile, or with its pieces. -/
def Tiles (S : Session) (tile : Tile) (colors : ColorPair) (phase : Phase) (p : Nat × Rect)
    (band : Nat) (calls : List TargetCall) : Prop :=
  InBand p.1 (fun calls => ∃ lop, (S.terms.exactImager → S.lops lop) ∧
    S.terms.TilesRect S.config lop p.1 p.2 tile colors phase calls) band calls ∨
  InTurn (fun c => S.Copies c band) (piecesOf tile p.2 colors phase) calls

variable {tile : Tile} {rect part : Rect} {colors : ColorPair} {phase : Phase}

theorem AdmitsTiles.piece (ht : S.AdmitsTiles tile rect colors phase) (hpart : part.OnPage S.terms)
    {rows columns : Span}
    (hrows : part.y1 ≤ rows.start ∧ 0 < rows.length ∧ rows.start + rows.length ≤ part.y2)
    (hcolumns : part.x1 ≤ columns.start ∧ 0 < columns.length ∧
      columns.start + columns.length ≤ part.x2) :
    S.AdmitsCopy (pieceOf tile colors phase rows columns) := by
  have hon : (Rect.ofSize columns.start rows.start columns.length rows.length).OnPage S.terms :=
    hpart.ofSize hcolumns hrows
  refine ⟨fun r hr => hon.intersect hr, ht.room, ?_, fun hsome => ?_, fun p _ id hid => ?_,
    fun k hk => by cases hk⟩
  · show CopyPaint.Fits _ _ (if tile.size.depth = 1 then _ else _)
    split
    · exact ht.colors
    · trivial
  · cases hsome
  · have hnone : ((pieceOf tile colors phase rows columns).restrict p.2).name = none :=
      ite_self none
    rw [hnone] at hid
    cases hid

theorem makes_piece (hS : S.Sound) (ht : S.AdmitsTiles tile rect colors phase)
    (hpart : part.OnPage S.terms) (hlop : S.terms.exactImager → S.lops imager.logOp)
    {rows columns : Span}
    (hrows : part.y1 ≤ rows.start ∧ 0 < rows.length ∧ rows.start + rows.length ≤ part.y2)
    (hcolumns : part.x1 ≤ columns.start ∧ 0 < columns.length ∧
      columns.start + columns.length ≤ part.x2) :
    Makes (S.on clip) S.config (S.Current (μ := μ) (ν := ν) clip imager)
      (Writer.copyBitmap (pieceOf tile colors phase rows columns))
      (S.Copies (pieceOf tile colors phase rows columns)) :=
  makes_copyBitmap hS hlop (ht.piece hpart hrows hcolumns) fun hsome => by cases hsome

omit [LawfulMedium μ] in
theorem copy_piece (rows columns : Span) :
    (if tile.size.depth = 1 then
        Writer.copyMono (tile.bitmapAt phase columns.start rows.start) none
          (.ofSize columns.start rows.start columns.length rows.length) colors
      else Writer.copyColor (tile.bitmapAt phase columns.start rows.start) none
        (.ofSize columns.start rows.start columns.length rows.length) : WriterM μ ν Unit) =
      Writer.copyBitmap (pieceOf tile colors phase rows columns) := by
  by_cases hdepth : tile.size.depth = 1
  · simp only [pieceOf, if_pos hdepth, Writer.copyMono]
  · simp only [pieceOf, if_neg hdepth, Writer.copyColor]

/-- Copies of a tile's pieces fill a part of a page. -/
theorem makes_copyTile (hS : S.Sound) (ht : S.AdmitsTiles tile rect colors phase)
    (hsides : 0 < tile.width ∧ 0 < tile.height) (hpart : part.OnPage S.terms)
    (hlop : S.terms.exactImager → S.lops imager.logOp) :
    Makes (S.on clip) S.config (S.Current (μ := μ) (ν := ν) clip imager)
      (Writer.copyTile tile part colors phase) fun band =>
        InTurn (fun c => S.Copies c band) (piecesOf tile part colors phase) := by
  have hwrap : ∀ n : Nat, 0 < n → n < 2147483648 → 0 < Word.wrap32 n := by
    intro n hpos hlt
    rw [Word.wrap32_of_fits32 (by rw [Word.fits32_iff]; omega)]
    omega
  have hx : 0 < tile.size.xPeriod := hwrap _ hsides.1 ht.sides.1
  have hy : 0 < tile.size.yPeriod := hwrap _ hsides.2 ht.sides.2
  refine Makes.mono (Makes.spanForM (P := fun rows band => InTurn (fun columns =>
      S.Copies (pieceOf tile colors phase rows columns) band)
    (Span.cut tile.size.xPeriod (-tile.size.xOffset phase rows.start) part.x1 part.x2))
    fun rows hrows => Makes.spanForM fun columns hcolumns => ?_) fun band calls h => ?_
  · obtain ⟨hfirst, hpos, -, hlast⟩ := Span.of_mem_cut hy hrows
    obtain ⟨hfirst', hpos', -, hlast'⟩ := Span.of_mem_cut hx hcolumns
    dsimp only
    rw [copy_piece]
    exact makes_piece hS ht hpart hlop ⟨hfirst, hpos, hlast⟩ ⟨hfirst', hpos', hlast'⟩
  · exact h.flatMap fun rows _ calls h => h.map

omit [LawfulMedium μ] in
/-- A writer that was switched off draws no piece of a tile. -/
theorem copyTile_of_disabled {w : Writer μ ν} (hw : w.disabled = true) (hx : part.x1 < part.x2)
    (hy : part.y1 < part.y2) :
    Writer.copyTile tile part colors phase w = .error .writerDisabled w := by
  have hrefused : ∀ c, Writer.copyBitmap c w = .error .writerDisabled w := by
    intro c
    have hcheck : (Writer.check : WriterM μ ν Unit) w = .error .writerDisabled w := by
      simp [Writer.check, hw]
    exact bind_of_error hcheck _
  unfold Writer.copyTile
  rw [Span.forM, Span.foldlM, if_pos hy]
  refine bind_of_error ?_ _
  dsimp only
  rw [Span.forM, Span.foldlM, if_pos hx]
  refine bind_of_error ?_ _
  rw [copy_piece]
  exact hrefused _

omit [Medium μ] [LawfulMedium μ] [MemoryPolicy μ ν] in
theorem TilesUnder.tiles {lop : LogicalOp} {p : Nat × Rect} {band : Nat} {calls : List TargetCall}
    (h : S.TilesUnder lop tile colors phase p band calls) (hlop : S.terms.exactImager → S.lops lop) :
    S.Tiles tile colors phase p band calls :=
  h.imp_left fun h => h.mono fun hcalls => ⟨lop, hlop, hcalls⟩

/-- A part of a rectangle is filled with a tile, or with its pieces if the cache refuses it. -/
theorem makes_tilePart (hS : S.Sound) (ht : S.AdmitsTiles tile rect colors phase)
    (hsides : 0 < tile.width ∧ 0 < tile.height) {band : Nat} (hband : band < S.config.nbands)
    (hpart : part.OnPage S.terms) (hlop : S.terms.exactImager → S.lops imager.logOp) :
    Makes (S.on clip) S.config (S.Current (μ := μ) (ν := ν) clip imager)
      (Writer.tilePart tile band part colors phase)
      (S.TilesUnder imager.logOp tile colors phase (band, part)) := by
  intro w drawn htold hw
  have hI := WriterState.Ready.lasting (μ := μ) (ν := Watched μ ν) S clip imager
  have hcarries : Carries (S.on clip) (S.on clip) (S.Current clip imager)
      (WriterState.tileBand band part tile colors phase : WriteM μ (Watched μ ν) Unit)
      (.onBand band (S.terms.TilesRect S.config imager.logOp band part tile colors phase)) := by
    refine .of_tells hI (WriterState.rendersNothing_tileBand band part tile colors phase)
      fun s calls hs hsynced => ?_
    have hconfig := hs.1.config_eq
    have htells := hsynced.tileBand (hconfig ▸ hband) (on_onPage hpart).within (on_tile ht.tile)
      (hconfig ▸ ht.colors) ht.phase
    rw [hconfig, hs.2] at htells
    exact htells
  have hmeets := htold.withRecovery hI hw hcarries hS.nbands_le
  cases hrun : Writer.withRecovery (WriterState.tileBand band part tile colors phase) w with
  | ok u w' =>
    obtain ⟨hw', more, ⟨hmore, hother⟩, htold'⟩ := hmeets.ok hrun
    have hdone : Writer.tilePart tile band part colors phase w = .ok u w' := by
      simp only [Writer.tilePart, hrun]
    have hmade : ∀ b, S.TilesUnder imager.logOp tile colors phase (band, part) b (more b) := by
      intro b
      refine .inl ?_
      rw [InBand]
      by_cases heq : b = band
      · subst heq
        rw [if_pos rfl]
        exact hmore
      · rw [if_neg heq]
        exact hother b heq
    rw [Meets, hdone]
    exact ⟨hw', more, hmade, htold'⟩
  | error e w' =>
    have hfailed := hmeets.error hrun
    by_cases hlarge : ∃ n limit, e = .bitmapTooLarge n limit
    · obtain ⟨n, limit, rfl⟩ := hlarge
      have hpieces : Writer.tilePart tile band part colors phase w =
          Writer.copyTile tile part colors phase w' := by
        simp only [Writer.tilePart, hrun]
      rw [Meets, hpieces]
      rcases hfailed with hdisabled | ⟨hw', more, rfl, htold'⟩
      · rw [copyTile_of_disabled hdisabled hpart.x.2.1 hpart.y.2.1]
        exact .inl hdisabled
      · have htold'' : w'.Told (S.on clip) S.config drawn := by
          simpa [drawing] using htold'
        refine (makes_copyTile hS ht hsides hpart hlop w' drawn htold'' hw').mono ?_ fun _ _ h => h
        rintro _ _ ⟨hw'', more, hmore, h⟩
        exact ⟨hw'', more, fun b => .inr (hmore b), h⟩
    · have hkept : Writer.tilePart tile band part colors phase w = .error e w' := by
        simp only [Writer.tilePart, hrun]
        split
        · next n limit _ heq =>
          cases heq
          exact absurd ⟨_, _, rfl⟩ hlarge
        · rfl
      refine .of_error hkept (hfailed.imp_right ?_)
      rintro ⟨hw', more, -, h⟩
      exact ⟨hw', more, trivial, h⟩

/-- A rectangle is filled with a tile, or with its pieces where the cache refuses it. -/
theorem makes_tileRectangle (hS : S.Sound) (ht : S.AdmitsTiles tile rect colors phase)
    (hlop : S.terms.exactImager → S.lops imager.logOp) :
    Makes (S.on clip) S.config (S.Current (μ := μ) (ν := ν) clip imager)
      (Writer.tileRectangle tile rect colors phase) fun band =>
        InTurn (fun p => S.TilesUnder imager.logOp tile colors phase p band) (S.partsOf rect) := by
  refine .check_bind (.get_bind fun w hw => ?_)
  dsimp only
  rw [hw.1.config_eq]
  have hmem := fun p => ht.reaches.of_mem hS (p := p)
  rw [partsOf] at hmem ⊢
  generalize rect.intersect S.config.pageRect = visible at hmem ⊢
  cases visible with
  | none => exact .pure fun _ => InTurn.nil
  | some r =>
    dsimp only
    by_cases hempty : (decide (tile.width = 0) || decide (tile.height = 0)) = true
    · rw [if_pos hempty]
      exact .throw _
    · rw [if_neg hempty]
      have hsides : 0 < tile.width ∧ 0 < tile.height := by
        simp only [Bool.or_eq_true, decide_eq_true_eq, not_or] at hempty
        omega
      refine Makes.forM fun p hp => ?_
      obtain ⟨hband, hpart⟩ := hmem p hp
      split
      · exact makes_tilePart hS ht hsides hband hpart hlop
      · exact (makes_copyTile hS ht hsides hpart hlop).mono fun band calls h => .inr h

theorem serves_tileRectangle (hS : S.Sound) (ht : S.AdmitsTiles tile rect colors phase) :
    S.Serves (Writer.tileRectangle tile rect colors phase : WriterM μ (Watched μ ν) Unit) fun band =>
      InTurn (fun p => S.Tiles tile colors phase p band) (S.partsOf rect) :=
  .of_makes fun _ _ _ hlop => (makes_tileRectangle hS ht hlop).mono fun _ _ h =>
    h.mono fun _ _ _ hcalls => hcalls.tiles hlop

end Session

end BandedPage
