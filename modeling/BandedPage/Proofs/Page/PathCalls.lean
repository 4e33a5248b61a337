import Mathlib
import BandedPage.Proofs.Page.Requests

/-!
# The paths of a page

Of all that replay of a band calls, the paths that it fills and strokes are those of the requests to
fill and stroke, in turn, as far as the band is among those that each of them is sent to.
-/

namespace BandedPage

namespace TargetCall

def isFill : TargetCall → Bool
  | fillPath .. => true
  | _ => false

def isPath : TargetCall → Bool
  | fillPath .. | strokePath .. => true
  | _ => false

@[simp]
theorem isPath_of_isFill {call : TargetCall} (h : call.isFill = true) : call.isPath = true := by
  cases call with
  | fillPath => rfl
  | _ => cases h

@[simp] theorem isSetting_of_isPath {call : TargetCall} (h : call.isPath = true) :
    call.isSetting = false := by
  cases call with
  | fillPath | strokePath => rfl
  | _ => cases h

end TargetCall

namespace PaintSettings

/-- Copying calls for no path. -/
theorem isPath_of_mem_copyCalls {v : PaintSettings} {box rect : Rect} {paint : CopyPaint}
    {bits : Bitmap} {call : TargetCall} (h : call ∈ v.copyCalls box paint bits rect) :
    call.isPath = false := by
  cases paint with
  | mono _ | deep | coverage _ _ =>
    obtain ⟨piece, -, rfl⟩ := List.mem_map.mp h
    rfl
  | halftone _ _ _ =>
    rw [List.mem_singleton.mp h]
    rfl

end PaintSettings

theorem BitmapCopy.DrawnBy.isPath_of_mem {c : BitmapCopy} {q : Terms} {config : Config}
    {lop : LogicalOp} {band : Nat} {calls : List TargetCall}
    (h : c.DrawnBy q config lop band calls) {call : TargetCall} (hcall : call ∈ calls) :
    call.isPath = false := by
  cases h with
  | pieces hv =>
    obtain ⟨p, -, hp⟩ := List.mem_flatMap.mp hcall
    exact PaintSettings.isPath_of_mem_copyCalls hp
  | cached hv hid hsize hshows => exact PaintSettings.isPath_of_mem_copyCalls hcall

namespace Session

variable {S : Session} {band : Nat} {calls : List TargetCall}

/-- The path calls that a request makes replay of a band make. -/
def PathCalls (S : Session) (band : Nat) : Intent → List TargetCall → Prop
  | .fillPath ps path rule color clip => fun calls =>
    if band ∈ S.config.fillBands path then
      S.Paths ps (.ofFill path rule color clip) band (S.config.fillRows path band) calls
    else calls = []
  | .strokePath ps path color clip => fun calls =>
    if band ∈ S.config.strokeBands ps path then
      S.Paths ps (.ofStroke path color clip) band (S.config.strokeRows ps band) calls
    else calls = []
  | _ => fun calls => calls = []

/-- What is done for the parts of something calls for no path if no part does. -/
theorem isPath_of_inTurn {ι : Type} {P : ι → List TargetCall → Prop} {items : List ι}
    (h : InTurn P items calls)
    (hp : ∀ i calls, P i calls → ∀ call ∈ calls, call.isPath = false) :
    calls.filter TargetCall.isPath = [] :=
  List.filter_eq_nil_iff.mpr fun call hcall => by
    rw [h.forall_mem (fun i _ calls hi => hp i calls hi) call hcall]
    exact Bool.false_ne_true

theorem isPath_of_inBand {P : List TargetCall → Prop} {b : Nat} (h : InBand b P band calls)
    (hp : P calls → ∀ call ∈ calls, call.isPath = false) : ∀ call ∈ calls, call.isPath = false := by
  rw [InBand] at h
  split at h
  · exact hp h
  · simp [h]

theorem isPath_of_fills {part : Rect} {color : Color} (h : S.Fills band part color calls) :
    ∀ call ∈ calls, call.isPath = false := by
  obtain ⟨b, -, -, -, rfl⟩ := h
  intro call hcall
  obtain ⟨piece, -, rfl⟩ := List.mem_map.mp hcall
  rw [fillCall]
  split <;> rfl

theorem filter_copies {c : BitmapCopy} (h : S.Copies c band calls) :
    calls.filter TargetCall.isPath = [] :=
  isPath_of_inTurn h fun _ _ hcalls =>
    isPath_of_inBand hcalls fun ⟨_, _, hdrawn⟩ _ hcall => hdrawn.isPath_of_mem hcall

theorem isPath_of_tiles {tile : Tile} {colors : ColorPair} {phase : Phase} {p : Nat × Rect}
    (h : S.Tiles tile colors phase p band calls) : ∀ call ∈ calls, call.isPath = false := by
  rcases h with h | h
  · refine isPath_of_inBand h fun hpart call hcall => ?_
    obtain ⟨lop, -, b, shown, -, -, -, -, -, rfl⟩ := hpart
    obtain ⟨piece, -, rfl⟩ := List.mem_map.mp hcall
    rw [tileCall]
    split <;> rfl
  · refine h.forall_mem fun c _ calls hcalls call hcall => ?_
    have hnone := List.filter_eq_nil_iff.mp (filter_copies hcalls) call hcall
    exact Bool.eq_false_of_not_eq_true hnone

/-- One path call is all that a path is drawn with. -/
theorem Paths.filter {ps : ImagerState} {p : PathDrawing} {rows : RowRange}
    (h : S.Paths ps p band rows calls) : calls.filter TargetCall.isPath = calls := by
  obtain ⟨imager, -, -, origin, source, shown, color, clip, rfl, -⟩ := h
  rw [List.filter_eq_self]
  intro call hcall
  rw [List.mem_singleton.mp hcall]
  cases p.op source <;> rfl

theorem filter_undrawn (h : Undrawn calls) : calls.filter TargetCall.isPath = [] := by
  refine List.filter_eq_nil_iff.mpr fun call hcall hpath => ?_
  have hdrawing : call ∈ drawing calls := by
    simp [drawing, hcall, TargetCall.isSetting_of_isPath hpath]
  rw [show drawing calls = [] from h] at hdrawing
  exact absurd hdrawing List.not_mem_nil

/-- Paths that are drawn in some bands in turn. -/
theorem pathCalls_of_inTurn {ps : ImagerState} {p : PathDrawing} {rows : Nat → RowRange}
    {bands : List Nat} (hnodup : bands.Nodup)
    (h : InTurn (fun b => InBand b (S.Paths ps p b (rows b)) band) bands calls) :
    if band ∈ bands then S.Paths ps p band (rows band) (calls.filter TargetCall.isPath)
    else calls.filter TargetCall.isPath = [] := by
  have hin := h.inBand hnodup
  split at hin
  · next hband =>
    rw [if_pos hband, hin.filter]
    exact hin
  · next hband =>
    rw [if_neg hband, hin]
    rfl

end Session

theorem BandRange.nodup_toList (r : BandRange) : r.toList.Nodup := List.nodup_range'

namespace Config

theorem nodup_fillBands (config : Config) (path : Path) : (config.fillBands path).Nodup := by
  rw [fillBands]
  split
  · exact List.nodup_nil
  · next y height _ =>
    cases config.bandsFor (y - 1) (y + height + 1 - (y - 1)) with
    | none => exact List.nodup_nil
    | some bands => exact bands.nodup_toList

theorem nodup_strokeBands (config : Config) (ps : ImagerState) (path : Path) :
    (config.strokeBands ps path).Nodup := by
  rw [strokeBands]
  split
  · exact List.nodup_nil
  · exact config.allBands.nodup_toList
  · next y height reach _ _ =>
    cases config.bandsFor (y - reach) (height + 2 * reach) with
    | none => exact List.nodup_nil
    | some bands => exact bands.nodup_toList

end Config

namespace Session

variable {S : Session} {band : Nat} {calls : List TargetCall}

/-- Of what a request draws, the paths. -/
theorem Draws.pathCalls {intent : Intent} (h : S.Draws intent band calls) :
    S.PathCalls band intent (calls.filter TargetCall.isPath) := by
  cases intent with
  | fillRectangle rect color =>
    exact isPath_of_inTurn h fun _ _ hcalls => isPath_of_inBand hcalls isPath_of_fills
  | tileRectangle tile rect colors phase => exact isPath_of_inTurn h fun _ _ => isPath_of_tiles
  | copyMono bitmap name rect colors => exact filter_copies h
  | copyColor bitmap name rect => exact filter_copies h
  | copyAlpha bitmap name rect color depth => exact filter_copies h
  | fillMask bitmap name rect color depth clip => exact filter_copies h
  | fillPath ps path rule color clip => exact pathCalls_of_inTurn (S.config.nodup_fillBands path) h
  | strokePath ps path color clip =>
    exact pathCalls_of_inTurn (S.config.nodup_strokeBands ps path) h
  | setLogicalOp op => exact filter_undrawn h
  | setColorSpace space => exact filter_undrawn h
  | putParams params => exact filter_undrawn h
  | setHalftone halftone => exact filter_undrawn h
  | setTransferMap index map => exact filter_undrawn h
  | beginImage | imageData | endImage | endPage => exact filter_undrawn h

variable {μ ν : Type} [Medium μ] [LawfulMedium μ] [MemoryPolicy μ ν]

/-- Over the partial pages and the last one, replay of a band draws the paths of a page's requests in
turn. -/
theorem page_paths (hS : S.Sound) (hexact : S.terms.exactImager) (hlop : S.lops .default)
    {store : BandStore μ} {memory : ν} {intents : List Intent}
    (hadmits : ∀ i ∈ intents, S.Admits i) {w : Writer μ (Watched μ ν)}
    (hw : w.HasWritten S.config store memory intents) (hband : band < S.config.nbands) :
    ∃ calls, BandStore.transcripts w.stores S.config band = .ok calls ∧
      InTurn (S.PathCalls band) intents (calls.filter TargetCall.isPath) := by
  obtain ⟨calls, drawn, hcalls, hsame, hturn⟩ :=
    page_drawn hS hexact hlop hadmits hw hband
  refine ⟨calls, hcalls, ?_⟩
  have hpaths : ∀ calls : List TargetCall,
      (drawing calls).filter TargetCall.isPath = calls.filter TargetCall.isPath := by
    intro calls
    rw [drawing, List.filter_filter]
    refine List.filter_congr fun call _ => ?_
    cases hpath : call.isPath with
    | false => rfl
    | true => simp [TargetCall.isSetting_of_isPath hpath]
  rw [← hpaths, hsame, hpaths]
  refine (hturn.filter TargetCall.isPath).mono fun i _ some hsome => ?_
  obtain ⟨calls, hcalls, rfl⟩ := hsome
  exact hcalls.pathCalls

end Session

end BandedPage

/-!
## Paths are drawn in the state that they are given

What a band has been told of the imager state is not told it again, whichever request and whichever
band made it change in between. A path is all the same filled or stroked with each field that it
depends on as it was given, with its logical operation and in its clip.
-/

namespace BandedPage

/-- What a path is drawn with is what it was given with, as far as it depends on that. -/
structure DrawnAsGiven (config : Config) (band : Nat) (ps : ImagerState) (fields : FieldSet)
    (clip : Option ClipPath) (shown : ImagerState) (region : Option ClipRegion) : Prop where
  logOp : shown.logOp = ps.logOp
  fields : ∀ f, fields.contains f = true → shown.Agrees ps f
  unclipped : clip = none → region = none
  clipped : ∀ k ∈ clip, k.ShownIn (config.bandRect band) region

def Intent.DrawsPath (config : Config) (band : Nat) : Intent → List TargetCall → Prop
  | fillPath ps path rule _ clip => fun calls =>
    if band ∈ config.fillBands path then ∃ shown sent color region,
      calls = [.fillPath shown sent rule color region] ∧
        DrawnAsGiven config band ps .fill clip shown region
    else calls = []
  | strokePath ps path _ clip => fun calls =>
    if band ∈ config.strokeBands ps path then ∃ shown sent color region,
      calls = [.strokePath shown sent color region] ∧
        DrawnAsGiven config band ps .stroke clip shown region
    else calls = []
  | _ => fun calls => calls = []

namespace Session

variable {config : Config} {q : Terms} {intents : List Intent} {intent : Intent} {band : Nat}
variable {ps : ImagerState} {p : PathDrawing} {rows : RowRange} {calls : List TargetCall}

/-- A path is drawn by one call, in the state that it was given. -/
theorem Paths.drawnAsGiven (hexact : q.exactImager)
    (hadmits : (ofPage config q intents).AdmitsPath ps p) (hintent : intent ∈ intents)
    (hclip : intent.clip? = p.clip) (h : (ofPage config q intents).Paths ps p band rows calls) :
    ∃ source shown sent color region, calls = [pathCall (p.op source) shown sent color region] ∧
      DrawnAsGiven config band ps p.use.required p.clip shown region := by
  obtain ⟨imager, hlogOp, hagrees, origin, source, shown, color, region, rfl, hlop, hfields, -, hnone,
    hsome⟩ := h
  refine ⟨source, shown, _, color, region, rfl, hlop.trans hlogOp, fun f hf => ?_, hnone,
    fun k hk => ?_⟩
  · by_cases hclipField : f = .clip
    · rw [hclipField]
      trivial
    · have hshown := ImagerState.agrees_withField shown imager.sent f
      rw [hfields hexact f hf hclipField] at hshown
      exact (hshown.trans (imager.sent_agrees f)).trans (hagrees f hf)
  · have hk' : p.clip = some k := hk
    have hnamed := clips_ofPage hintent (hclip.trans hk') (hadmits.clip k hk).2
    have hcurrent : (p.clip.bind fun k => (ofPage config q intents).clips k.id) = p.clip := by
      rw [hk']
      exact hnamed
    rw [hsome (by rw [hk']; rfl) hcurrent, hk']
    exact k.shownIn_regionIn _

theorem PathCalls.drawsPath (hexact : q.exactImager)
    (hadmits : (ofPage config q intents).Admits intent) (hintent : intent ∈ intents)
    (h : (ofPage config q intents).PathCalls band intent calls) :
    intent.DrawsPath config band calls := by
  cases intent with
  | fillPath ps path rule color clip =>
    simp only [PathCalls] at h
    split at h
    · next hin =>
      obtain ⟨source, shown, sent, color', region, rfl, hgiven⟩ :=
        Paths.drawnAsGiven hexact hadmits hintent rfl h
      refine (if_pos hin).mpr ⟨shown, sent, color', region, ?_, hgiven⟩
      cases rule <;> rfl
    · next hout => exact (if_neg hout).mpr h
  | strokePath ps path color clip =>
    simp only [PathCalls] at h
    split at h
    · next hin =>
      obtain ⟨source, shown, sent, color', region, rfl, hgiven⟩ :=
        Paths.drawnAsGiven hexact hadmits hintent rfl h
      exact (if_pos hin).mpr ⟨shown, sent, color', region, rfl, hgiven⟩
    · next hout => exact (if_neg hout).mpr h
  | _ => exact h

end Session

variable {μ ν : Type} [Medium μ] [LawfulMedium μ] [MemoryPolicy μ ν]

/-- On a page of any requests, whatever is done to get memory for them, each path is filled or
stroked once in each band that it is sent to, in the imager state and the clip that it was given. -/
theorem paths_are_drawn_as_given {config : Config} (hconfig : config.validate = .ok ())
    (hheight : config.height < 2147483648) (z : PixelRange) {intents : List Intent}
    (hadmits : ∀ i ∈ intents, (Session.ofPage config z.terms intents).Admits i)
    {store : BandStore μ} {memory : ν} {w : Writer μ (Watched μ ν)}
    (hw : w.HasWritten config store memory intents) {band : Nat} (hband : band < config.nbands) :
    ∃ calls, BandStore.transcripts w.stores config band = .ok calls ∧
      InTurn (Intent.DrawsPath config band) intents (calls.filter TargetCall.isPath) := by
  have hS : (Session.ofPage config z.terms intents).Sound :=
    ⟨Config.valid_of_validate hconfig, hheight⟩
  obtain ⟨calls, hcalls, hturn⟩ := Session.page_paths hS trivial trivial hadmits hw hband
  exact ⟨calls, hcalls, hturn.mono fun intent hintent _ h =>
    h.drawsPath trivial (hadmits intent hintent) hintent⟩

def thinState (width : UInt32) : ImagerState :=
  { lineWidth := ⟨width⟩, ctm := { xx := .zero, yy := .zero } }

def shortLine : Path := (({} : Path).moveTo ⟨2560, 2560⟩).lineTo ⟨5120, 5120⟩ 0

def clippedStroke : List Intent :=
  [.strokePath (thinState 0x40000000) shortLine (.pure 1) (some leftHalf),
    .strokePath (thinState 0x3f800000) shortLine (.pure 1) none]

/-- The page had to be flushed before the second band could be told the first stroke. -/
theorem clipped_stroke_is_drawn_as_given :
    (Writer.ofPage smallPage flushedOnce clippedStroke).stores.length = 2 ∧
    ∃ calls, BandStore.transcripts (Writer.ofPage smallPage flushedOnce clippedStroke).stores
      smallPage 1 = .ok calls ∧
      InTurn (Intent.DrawsPath smallPage 1) clippedStroke (calls.filter TargetCall.isPath) := by
  have hvalid : smallPage.validate = .ok () := rfl
  have hwithin : shortLine.Within (smallPixels.terms.fixedRange smallPixels.terms_fine) :=
    Path.within_smallPixels (by decide)
  have hwritten : (Writer.ofPage smallPage flushedOnce clippedStroke).HasWritten _ _ _ _ :=
    Writer.hasWritten_ofPage (by decide +kernel) (by decide +kernel)
  have hadmits : ∀ i ∈ clippedStroke,
      (Session.ofPage smallPage smallPixels.terms clippedStroke).Admits i := by
    intro i hi
    simp only [clippedStroke, List.mem_cons, List.not_mem_nil, or_false] at hi
    rcases hi with rfl | rfl
    · exact {
        fine := smallPixels.terms_fine
        path := hwithin
        fillAdjust := ⟨rfl, rfl⟩
        lop := fun _ => trivial
        color := fun h => h.elim
        clip := fun c hc => by
          cases hc
          exact ⟨leftHalf_within, fun c' hc' => by cases hc'; rfl⟩ }
    · exact {
        fine := smallPixels.terms_fine
        path := hwithin
        fillAdjust := ⟨rfl, rfl⟩
        lop := fun _ => trivial
        color := fun h => h.elim
        clip := fun c hc => by cases hc }
  exact ⟨by decide +kernel, paths_are_drawn_as_given hvalid (by decide) smallPixels hadmits hwritten
    (by decide)⟩

/-! ### A tile of more bits than commands tell -/

def TargetCall.lineWidth? : TargetCall → Option UInt32
  | strokePath state _ _ _ => some state.lineWidth.bits
  | _ => none

/-- Where a path is stroked, a tile is drawn and another path is stroked, the calls tell two line
widths, the ones that were given. -/
theorem InTurn.lineWidths {config : Config} {band : Nat} {ps ps' : ImagerState}
    {path path' : Path} {color color' : DrawingColor} {clip clip' : Option ClipPath} {tile : Tile}
    {r : Rect} {colors : ColorPair} {phase : Phase} {calls : List TargetCall}
    (h : InTurn (Intent.DrawsPath config band) [.strokePath ps path color clip,
      .tileRectangle tile r colors phase, .strokePath ps' path' color' clip'] calls)
    (hin : band ∈ config.strokeBands ps path) (hin' : band ∈ config.strokeBands ps' path') :
    ∃ width width', calls.filterMap TargetCall.lineWidth? = [width, width'] ∧
      Single.Same ⟨width⟩ ps.lineWidth ∧ Single.Same ⟨width'⟩ ps'.lineWidth := by
  obtain ⟨first, _, rfl, hfirst, hafter⟩ := h.exists_append
  obtain ⟨between, _, rfl, hbetween, hafter'⟩ := hafter.exists_append
  obtain ⟨last, rest, rfl, hlast, hend⟩ := hafter'.exists_append
  obtain ⟨shown, sent, color, region, rfl, hgiven⟩ := (if_pos hin).mp hfirst
  obtain ⟨shown', sent', color', region', rfl, hgiven'⟩ := (if_pos hin').mp hlast
  obtain rfl : between = [] := hbetween
  obtain rfl : rest = [] := hend.eq_nil
  exact ⟨shown.lineWidth.bits, shown'.lineWidth.bits, rfl, hgiven.fields .lineWidth rfl,
    hgiven'.fields .lineWidth rfl⟩

/-- Commands tell five bits of a depth, so that a reader takes this tile for one of depth one. What
it does not read of the bits is a command to change the line width. -/
def deepTile : Tile where
  id := 1
  size := { repWidth := 1, repHeight := 1, xReps := 2, depth := 33 }
  data := #[0, 0xd3, 0, 0, 0, 0x41, 0xd8, 0xd8, 0xd8]

def strokesAroundTile : List Intent :=
  [.strokePath (thinState 0x40000000) shortLine (.pure 1) none,
    .tileRectangle deepTile ⟨0, 0, 8, 8⟩ { zero := 0, one := 1 } {},
    .strokePath (thinState 0x40000000) shortLine (.pure 1) none]

/-- The second stroke is drawn with a width that it was not given. -/
theorem deep_tile_changes_stroke :
    (Writer.ofPage smallPage { config := smallPage } strokesAroundTile).HasWritten smallPage
      { commands := {}, index := {} } { config := smallPage } strokesAroundTile ∧
    ¬ ∃ calls, BandStore.transcripts
        (Writer.ofPage smallPage { config := smallPage } strokesAroundTile).stores
        smallPage 0 = .ok calls ∧
      InTurn (Intent.DrawsPath smallPage 0) strokesAroundTile
        (calls.filter TargetCall.isPath) := by
  have hwidths : (BandStore.transcripts
      (Writer.ofPage smallPage { config := smallPage } strokesAroundTile).stores
      smallPage 0).toOption.map (·.filterMap TargetCall.lineWidth?) =
        some [0x40000000, 0x41000000] := by
    decide +kernel
  refine ⟨Writer.hasWritten_ofPage (by decide +kernel) (by decide +kernel), ?_⟩
  rintro ⟨calls, hcalls, hturn⟩
  rw [hcalls] at hwidths
  have hall : (calls.filter TargetCall.isPath).filterMap TargetCall.lineWidth? =
      [0x40000000, 0x41000000] := by
    rw [List.filterMap_filter, ← Option.some.inj hwidths]
    refine List.filterMap_congr fun call _ => ?_
    cases call <;> rfl
  have hin : 0 ∈ smallPage.strokeBands (thinState 0x40000000) shortLine := by decide +kernel
  obtain ⟨width, width', hgiven, -, hsame⟩ := hturn.lineWidths hin hin
  obtain ⟨-, hwidth'⟩ : 0x40000000 = width ∧ 0x41000000 = width' := by
    simpa using hall.symm.trans hgiven
  rw [← hwidth'] at hsame
  rcases hsame with heq | ⟨hnan, -⟩
  · exact absurd heq (by decide)
  · exact absurd hnan (by decide)

end BandedPage
