import Mathlib
import BandedPage.Proofs.Page.Granting

/-!
# Every request is drawn once

When memory runs out in the middle of a request, the page is rendered as far as it was stored, and
what was interrupted is stored again on an empty page. Over all pages together a band draws what it
would have drawn without a limit on memory: nothing is lost, repeated or put in another order.
-/

namespace BandedPage

theorem Matrix.Same.symm {a b : Matrix} (h : a.Same b) : b.Same a :=
  ⟨h.xx.symm, h.xy.symm, h.yx.symm, h.yy.symm, h.tx.symm, h.ty.symm⟩

theorem Dash.Same.symm {a b : Dash} (h : a.Same b) : b.Same a :=
  ⟨(h.pattern.imp fun _ _ h => h.symm).flip, h.offset.symm, h.adapt.symm, h.dotLength.symm,
    h.dotLengthAbsolute.symm⟩

theorem ImagerState.Agrees.symm {a b : ImagerState} {f : StateField} (h : a.Agrees b f) :
    b.Agrees a f := by
  cases f with
  | flatness | lineWidth | miterLimit => exact Single.Same.symm h
  | fillAdjust | alpha => exact Eq.symm h
  | ctm => exact Matrix.Same.symm h
  | capJoin => exact ⟨h.1.symm, h.2.symm⟩
  | curveOptions => exact ⟨h.1.symm, h.2.1.symm, h.2.2.symm⟩
  | dash => exact Dash.Same.symm h
  | clip | colorSpace => trivial

/-- The states agree in some fields and in the logical operation. -/
structure ImagerState.SameFor (fields : FieldSet) (a b : ImagerState) : Prop where
  logOp : a.logOp = b.logOp
  agrees : ∀ f, fields.contains f = true → a.Agrees b f

namespace ImagerState.SameFor

variable {fields : FieldSet} {a b c : ImagerState}

theorem symm (h : a.SameFor fields b) : b.SameFor fields a :=
  ⟨h.logOp.symm, fun f hf => (h.agrees f hf).symm⟩

theorem trans (h : a.SameFor fields b) (h' : b.SameFor fields c) : a.SameFor fields c :=
  ⟨h.logOp.trans h'.logOp, fun f hf => (h.agrees f hf).trans (h'.agrees f hf)⟩

end ImagerState.SameFor

namespace TargetCall

/-- The calls draw the same. Of the imager state of a path only what the drawing depends on counts. -/
inductive Same : TargetCall → TargetCall → Prop
  | refl (call : TargetCall) : Same call call
  | fill {state state' : ImagerState} (h : state.SameFor .fill state') (path : Path)
    (rule : FillRule) (color : DrawingColor) (clip : Option ClipRegion) :
    Same (fillPath state path rule color clip) (fillPath state' path rule color clip)
  | stroke {state state' : ImagerState} (h : state.SameFor .stroke state') (path : Path)
    (color : DrawingColor) (clip : Option ClipRegion) :
    Same (strokePath state path color clip) (strokePath state' path color clip)

theorem forall₂_same_refl (calls : List TargetCall) : List.Forall₂ Same calls calls :=
  List.forall₂_same.mpr fun call _ => .refl call

/-- What is left out as a setting is so on both sides. -/
theorem Same.isSetting_eq {call call' : TargetCall} (h : call.Same call') :
    call.isSetting = call'.isSetting := by
  cases h <;> rfl

end TargetCall

theorem forall₂_drawing {calls calls' : List TargetCall}
    (h : List.Forall₂ TargetCall.Same calls calls') :
    List.Forall₂ TargetCall.Same (drawing calls) (drawing calls') := by
  induction h with
  | nil => exact .nil
  | @cons call call' calls calls' hsame _ ih =>
    simp only [drawing, List.filter_cons, hsame.isSetting_eq] at ih ⊢
    split
    · exact .cons hsame ih
    · exact ih

/-- All that counts of the calls follows from `P`. -/
def Determines (P : List TargetCall → Prop) : Prop :=
  ∀ calls calls', P calls → P calls' → List.Forall₂ TargetCall.Same calls calls'

namespace Determines

variable {P : List TargetCall → Prop}

theorem of_eq {made : List TargetCall} (h : ∀ calls, P calls → calls = made) : Determines P := by
  intro calls calls' hcalls hcalls'
  rw [h calls hcalls, h calls' hcalls']
  exact TargetCall.forall₂_same_refl made

theorem inBand (h : Determines P) (b band : Nat) : Determines (InBand b P band) := by
  intro calls calls' hcalls hcalls'
  rw [InBand] at hcalls hcalls'
  split at hcalls
  · next heq =>
    rw [if_pos heq] at hcalls'
    exact h _ _ hcalls hcalls'
  · next hne =>
    rw [if_neg hne] at hcalls'
    rw [hcalls, hcalls']
    exact .nil

/-- What each of some items in turn makes is determined if each of them determines its part. -/
theorem inTurn {ι : Type} {P : ι → List TargetCall → Prop} {items : List ι}
    (h : ∀ i ∈ items, Determines (P i)) : Determines (InTurn P items) := by
  intro calls calls' hcalls hcalls'
  induction hcalls generalizing calls' with
  | nil =>
    rw [hcalls'.eq_nil]
    exact .nil
  | cons hfirst _ ih =>
    obtain ⟨first', rest', rfl, hfirst', hrest'⟩ := hcalls'.exists_append
    exact List.rel_append (h _ List.mem_cons_self _ _ hfirst hfirst')
      (ih (fun i hi => h i (List.mem_cons_of_mem _ hi)) _ hrest')

end Determines

/-- Settings that show the same and have the same clip copy a bitmap in the same way, unless it is
painted with a tile. -/
theorem PaintSettings.copyCalls_eq {q : Terms} {config : Config} {v v' : PaintSettings}
    {paint : CopyPaint} (hexact : q.exactColors) (hplain : paint.Plain)
    (h : paint.ShownAs q config v) (h' : paint.ShownAs q config v') (hclip : v.clip = v'.clip)
    (box : Rect) (bits : Bitmap) (rect : Rect) :
    v.copyCalls box paint bits rect = v'.copyCalls box paint bits rect := by
  have hvisible : v.visible box rect = v'.visible box rect := by
    rw [visible, visible, hclip]
  cases paint with
  | mono colors => simp only [copyCalls, hvisible, h hexact, h' hexact]
  | deep => simp only [copyCalls, hvisible]
  | coverage color depth => simp only [copyCalls, hvisible, h hexact, h' hexact]
  | halftone tile colors phase => exact absurd rfl (hplain tile colors phase)

/-- A copy without a name and a clip is drawn in one way. -/
theorem BitmapCopy.determines_drawnBy {c : BitmapCopy} {q : Terms} {config : Config} {band : Nat}
    (hexact : q.exactColors) (hname : c.name = none) (hclip : c.clip = none)
    (hplain : c.paint.Plain) :
    Determines fun calls => ∃ lop, c.DrawnBy q config lop band calls := by
  rintro calls calls' ⟨lop, h⟩ ⟨lop', h'⟩
  have hpieces : ∀ {lop : LogicalOp} {calls : List TargetCall}, c.DrawnBy q config lop band calls →
      ∃ v : PaintSettings, v.For q config lop band c ∧
        calls = (c.pieces config).flatMap fun p => v.copyCalls (config.bandRect band) c.paint
          (c.pieceBitmap config p.1 p.2) (pieceRect p.1 p.2).toRect := by
    intro lop calls h
    cases h with
    | pieces hv _ => exact ⟨_, hv, rfl⟩
    | cached _ hid =>
      rw [hname] at hid
      cases hid
  obtain ⟨v, hv, rfl⟩ := hpieces h
  obtain ⟨v', hv', rfl⟩ := hpieces h'
  have hsame := PaintSettings.copyCalls_eq hexact hplain hv.shown hv'.shown
    ((hv.clip_none hclip).trans (hv'.clip_none hclip).symm)
  simp only [hsame]
  exact TargetCall.forall₂_same_refl _

/-! ### Requests -/

/-- The session of a page on which nothing but the default logical operation is used. -/
def Session.ofPlainPage (config : Config) (z : PixelRange) (intents : List Intent) : Session :=
  { Session.ofPage config (z.terms True) intents with lops := (· = .default) }

namespace Session

variable {config : Config} {z : PixelRange} {intents : List Intent} {band : Nat}
variable {ps : ImagerState} {p : PathDrawing}

theorem determines_fills (part : Rect) (color : Color) :
    Determines ((ofPlainPage config z intents).Fills band part color) := by
  have hmade : ∀ calls, (ofPlainPage config z intents).Fills band part color calls → calls =
      (part.intersect (config.bandRect band)).toList.map fun piece => .fillRectangle piece color := by
    rintro _ ⟨b, hlop, henabled, hcolor, rfl⟩
    have hnone : b.lopEnabled = false := by
      rw [henabled, show b.lop = .default from hlop trivial]
      rfl
    have hcall : fillCall b = fun piece => .fillRectangle piece color := by
      funext piece
      rw [fillCall, hnone, hcolor trivial]
      rfl
    rw [hcall]
    rfl
  exact .of_eq hmade

theorem determines_copies {c : BitmapCopy} (hname : c.name = none) (hclip : c.clip = none)
    (hplain : c.paint.Plain) : Determines ((ofPlainPage config z intents).Copies c band) := by
  refine .inTurn fun part _ => .inBand ?_ _ _
  have hunnamed : (c.restrict part.2).name = none := by
    simp only [BitmapCopy.restrict, hname, ite_self]
  rintro calls calls' ⟨lop, -, h⟩ ⟨lop', -, h'⟩
  exact BitmapCopy.determines_drawnBy trivial hunnamed hclip hplain _ _ ⟨lop, h⟩ ⟨lop', h'⟩

/-- A plain path is drawn as it was given, wherever the reader's pen was. -/
theorem Paths.eq_call {rows : RowRange} {calls : List TargetCall} {intent : Intent}
    (hp : p.IsPlain ps) (hadmits : (ofPlainPage config z intents).AdmitsPath ps p)
    (hintent : intent ∈ intents) (hclip : intent.clip? = p.clip)
    (h : (ofPlainPage config z intents).Paths ps p band rows calls) :
    ∃ source shown, calls = [pathCall (p.op source) shown
        (BandWalk.sentPath ⟨0, 0⟩ rows p.use p.path) p.color
        (p.clip.bind (·.regionIn (config.bandRect band)))] ∧
      shown.SameFor p.use.required ps := by
  obtain ⟨imager, hlogOp, hagrees, origin, source, shown, color, region, rfl, hlop, hfields,
    hcolor, hnone, hsome⟩ := h
  have hpath := BandWalk.sentPath_eq_of_isBuilt hp.built hp.moves origin ⟨0, 0⟩ rows p.use
  have hcolor' : color = p.color := by
    obtain ⟨c, hc⟩ := hp.pure
    rw [hc] at hcolor ⊢
    cases color with
    | pure shown => rw [show shown = c from hcolor trivial]
    | halftone | colored => exact hcolor.elim
  have hregion : region = p.clip.bind (·.regionIn (config.bandRect band)) := by
    cases hk : p.clip with
    | none => exact hnone hk
    | some k =>
      have hnamed : (ofPage config (z.terms True) intents).clips k.id = some k :=
        clips_ofPage hintent (hclip.trans hk) (hadmits.clip k hk).2
      have hcurrent : (p.clip.bind fun k => (ofPlainPage config z intents).clips k.id) = p.clip := by
        rw [hk]
        exact hnamed
      rw [hsome (by rw [hk]; rfl) hcurrent, hk]
      rfl
  refine ⟨source, shown, by rw [hpath, hcolor', hregion], hlop.trans hlogOp, fun f hf => ?_⟩
  by_cases hclipField : f = .clip
  · rw [hclipField]
    trivial
  · have hshown := ImagerState.agrees_withField shown imager.sent f
    rw [hfields trivial f hf hclipField] at hshown
    exact (hshown.trans (imager.sent_agrees f)).trans (hagrees f hf)

/-- Everything that counts of what plain requests draw is determined. -/
theorem determines_draws {intent : Intent} (hplain : intent.IsPlain)
    (hadmits : (ofPlainPage config z intents).Admits intent) (hintent : intent ∈ intents) :
    Determines ((ofPlainPage config z intents).Draws intent band) := by
  cases intent with
  | fillRectangle rect color => exact .inTurn fun part _ => (determines_fills _ _).inBand _ _
  | copyMono bitmap name rect colors =>
    exact determines_copies hplain rfl fun _ _ _ h => by cases h
  | copyColor bitmap name rect => exact determines_copies hplain rfl fun _ _ _ h => by cases h
  | copyAlpha bitmap name rect color depth =>
    exact determines_copies hplain rfl fun _ _ _ h => by cases h
  | fillPath ps path rule color clip =>
    refine .inTurn fun b _ => .inBand ?_ _ _
    intro calls calls' h h'
    obtain ⟨source, shown, rfl, hsame⟩ := Paths.eq_call hplain hadmits hintent rfl h
    obtain ⟨source', shown', rfl, hsame'⟩ := Paths.eq_call hplain hadmits hintent rfl h'
    refine .cons ?_ .nil
    cases rule with
    | nonZero => exact .fill (hsame.trans hsame'.symm) _ _ _ _
    | evenOdd => exact .fill (hsame.trans hsame'.symm) _ _ _ _
  | strokePath ps path color clip =>
    refine .inTurn fun b _ => .inBand ?_ _ _
    intro calls calls' h h'
    obtain ⟨source, shown, rfl, hsame⟩ := Paths.eq_call hplain hadmits hintent rfl h
    obtain ⟨source', shown', rfl, hsame'⟩ := Paths.eq_call hplain hadmits hintent rfl h'
    exact .cons (.stroke (hsame.trans hsame'.symm) _ _ _) .nil
  | tileRectangle | fillMask | setLogicalOp | setColorSpace | putParams | setHalftone
  | setTransferMap | beginImage | imageData | endImage | endPage => exact hplain.elim

end Session

/-! ### Pages -/

theorem MemoryPolicy.grants_unlimited {μ : Type} : MemoryPolicy.Grants μ Unlimited :=
  fun _ memory => ⟨memory, rfl⟩

/-- Replay of a band draws the same from some stored pages, one after another, as from others. -/
def BandStore.DrawAlike {μ : Type} [Medium μ] (config : Config) (band : Nat)
    (stores stores' : List (BandStore μ)) : Prop :=
  ∃ calls calls', transcripts stores config band = .ok calls ∧
    transcripts stores' config band = .ok calls' ∧
    List.Forall₂ TargetCall.Same (drawing calls) (drawing calls')

variable {μ ν : Type} [Medium μ] [LawfulMedium μ] [MemoryPolicy μ ν]

/-- A page of plain requests that was written with whatever memory there was is written without a
limit on memory too, and all of its pages together draw in each band the same as that one, in the
same order. -/
theorem page_is_drawn_once {config : Config} (hconfig : config.validate = .ok ())
    (hheight : config.height < 2147483648) (z : PixelRange) {intents : List Intent}
    (hplain : ∀ i ∈ intents, i.IsPlain)
    (hadmits : ∀ i ∈ intents, (Session.ofPlainPage config z intents).Admits i)
    {store : BandStore μ} {memory : ν} {w : Writer μ (Watched μ ν)}
    (hw : w.HasWritten config store memory intents) {w' : Writer μ (Watched μ Unlimited)}
    (hw' : w' = (Intent.serveAll (intents ++ [.endPage]) (.onEmptyPage config store {})).2)
    (hlength : ∀ store ∈ w'.stores, store.commandLength < 9223372036854775808) :
    w'.HasWritten config store {} intents ∧
      ∀ band < config.nbands, BandStore.DrawAlike config band w.stores w'.stores := by
  have hS : (Session.ofPlainPage config z intents).Sound :=
    ⟨Config.valid_of_validate hconfig, hheight⟩
  have hsend := Session.canSend_of_serveAll hS hadmits hplain
    (Writer.inSession_onEmptyPage hS hw.empty memory rfl) fun answer hanswer =>
      hw.granted answer (by
        rw [Intent.serveAll_append]
        exact List.mem_append_left _ hanswer)
  have hgranted := Session.serveAll_granted hS MemoryPolicy.grants_unlimited hadmits hplain hsend
    (Writer.inSession_onEmptyPage hS hw.empty {} rfl)
  have hwritten := Session.hasWritten hS trivial rfl hw.empty hadmits hgranted hw' hlength
  refine ⟨hwritten, fun band hband => ?_⟩
  obtain ⟨calls, drawn, hcalls, hdrawn, hturn⟩ :=
    Session.page_drawn hS trivial rfl hadmits hw hband
  obtain ⟨calls', drawn', hcalls', hdrawn', hturn'⟩ :=
    Session.page_drawn hS trivial rfl hadmits hwritten hband
  refine ⟨calls, calls', hcalls, hcalls', ?_⟩
  rw [hdrawn, hdrawn']
  exact forall₂_drawing (Determines.inTurn (fun intent hintent =>
    Session.determines_draws (hplain intent hintent) (hadmits intent hintent) hintent) _ _
      hturn hturn')

/-- A triangle over both bands of a small page. -/
def wideTriangle : Path :=
  (((({} : Path).moveTo ⟨1000, 1000⟩).lineTo ⟨12000, 1000⟩ 0).lineTo ⟨1000, 7000⟩ 0).closeSubpath

def clippedFill : List Intent :=
  [.fillRectangle ⟨8, 4, 40, 28⟩ 5, .fillPath {} wideTriangle .nonZero (.pure 3) (some leftHalf)]

/-- The page had to be flushed before the second band could be told of the rectangle. -/
theorem clipped_fill_is_drawn_once :
    (Writer.ofPage smallPage flushedOnce clippedFill).stores.length = 2 ∧
    ∀ w' : Writer MemoryMedium (Watched MemoryMedium Unlimited),
      w' = (Intent.serveAll (clippedFill ++ [.endPage]) (.onEmptyPage smallPage
        { commands := {}, index := {} } {})).2 →
      w'.HasWritten smallPage { commands := {}, index := {} } {} clippedFill ∧
      ∀ band < smallPage.nbands, BandStore.DrawAlike smallPage band
        (Writer.ofPage smallPage flushedOnce clippedFill).stores w'.stores := by
  have hvalid : smallPage.validate = .ok () := rfl
  have hplain : (PathDrawing.ofFill wideTriangle .nonZero (.pure 3) (some leftHalf)).IsPlain {} := {
    lop := rfl
    built := .closeSubpath (.lineTo (.lineTo (.moveTo .empty _) _ _) _ _)
    moves := by
      have hsegments : wideTriangle.segments =
        #[.move ⟨1000, 1000⟩, .line ⟨12000, 1000⟩ 0, .line ⟨1000, 7000⟩ 0, .close] := rfl
      simp [PathDrawing.ofFill, Path.MovesAfterCloses, hsegments]
    pure := ⟨3, rfl⟩ }
  have hwritten : (Writer.ofPage smallPage flushedOnce clippedFill).HasWritten _ _ _ _ :=
    Writer.hasWritten_ofPage (by decide +kernel) (by decide +kernel)
  have hadmits : ∀ i ∈ clippedFill,
      (Session.ofPlainPage smallPage smallPixels clippedFill).Admits i := by
    intro i hi
    simp only [clippedFill, List.mem_cons, List.not_mem_nil, or_false] at hi
    rcases hi with rfl | rfl
    · refine ⟨fun r hr => ?_, fun _ => .inr (by decide)⟩
      cases hr
      constructor <;> exact ⟨by decide, by decide, by decide, by decide⟩
    · exact {
        fine := smallPixels.terms_fine
        path := Path.within_smallPixels (by decide)
        fillAdjust := ⟨rfl, rfl⟩
        lop := fun _ => rfl
        color := fun _ => .inr (by decide)
        clip := fun c hc => by
          cases hc
          exact ⟨leftHalf_within, fun c' hc' => by cases hc'; rfl⟩ }
  refine ⟨by decide +kernel, fun w' hw' => page_is_drawn_once hvalid (by decide) smallPixels
    (fun i hi => ?_) hadmits hwritten hw' ?_⟩
  · simp only [clippedFill, List.mem_cons, List.not_mem_nil, or_false] at hi
    rcases hi with rfl | rfl
    · trivial
    · exact hplain
  · rw [hw']
    decide +kernel

/-! ### Where memory shows -/

def TargetCall.fillColor? : TargetCall → Option Color
  | fillRectangle _ color => some color
  | _ => none

theorem BandStore.DrawAlike.fillColors_eq {μ : Type} [Medium μ] {config : Config} {band : Nat}
    {stores stores' : List (BandStore μ)} (h : DrawAlike config band stores stores') :
    (transcripts stores config band).toOption.map (·.filterMap TargetCall.fillColor?) =
      (transcripts stores' config band).toOption.map (·.filterMap TargetCall.fillColor?) := by
  obtain ⟨calls, calls', hcalls, hcalls', hsame⟩ := h
  have hdrawing : ∀ calls : List TargetCall,
      (drawing calls).filterMap TargetCall.fillColor? = calls.filterMap TargetCall.fillColor? := by
    intro calls
    rw [drawing, List.filterMap_filter]
    refine List.filterMap_congr fun call _ => ?_
    cases call <;> rfl
  have hall : ∀ {calls calls' : List TargetCall}, List.Forall₂ TargetCall.Same calls calls' →
      calls.filterMap TargetCall.fillColor? = calls'.filterMap TargetCall.fillColor? := by
    intro calls calls' hsame
    induction hsame with
    | nil => rfl
    | cons hcall _ ih => cases hcall <;> simp [List.filterMap_cons, TargetCall.fillColor?, ih]
  have hcolors := hall hsame
  rw [hdrawing, hdrawing] at hcolors
  rw [hcalls, hcalls']
  exact congrArg some hcolors

/-- Two rectangles, the second one in a color of more bits than those of a small page have. -/
def deepFill : List Intent :=
  [.fillRectangle ⟨0, 0, 8, 8⟩ 5, .fillRectangle ⟨0, 8, 8, 12⟩ 0xfffffffffffffffd]

/-- A page that is as wide as pages can be. -/
def farPage : Config := { smallPage with width := 2147483647 }

/-- A rectangle at the right edge of the page, and a triangle in a clip far to the left of it. -/
def farFill : List Intent :=
  [.fillRectangle ⟨2147483640, 0, 2147483647, 8⟩ 5, .fillPath {} wideTriangle .nonZero (.pure 3)
    (some { id := 1, rects := [⟨-2147483645, 0, -2147483638, 8⟩] })]

/-- On an empty page the deep color is told by its difference to no color, as it is, and after
another color in full, where it is cut off. Two positions that are too far apart for their difference
are read back on different pages only. -/
theorem memory_shows :
    (Writer.ofPage smallPage flushedOnce deepFill).HasWritten smallPage
      { commands := {}, index := {} } flushedOnce deepFill ∧
    (Writer.ofPage smallPage { config := smallPage } deepFill).HasWritten smallPage
      { commands := {}, index := {} } { config := smallPage } deepFill ∧
    ¬ BandStore.DrawAlike smallPage 0 (Writer.ofPage smallPage flushedOnce deepFill).stores
      (Writer.ofPage smallPage { config := smallPage } deepFill).stores ∧
    (Writer.ofPage farPage { flushedOnce with config := farPage } farFill).HasWritten farPage
      { commands := {}, index := {} } { flushedOnce with config := farPage } farFill ∧
    (Writer.ofPage farPage { config := farPage } farFill).HasWritten farPage
      { commands := {}, index := {} } { config := farPage } farFill ∧
    ¬ BandStore.DrawAlike farPage 0
      (Writer.ofPage farPage { flushedOnce with config := farPage } farFill).stores
      (Writer.ofPage farPage { config := farPage } farFill).stores := by
  refine ⟨Writer.hasWritten_ofPage (by decide +kernel) (by decide +kernel),
    Writer.hasWritten_ofPage (by decide +kernel) (by decide +kernel), fun h => ?_,
    Writer.hasWritten_ofPage (by decide +kernel) (by decide +kernel),
    Writer.hasWritten_ofPage (by decide +kernel) (by decide +kernel), fun h => ?_⟩
  · exact absurd h.fillColors_eq (by decide +kernel)
  · exact absurd h.fillColors_eq (by decide +kernel)

end BandedPage
