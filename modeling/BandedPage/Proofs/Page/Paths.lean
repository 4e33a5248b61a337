import Mathlib
import BandedPage.Proofs.Page.Rectangles

/-!
# Paths in a session

A path is drawn in each of its bands with the imager state and the clip that it was given, which are
current by then.
-/

namespace BandedPage

/-- Whichever clip is current, a path without one is drawn in the same way. -/
theorem PathDrawing.DrawnBy.withClip {p : PathDrawing} {q : Terms} {config : Config}
    {imager : ImagerState} {band : Nat} {rows : RowRange} {clip clip' : Option ClipPath}
    {calls : List TargetCall} (h : p.DrawnBy { q with clip } config imager band rows calls)
    (hclip : p.clip.isSome = true → clip = clip') :
    p.DrawnBy { q with clip := clip' } config imager band rows calls := by
  obtain ⟨origin, source, shown, color, region, hcalls, hlop, hfields, hcolor, hnone, hsome⟩ :=
    h.exists_call
  refine ⟨origin, source, shown, color, region, hcalls, hlop, hfields, hcolor, hnone,
    fun his hcurrent => hsome his ?_⟩
  exact (hclip his).trans hcurrent

def PathDrawing.ofFill (path : Path) (rule : FillRule) (color : DrawingColor)
    (clip : Option ClipPath) : PathDrawing where
  path := path
  use := .fill
  op := match rule with
    | .nonZero => PathOp.fill
    | .evenOdd => PathOp.evenOddFill
  color := color
  clip := clip

def PathDrawing.ofStroke (path : Path) (color : DrawingColor) (clip : Option ClipPath) :
    PathDrawing where
  path := path
  use := .stroke
  op := .stroke
  color := color
  clip := clip

namespace Config

def fillBands (config : Config) (path : Path) : List Nat :=
  match path.rowSpan with
  | none => []
  | some (y, height) =>
    (config.bandsFor (y - 1) (y + height + 1 - (y - 1))).elim [] BandRange.toList

/-- The rows in which a band is sent a path to fill. -/
def fillRows (config : Config) (path : Path) (band : Nat) : RowRange :=
  match path.rowSpan with
  | none => .everything
  | some (y, height) => ⟨.ofPixel (max ((config.bandRect band).y1 - 1) (y - 1)),
    .ofPixel (min ((config.bandRect band).y2 + 1) (y + height + 1))⟩

def strokeBands (config : Config) (ps : ImagerState) (path : Path) : List Nat :=
  match path.rowSpan, ps.strokeReach with
  | none, _ => []
  | some _, none => config.allBands.toList
  | some (y, height), some reach =>
    (config.bandsFor (y - reach) (height + 2 * reach)).elim [] BandRange.toList

def strokeRows (config : Config) (ps : ImagerState) (band : Nat) : RowRange :=
  match ps.strokeReach with
  | none => .everything
  | some reach =>
    if ps.dash.pattern.isEmpty then
      ⟨.ofPixel ((config.bandRect band).y1 - reach), .ofPixel ((config.bandRect band).y2 + reach)⟩
    else .everything

theorem lt_of_mem_bandsFor {config : Config} (h : config.Valid) {y height : Int} {band : Nat}
    (hband : band ∈ (config.bandsFor y height).elim [] BandRange.toList) : band < config.nbands := by
  cases hbands : config.bandsFor y height with
  | none =>
    rw [hbands] at hband
    exact absurd hband List.not_mem_nil
  | some bands =>
    rw [hbands] at hband
    have hin := (BandRange.mem_toList bands band).mp hband
    simp only [BandRange.contains, Bool.and_eq_true, decide_eq_true_eq] at hin
    exact Nat.lt_of_le_of_lt hin.2 (h.bandsFor_lt hbands).2

theorem Valid.lt_of_mem_allBands {config : Config} (h : config.Valid) {band : Nat}
    (hband : band ∈ config.allBands.toList) : band < config.nbands := by
  have hin := (BandRange.mem_toList config.allBands band).mp hband
  simp only [BandRange.contains, Bool.and_eq_true, decide_eq_true_eq] at hin
  exact Nat.lt_of_le_of_lt hin.2 (Nat.sub_lt h.nbands_pos Nat.one_pos)

end Config

variable {μ ν : Type} [Medium μ] [LawfulMedium μ] [MemoryPolicy μ ν]

namespace Session

variable {S : Session} {clip : Option ClipPath} {imager ps : ImagerState} {p : PathDrawing}

/-- A path that can be told, with the imager state to draw it with. -/
structure AdmitsPath (S : Session) (ps : ImagerState) (p : PathDrawing) : Prop where
  fine : S.terms.Fine
  path : p.path.Within (S.terms.fixedRange fine)
  fillAdjust : Word.fits32 ps.fillAdjust.x = true ∧ Word.fits32 ps.fillAdjust.y = true
  lop : S.terms.exactImager → S.lops ps.logOp
  color : p.color.Fits S.terms S.config
  clip : ∀ clip ∈ p.clip, clip.Within S.terms ∧ ∀ c' ∈ S.clips clip.id, c' = clip

/-- The call that draws a path in a band with this imager state. -/
def Paths (S : Session) (ps : ImagerState) (p : PathDrawing) (band : Nat) (rows : RowRange)
    (calls : List TargetCall) : Prop :=
  ∃ imager : ImagerState, imager.logOp = ps.logOp ∧
    (∀ f, p.use.required.contains f = true → imager.Agrees ps f) ∧
    p.DrawnBy (S.on (p.clip.bind fun k => S.clips k.id)) S.config imager band rows calls

theorem makes_pathBand (hS : S.Sound) (hp : S.AdmitsPath ps p)
    (hop : ∀ source, (p.op source).source = source) (himager : imager.Sendable)
    (hlop : imager.logOp = ps.logOp)
    (hagrees : ∀ f, p.use.required.contains f = true → imager.Agrees ps f)
    (hclip : p.clip.isSome = true → clip = p.clip.bind fun k => S.clips k.id) {band : Nat}
    (hband : band < S.config.nbands) (rows : RowRange) :
    Makes (S.on clip) S.config (S.Current (μ := μ) (ν := ν) clip imager)
      (Writer.withRecovery (WriterState.pathBand band p rows))
      (InBand band (S.Paths ps p band rows)) := by
  refine makes_withRecovery hS (WriterState.rendersNothing_pathBand band p rows)
    fun s calls hconfig hcurrent hsynced hready => ?_
  have htells := hsynced.pathBand (hconfig ▸ hband) (p := p) (hcurrent ▸ himager)
    hready.space hp.fine hp.path hop (hconfig ▸ on_color hp.color)
    (fun c hc => on_clip (hp.clip c hc).1) (fun c hc c' hc' => ?_) rows
  · refine htells.mono fun more hmore => ?_
    rw [hconfig, hcurrent] at hmore
    exact ⟨imager, hlop, hagrees, hmore.withClip hclip⟩
  · have hc₀ : p.clip = some c := hc
    have hnow : clip = S.clips c.id := by
      rw [hclip (by rw [hc₀]; rfl), hc₀]
      rfl
    exact (hp.clip c hc).2 c' (hnow ▸ hc')

theorem makes_drawPath (hS : S.Sound) (hp : S.AdmitsPath ps p)
    (hop : ∀ source, (p.op source).source = source) (himager : imager.Sendable)
    (hlop : imager.logOp = ps.logOp)
    (hagrees : ∀ f, p.use.required.contains f = true → imager.Agrees ps f)
    (hclip : p.clip.isSome = true → clip = p.clip.bind fun k => S.clips k.id)
    {bands : Option BandRange} (hbands : ∀ band ∈ bands.elim [] BandRange.toList, band < S.config.nbands)
    (rows : Rect → RowRange) :
    Makes (S.on clip) S.config (S.Current (μ := μ) (ν := ν) clip imager) (Writer.drawPath p bands rows)
      fun band => InTurn (fun b => InBand b (S.Paths ps p b (rows (S.config.bandRect b))) band)
        (bands.elim [] BandRange.toList) := by
  refine .get_bind fun w hw => ?_
  rw [hw.1.config_eq]
  exact Makes.forM fun band hband => makes_pathBand hS hp hop himager hlop hagrees hclip
    (hbands band hband) (rows (S.config.bandRect band))

end Session

namespace Writer.InSession

variable {S : Session} {clip : Option ClipPath} {w : Writer μ (Watched μ ν)} {ps : ImagerState}
variable {drawn : Nat → List TargetCall} {p : PathDrawing}

omit [MemoryPolicy μ ν] in
/-- An imager state becomes current as far as it is selected. -/
theorem updateImager (h : w.InSession S clip drawn) {selected : FieldSet}
    (hadjust : Word.fits32 ps.fillAdjust.x = true ∧ Word.fits32 ps.fillAdjust.y = true)
    (hlop : S.terms.exactImager → S.lops ps.logOp) :
    Meets (onState (WriterState.updateImager ps selected)) w
      (fun _ w' => w'.InSession S clip drawn ∧ w'.state.imager.logOp = ps.logOp ∧
        ∀ f, selected.contains f = true → w'.state.imager.Agrees ps f)
      fun _ w' => ¬ S.terms.exactImager → w'.InSession S clip drawn := by
  have hrenders := (WriterState.rendersNothing_updateImager (ν := ν) ps selected) w.state
  obtain ⟨calls₀, hcalls₀, -⟩ := h.told.extend
  have hmeets := fun calls (hcalls : Synced (S.on clip) w.state calls) =>
    hcalls.updateImager ps selected
  obtain ⟨htold, hready⟩ := h
  cases hrun : WriterState.updateImager ps selected w.state with
  | ok u s =>
    obtain ⟨imager, changed, hs, hlogOp, hagrees, hsendable, -⟩ := (hmeets calls₀ hcalls₀).ok hrun
    rw [hrun] at hrenders
    have hrun' : onState (WriterState.updateImager ps selected) w = .ok () ⟨s, false⟩ := by
      rw [onState_of_ok hrun, htold.enabled]
    have hready' : s.Ready S clip := by
      rw [hs]
      exact { hready with
        imager := hsendable hready.imager hadjust
        lop := fun hexact => hlogOp.symm ▸ hlop hexact
        page := { hready.page with } }
    have hsynced : ∀ calls, Synced (S.on clip) w.state calls → Synced (S.on clip) s calls := by
      intro calls hcalls
      obtain ⟨-, -, -, -, -, -, hsynced⟩ := (hmeets calls hcalls).ok hrun
      exact hsynced
    refine .of_ok hrun' ⟨⟨htold.keep hready'.config_eq hrenders hsynced, hready'⟩, ?_, ?_⟩
    · rw [hs]
      exact hlogOp
    · rw [hs]
      exact hagrees
  | error e s =>
    obtain ⟨imager, hs, hsendable, -⟩ := (hmeets calls₀ hcalls₀).error hrun
    rw [hrun] at hrenders
    have hrun' : onState (WriterState.updateImager ps selected) w = .error e ⟨s, false⟩ := by
      simp only [onState, hrun, htold.enabled]
    refine .of_error hrun' fun hexact => ?_
    have hready' : s.Ready S clip := by
      rw [hs]
      exact { hready with
        imager := hsendable hready.imager hadjust
        lop := fun h => absurd h hexact
        page := { hready.page with } }
    have hsynced : ∀ calls, Synced (S.on clip) w.state calls → Synced (S.on clip) s calls := by
      intro calls hcalls
      obtain ⟨-, -, -, hsynced⟩ := (hmeets calls hcalls).error hrun
      exact hsynced hexact
    exact ⟨htold.keep hready'.config_eq hrenders hsynced, hready'⟩

omit [MemoryPolicy μ ν] in
/-- The imager state and the clip of a path become current. -/
theorem useForPath (h : w.InSession S clip drawn) (hp : S.AdmitsPath ps p) :
    Meets (Writer.useForPath ps p) w
      (fun _ w' => w'.state.imager.logOp = ps.logOp ∧
        (∀ f, p.use.required.contains f = true → w'.state.imager.Agrees ps f) ∧
        ∃ clip', w'.InSession S clip' drawn ∧
          (p.clip.isSome = true → clip' = p.clip.bind fun k => S.clips k.id))
      fun _ w' => ¬ S.terms.exactImager → w'.InSession S clip drawn := by
  refine Meets.bind (h.updateImager hp.fillAdjust hp.lop) fun _ w₁ h₁ => ?_
  obtain ⟨hw₁, hlogOp, hagrees⟩ := h₁
  have hrun : Writer.update (·.useClip p.clip) w₁ = .ok () ⟨w₁.state.useClip p.clip, w₁.disabled⟩ :=
    rfl
  have himager : (w₁.state.useClip p.clip).imager = w₁.state.imager := by
    cases p.clip with
    | none => rfl
    | some k =>
      simp only [WriterState.useClip]
      split <;> rfl
  rw [hw₁.told.enabled] at hrun
  refine .of_ok hrun ⟨himager ▸ hlogOp, himager ▸ hagrees, _, hw₁.useClip p.clip, fun hsome => ?_⟩
  obtain ⟨k, hk⟩ := Option.isSome_iff_exists.mp hsome
  rw [hk]
  rfl

end Writer.InSession

namespace Session

variable {S : Session} {ps : ImagerState} {p : PathDrawing} {path : Path} {color : DrawingColor}
variable {clip : Option ClipPath}

/-- A path is drawn once its imager state and its clip are current. -/
theorem serves_path (hS : S.Sound) (hp : S.AdmitsPath ps p)
    (hop : ∀ source, (p.op source).source = source) (bands : Config → Option BandRange)
    (hbands : ∀ band ∈ (bands S.config).elim [] BandRange.toList, band < S.config.nbands)
    (rows : Rect → RowRange) :
    S.Serves (Writer.useForPath ps p >>= fun _ => get >>= fun w : Writer μ (Watched μ ν) =>
        Writer.drawPath p (bands w.state.config) rows) fun band =>
      InTurn (fun b => InBand b (S.Paths ps p b (rows (S.config.bandRect b))) band)
        ((bands S.config).elim [] BandRange.toList) := by
  intro current w drawn hw
  refine Meets.bind ((hw.useForPath hp).mono (fun _ _ h => h)
    fun _ w' h' => .inr fun hexact => ⟨_, _, h' hexact⟩) fun _ w' h' => ?_
  obtain ⟨hlogOp, hagrees, clip', hw', hclip⟩ := h'
  refine .get_bind ?_
  rw [hw'.ready.config_eq]
  exact (makes_drawPath hS hp hop hw'.ready.imager hlogOp hagrees hclip hbands rows).answers hw'

end Session

namespace Writer

variable {ps : ImagerState} {path : Path} {color : DrawingColor} {clip : Option ClipPath}
variable {y height reach : Int}

omit [LawfulMedium μ] in
theorem fillPath_eq (hspan : path.rowSpan = some (y, height)) (rule : FillRule) :
    (fillPath ps path rule color clip : WriterM μ ν Unit) = check >>= fun _ =>
      useForPath ps (.ofFill path rule color clip) >>= fun _ => get >>= fun w =>
        drawPath (.ofFill path rule color clip)
          (w.state.config.bandsFor (y - 1) (y + height + 1 - (y - 1))) fun area =>
            ⟨.ofPixel (max (area.y1 - 1) (y - 1)), .ofPixel (min (area.y2 + 1) (y + height + 1))⟩ := by
  cases rule <;> simp only [fillPath, hspan, PathDrawing.ofFill]

omit [LawfulMedium μ] in
theorem strokePath_eq_of_none (hspan : path.rowSpan = some (y, height))
    (hreach : ps.strokeReach = none) :
    (strokePath ps path color clip : WriterM μ ν Unit) = check >>= fun _ =>
      useForPath ps (.ofStroke path color clip) >>= fun _ => get >>= fun w =>
        drawPath (.ofStroke path color clip) (some w.state.config.allBands) fun _ => .everything := by
  simp only [strokePath, hspan, hreach, PathDrawing.ofStroke]

omit [LawfulMedium μ] in
theorem strokePath_eq_of_some (hspan : path.rowSpan = some (y, height))
    (hreach : ps.strokeReach = some reach) :
    (strokePath ps path color clip : WriterM μ ν Unit) = check >>= fun _ =>
      useForPath ps (.ofStroke path color clip) >>= fun _ => get >>= fun w =>
        drawPath (.ofStroke path color clip)
          (w.state.config.bandsFor (y - reach) (height + 2 * reach)) fun area =>
            if ps.dash.pattern.isEmpty then
              ⟨.ofPixel (area.y1 - reach), .ofPixel (area.y2 + reach)⟩
            else .everything := by
  simp only [strokePath, hspan, hreach, PathDrawing.ofStroke]

end Writer

namespace Session

variable {S : Session} {ps : ImagerState} {path : Path} {color : DrawingColor}
variable {clip : Option ClipPath}

/-- Where a path has no points, nothing is drawn. -/
theorem serves_fillPath {rule : FillRule} (hS : S.Sound)
    (hp : S.AdmitsPath ps (.ofFill path rule color clip)) :
    S.Serves (Writer.fillPath ps path rule color clip : WriterM μ (Watched μ ν) Unit) fun band =>
      InTurn (fun b => InBand b (S.Paths ps (.ofFill path rule color clip) b
        (S.config.fillRows path b)) band) (S.config.fillBands path) := by
  have hop : ∀ source, ((PathDrawing.ofFill path rule color clip).op source).source = source := by
    intro source
    cases rule <;> rfl
  cases hspan : path.rowSpan with
  | none =>
    simp only [Config.fillBands, Writer.fillPath, hspan]
    exact .check_bind (.pure fun _ => InTurn.nil)
  | some span =>
    obtain ⟨y, height⟩ := span
    rw [Writer.fillPath_eq hspan]
    simp only [Config.fillBands, Config.fillRows, hspan]
    exact .check_bind (serves_path hS hp hop (·.bandsFor (y - 1) (y + height + 1 - (y - 1)))
      (fun _ => Config.lt_of_mem_bandsFor hS.valid) fun area =>
        ⟨.ofPixel (max (area.y1 - 1) (y - 1)), .ofPixel (min (area.y2 + 1) (y + height + 1))⟩)

theorem serves_strokePath (hS : S.Sound) (hp : S.AdmitsPath ps (.ofStroke path color clip)) :
    S.Serves (Writer.strokePath ps path color clip : WriterM μ (Watched μ ν) Unit) fun band =>
      InTurn (fun b => InBand b (S.Paths ps (.ofStroke path color clip) b
        (S.config.strokeRows ps b)) band) (S.config.strokeBands ps path) := by
  have hop : ∀ source, ((PathDrawing.ofStroke path color clip).op source).source = source :=
    fun _ => rfl
  cases hspan : path.rowSpan with
  | none =>
    simp only [Config.strokeBands, Writer.strokePath, hspan]
    exact .check_bind (.pure fun _ => InTurn.nil)
  | some span =>
    obtain ⟨y, height⟩ := span
    cases hreach : ps.strokeReach with
    | none =>
      rw [Writer.strokePath_eq_of_none hspan hreach]
      simp only [Config.strokeBands, Config.strokeRows, hspan, hreach]
      exact .check_bind (serves_path hS hp hop (fun config => some config.allBands)
        (fun _ => hS.valid.lt_of_mem_allBands) fun _ => .everything)
    | some reach =>
      rw [Writer.strokePath_eq_of_some hspan hreach]
      simp only [Config.strokeBands, Config.strokeRows, hspan, hreach]
      exact .check_bind (serves_path hS hp hop (·.bandsFor (y - reach) (height + 2 * reach))
        (fun _ => Config.lt_of_mem_bandsFor hS.valid) fun area =>
          if ps.dash.pattern.isEmpty then
            ⟨.ofPixel (area.y1 - reach), .ofPixel (area.y2 + reach)⟩
          else .everything)

end Session

end BandedPage
