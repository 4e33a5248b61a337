import Mathlib
import BandedPage.Proofs.Page.Following
import BandedPage.Proofs.Page.PathCalls
import BandedPage.Proofs.Path.Whole

/-!
# Stroked paths arrive whole

Of a path to stroke, a band whose rows hold all of its points is given every segment. A pen in the
reader begins where the band's last rectangle was, marks are told only when they change, and lines and
curves go in whichever command is shortest: none of this shows.
-/

namespace BandedPage

namespace Config

variable {config : Config} {ps : ImagerState} {path : Path} {band : Nat}

/-- All points of the path lie in the rows that the band is sent of its stroke. -/
def HoldsStroke (config : Config) (ps : ImagerState) (path : Path) (band : Nat) : Prop :=
  ∀ p, path.HasPoint p → (config.strokeRows ps band).sideOf p.y = .within

/-- Dashes have to be counted, so that no row is left out. -/
theorem holdsStroke_of_dashed (hdashed : ps.dash.pattern.isEmpty = false)
    (hpath : ∀ p, path.HasPoint p → Fixed.least ≤ p.y ∧ p.y < Fixed.greatest) :
    config.HoldsStroke ps path band := by
  have hrows : config.strokeRows ps band = .everything := by
    rw [strokeRows]
    split
    · rfl
    · rw [hdashed]
      rfl
  intro p hp
  obtain ⟨hleast, hgreatest⟩ := hpath p hp
  rw [hrows, RowRange.everything, RowRange.sideOf, if_neg (not_lt.mpr hleast),
    if_neg (not_le.mpr hgreatest)]

/-- The calls that stroke a path in a band. A band that holds the stroke is given the path as it is, and
so is every band if the stroke is dashed. -/
def StrokesPath (config : Config) (ps : ImagerState) (path : Path) (band : Nat)
    (calls : List TargetCall) : Prop :=
  if band ∈ config.strokeBands ps path then ∃ shown sent color clip,
    calls = [.strokePath shown sent color clip] ∧
      (config.HoldsStroke ps path band ∨ ps.dash.pattern.isEmpty = false →
        sent.segments = path.segments)
  else calls = []

/-- A stroke is nothing but drawing. -/
theorem StrokesPath.drawing_eq {calls : List TargetCall} (h : config.StrokesPath ps path band calls) :
    drawing calls = calls := by
  rw [StrokesPath] at h
  split at h
  · obtain ⟨shown, sent, color, clip, rfl, -⟩ := h
    rfl
  · rw [h]
    rfl

end Config

/-- Everything that replay of a band calls by now: what the pages call that were rendered, and then what
the band was sent since. -/
def Writer.replayed {μ ν : Type} [Medium μ] (w : Writer μ (Watched μ ν)) (band : Nat) :
    Except Error (List TargetCall) := do
  let before ← BandStore.transcripts w.state.memory.rendered w.state.config band
  let page ← w.state.follow band
  return before ++ page.target.calls

namespace Session

variable {S : Session} {ps : ImagerState} {path : Path} {color : DrawingColor}
variable {clip : Option ClipPath} {band : Nat} {calls : List TargetCall}

theorem AdmitsPath.rows (h : S.AdmitsPath ps (.ofStroke path color clip))
    (hlast : ∀ p, path.HasPoint p → Word.fits32 (p.y + 255) = true) :
    ∀ p, path.HasPoint p → Fixed.least ≤ p.y ∧ p.y < Fixed.greatest := by
  rintro p ⟨segment, hsegment, hp⟩
  have hfits := Word.fits32_iff.mp (h.path segment hsegment p hp).y.fits32
  have hceiling := Word.fits32_iff.mp (hlast p ⟨segment, hsegment, hp⟩)
  have hbelow : ∀ {v : Int}, v + 255 < 2147483648 → v < 2147483647 := by omega
  exact ⟨hfits.1, hbelow hceiling.2⟩

/-- Replay strokes a path once in each of its bands. -/
theorem strokesPath_of_inTurn (hadmits : S.AdmitsPath ps (.ofStroke path color clip))
    (hpath : path.IsBuilt) (hnotes : ∀ s ∈ path.segments, s.notes < 64)
    (hlast : ∀ p, path.HasPoint p → Word.fits32 (p.y + 255) = true)
    (h : InTurn (fun b => InBand b (S.Paths ps (.ofStroke path color clip) b
      (S.config.strokeRows ps b)) band) (S.config.strokeBands ps path) calls) :
    S.config.StrokesPath ps path band calls := by
  have hin := h.inBand (S.config.nodup_strokeBands ps path)
  rw [Config.StrokesPath]
  split at hin
  · next hband =>
    obtain ⟨imager, -, -, origin, source, shown, color', region, rfl, -⟩ := hin
    refine (if_pos hband).symm ▸ ⟨shown, BandWalk.sentPath origin (S.config.strokeRows ps band)
      .stroke path, color', region, rfl, fun hwhole => ?_⟩
    have hholds : S.config.HoldsStroke ps path band :=
      hwhole.elim id fun hdashed => Config.holdsStroke_of_dashed hdashed (hadmits.rows hlast)
    exact BandWalk.sentPath_segments hpath hnotes hholds origin
  · next hband => exact (if_neg hband).symm ▸ hin

end Session

variable {μ ν : Type} [Medium μ] [LawfulMedium μ]

/-- What a session has drawn is what replay draws. -/
theorem Writer.InSession.replayed {S : Session} {clip : Option ClipPath}
    {w : Writer μ (Watched μ ν)} {drawn : Nat → List TargetCall} (h : w.InSession S clip drawn)
    (hS : S.Sound) (hlen : ∀ store ∈ w.stores, store.commandLength < 9223372036854775808)
    {band : Nat} (hband : band < S.config.nbands) :
    ∃ calls, w.replayed band = .ok calls ∧ drawing calls = drawn band := by
  obtain ⟨before, page, hbefore, hpage, hdrawn, -⟩ := h.follow hS hlen hband
  refine ⟨before ++ page.target.calls, ?_, hdrawn⟩
  simp only [Writer.replayed, h.ready.config_eq, hbefore, hpage]
  rfl

/-- Wherever a session has come to, a path that is stroked is drawn by one more call in each of its
bands, and a band whose rows hold the path is given just its segments. -/
theorem stroked_paths_arrive_whole [MemoryPolicy μ ν] {S : Session} (hS : S.Sound)
    {ps : ImagerState} {path : Path} {color : DrawingColor} {clip : Option ClipPath}
    (hadmits : S.AdmitsPath ps (.ofStroke path color clip)) (hpath : path.IsBuilt)
    (hnotes : ∀ s ∈ path.segments, s.notes < 64)
    (hlast : ∀ p, path.HasPoint p → Word.fits32 (p.y + 255) = true)
    {current : Option ClipPath} {w w' : Writer μ (Watched μ ν)} {drawn : Nat → List TargetCall}
    (hw : w.InSession S current drawn)
    (hrun : Writer.strokePath ps path color clip w = .ok () w')
    (hlen : ∀ store ∈ w.stores ++ w'.stores, store.commandLength < 9223372036854775808) {band : Nat}
    (hband : band < S.config.nbands) :
    ∃ before after calls, w.replayed band = .ok before ∧ w'.replayed band = .ok after ∧
      drawing after = drawing before ++ calls ∧ S.config.StrokesPath ps path band calls := by
  obtain ⟨current', more, hmore, hw'⟩ :=
    (Session.serves_strokePath hS hadmits current w drawn hw).ok hrun
  obtain ⟨before, hbefore, hdrawn⟩ :=
    hw.replayed hS (fun store hstore => hlen store (List.mem_append_left _ hstore)) hband
  obtain ⟨after, hafter, hdrawn'⟩ :=
    hw'.replayed hS (fun store hstore => hlen store (List.mem_append_right _ hstore)) hband
  have hcalls := Session.strokesPath_of_inTurn hadmits hpath hnotes hlast (hmore band)
  refine ⟨before, after, more band, hbefore, hafter, ?_, hcalls⟩
  rw [hdrawn', hdrawn, hcalls.drawing_eq]

/-- Lines and a curve with marks, drawing that goes on after a close, and a rectangle. -/
def markedShape : Path :=
  (((((({} : Path).moveTo ⟨2560, 2560⟩).lineTo ⟨5120, 2560⟩ 1).curveTo ⟨5632, 2560⟩ ⟨5632, 3072⟩
    ⟨5120, 5120⟩ 2).closeSubpath).lineTo ⟨1280, 7680⟩ 63).rectangle 256 256 512 7936

def dashedState : ImagerState :=
  { ctm := { xx := .zero, yy := .zero }, dash := { pattern := [⟨0x40400000⟩] } }

/-- A small page on which both bands were drawn in. -/
def filledPage : Writer MemoryMedium (Watched MemoryMedium RationedMemory) :=
  (Intent.serveAll [.fillRectangle ⟨3, 5, 40, 30⟩ 1]
    (.onEmptyPage smallPage { commands := {}, index := {} } flushedOnce)).2

/-- The pen is elsewhere when the stroke begins. -/
theorem marked_shape_arrives_whole :
    ∃ w' : Writer MemoryMedium (Watched MemoryMedium RationedMemory),
      Writer.strokePath dashedState markedShape (.pure 3) none filledPage = .ok () w' ∧
      ∃ before after calls, filledPage.replayed 1 = .ok before ∧ w'.replayed 1 = .ok after ∧
        drawing after = drawing before ++ calls ∧
        smallPage.StrokesPath dashedState markedShape 1 calls := by
  obtain ⟨S, hS'⟩ : ∃ S, S = Session.ofPage smallPage smallPixels.terms [] := ⟨_, rfl⟩
  have hS : S.Sound := hS' ▸ ⟨Config.valid_of_validate rfl, by decide⟩
  have hconfig : S.config = smallPage := by rw [hS']; rfl
  have hrect : S.Admits (.fillRectangle ⟨3, 5, 40, 30⟩ 1) := by
    subst hS'
    refine ⟨fun r hr => ?_, fun h => h.elim⟩
    cases hr
    exact ⟨⟨by decide, by decide, by decide, by decide⟩, by decide, by decide, by decide, by decide⟩
  have hpath : markedShape.IsBuilt :=
    ((((((Path.IsBuilt.empty.moveTo _).lineTo _ _).curveTo _ _ _ _).closeSubpath).lineTo _ _)).rectangle
      _ _ _ _
  have hadmits : S.AdmitsPath dashedState (.ofStroke markedShape (.pure 3) none) := by
    subst hS'
    exact {
      fine := smallPixels.terms_fine
      path := Path.within_smallPixels (by decide)
      fillAdjust := ⟨rfl, rfl⟩
      lop := fun _ => trivial
      color := fun h => h.elim
      clip := fun c hc => by cases hc }
  have hlast : ∀ p, markedShape.HasPoint p → Word.fits32 (p.y + 255) = true := by
    have hall : ∀ s ∈ markedShape.segments.toList, ∀ p ∈ s.points,
        Word.fits32 (p.y + 255) = true := by decide +kernel
    rintro p ⟨s, hs, hp⟩
    exact hall s (Array.mem_toList_iff.mpr hs) p hp
  have hempty : ({ commands := {}, index := {} } : BandStore MemoryMedium).Contains [] :=
    ⟨MemoryMedium.sound_empty, MemoryMedium.sound_empty, rfl, rfl⟩
  have hbegun := Writer.inSession_onEmptyPage hS hempty flushedOnce (hS' ▸ trivial)
  rw [hconfig] at hbegun
  obtain ⟨clip, drawn, -, hsession⟩ := Session.serveAll hS
    (fun i hi => List.mem_singleton.mp hi ▸ hrect) hbegun (by decide +kernel)
  have hgranted : (Intent.serve (.strokePath dashedState markedShape (.pure 3) none)
      filledPage).1 = .ok () := by decide +kernel
  have hshort : ∀ store ∈ filledPage.stores ++
      (Intent.serve (.strokePath dashedState markedShape (.pure 3) none) filledPage).2.stores,
      store.commandLength < 9223372036854775808 := by decide +kernel
  cases hrun : Writer.strokePath dashedState markedShape (.pure 3) none filledPage with
  | error e w' =>
    simp only [Intent.serve, Intent.perform, hrun] at hgranted
    cases hgranted
  | ok u w' =>
    simp only [Intent.serve, Intent.perform, hrun] at hshort
    have hwhole := stroked_paths_arrive_whole hS hadmits hpath (by decide +kernel) hlast hsession hrun
      hshort (show 1 < S.config.nbands by rw [hconfig]; decide)
    rw [hconfig] at hwhole
    exact ⟨w', rfl, hwhole⟩

end BandedPage
