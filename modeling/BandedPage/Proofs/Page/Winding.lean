import Mathlib
import BandedPage.Proofs.Path.Rows
import BandedPage.Proofs.Page.PathCalls

/-!
# Filled paths keep their winding

A band is sent a path to fill cut to the rows of the band, with one row around them, and to those of
the path. On every row of pixels of the band, what is sent crosses the center line where the path
does and in the same directions, so no fill rule can tell the difference. A band that is sent
nothing has no crossing to show.
-/

namespace BandedPage

namespace Config

variable {config : Config} {path : Path} {band : Nat}

/-- The row of pixels belongs to the band. -/
def HasRow (config : Config) (band : Nat) (y : Int) : Prop :=
  (config.bandRect band).y1 ≤ y ∧ y < (config.bandRect band).y2

def centerOf (y : Int) : Fixed := 256 * y + 128

/-- A band with a row among those of the path is sent the path. -/
theorem mem_fillBands (hvalid : config.Valid) (hheight : config.height < 2147483648)
    (hband : band < config.nbands) {first height y : Int}
    (hspan : path.rowSpan = some (first, height)) (hrow : config.HasRow band y)
    (hin : first - 1 ≤ y ∧ y < first + height + 1) : band ∈ config.fillBands path := by
  have hwidth := hvalid.width
  have hrect := hvalid.bandRect_eq hheight hband
  obtain ⟨part, hpart⟩ : ∃ part, (⟨0, first - 1, 1, first + height + 1⟩ : Rect).intersect
      (config.bandRect band) = some part := by
    obtain ⟨hlo, hhi⟩ := hrow
    rw [hrect] at hlo hhi ⊢
    dsimp only at hlo hhi
    rw [Rect.intersect, if_neg]
    · exact ⟨_, rfl⟩
    · simp only [Rect.isEmpty, Bool.or_eq_true, decide_eq_true_eq]
      omega
  obtain ⟨bands, hbands, hcontains⟩ := hvalid.contains_of_intersect hheight hband hpart
  have hbands' : config.bandsFor (first - 1) (first + height + 1 - (first - 1)) = some bands := hbands
  simp only [fillBands, hspan, hbands']
  exact (BandRange.mem_toList bands band).mpr hcontains

/-- A band that is not sent the path has none of its rows. -/
theorem crossings_eq_zero_of_not_mem (hvalid : config.Valid) (hheight : config.height < 2147483648)
    (hband : band < config.nbands) (hpath : path.IsPolygonal) (hnone : band ∉ config.fillBands path)
    {y : Int} (hrow : config.HasRow band y) : path.crossings (centerOf y) = 0 := by
  cases hspan : path.rowSpan with
  | none =>
    have hnone : ∀ p, path.HasPoint p → (p.y ≤ centerOf y ↔ True) :=
      fun p hp => (Path.not_hasPoint_of_rowSpan hspan p hp).elim
    exact Path.crossings_eq_zero hpath hnone
  | some span =>
    obtain ⟨first, height⟩ := span
    have hpoints := (Path.within_rowSpan hspan).1
    have hout : y < first - 1 ∨ first + height + 1 ≤ y := by
      by_contra hin
      exact hnone (mem_fillBands hvalid hheight hband hspan hrow (by omega))
    have hside : ∀ {v : Int}, first * 256 ≤ v ∧ v ≤ (first + height) * 256 →
        (v ≤ 256 * y + 128 ↔ first + height + 1 ≤ y) := by
      omega
    exact Path.crossings_eq_zero hpath fun p hp => hside (hpoints p hp)

/-- A band that is sent a path begins before the path ends. -/
theorem top_le_of_mem_fillBands (hvalid : config.Valid) {first height : Int}
    (hspan : path.rowSpan = some (first, height)) (hin : band ∈ config.fillBands path) :
    band * config.bandHeight ≤ first + height := by
  simp only [fillBands, hspan] at hin
  cases hbands : config.bandsFor (first - 1) (first + height + 1 - (first - 1)) with
  | none =>
    rw [hbands] at hin
    exact absurd hin List.not_mem_nil
  | some bands =>
    rw [hbands] at hin
    have hcontains := (BandRange.mem_toList bands band).mp hin
    simp only [BandRange.contains, Bool.and_eq_true, decide_eq_true_eq] at hcontains
    have hle := (hvalid.bandsFor_lt hbands).1
    have hheight := hvalid.height
    simp only [bandsFor, show first - 1 + (first + height + 1 - (first - 1)) = first + height + 1 by omega]
      at hbands
    split at hbands
    · cases hbands
    · next hrows =>
      have hfirst := hvalid.bandOf_eq (y := max (first - 1) 0) (by omega) (by omega)
      have hlast := hvalid.bandOf_eq (y := min (first + height + 1) config.height - 1) (by omega)
        (by omega)
      have hmono := Int.ediv_le_ediv hvalid.bandHeight
        (show max (first - 1) 0 ≤ min (first + height + 1) config.height - 1 by omega)
      rw [BandRange.between_of_le (by omega)] at hbands
      cases hbands
      have hband : (band : Int) ≤ (min (first + height + 1) config.height - 1) / config.bandHeight := by
        dsimp only at hcontains
        omega
      have := Int.mul_le_of_le_ediv hvalid.bandHeight hband
      omega

end Config

theorem Fixed.ofPixel_eq {v : Int} (h : -8388608 ≤ v ∧ v < 8388608) : ofPixel v = v * 256 := by
  have hfits : Word.fits32 (v * 256) = true := by
    rw [Word.fits32_iff]
    omega
  rw [ofPixel, ← Word.wrap32_pattern32, Word.wrap32_pattern32_of_fits32 hfits]

namespace BandWalk

variable {config : Config} {path : Path} {band : Nat} {z : PixelRange}

/-- What a band is sent of a path to fill crosses the center lines of the band where the path does. -/
theorem crossings_sentPath_fillRows (hvalid : config.Valid) (hheight : config.height < 2147483648)
    (hband : band < config.nbands) (hpath : path.IsPolygonal) (hmoves : path.MovesAfterCloses)
    (hwithin : path.Within (z.terms.fixedRange z.terms_fine)) (hin : band ∈ config.fillBands path)
    {y : Int} (hrow : config.HasRow band y) (origin : Point) :
    (sentPath origin (config.fillRows path band) .fill path).crossings (Config.centerOf y) =
      path.crossings (Config.centerOf y) := by
  cases hpathRows : path.rowSpan with
  | none =>
    simp only [Config.fillBands, hpathRows] at hin
    exact absurd hin List.not_mem_nil
  | some span =>
    obtain ⟨first, height⟩ := span
    have htop := Config.top_le_of_mem_fillBands hvalid hpathRows hin
    obtain ⟨hpoints, last, hlast, hend⟩ := Path.within_rowSpan hpathRows
    have hstop : z.least ≤ first + height ∧ first + height ≤ z.greatest + 1 ∧ 0 ≤ height := by
      obtain ⟨segment, hsegment, hmem⟩ := hlast
      have hy := (hwithin segment hsegment last hmem).y
      have hlo : z.least * 256 ≤ (first + height) * 256 :=
        hy.1.trans (hpoints last ⟨segment, hsegment, hmem⟩).2
      have hhi : (z.greatest + 1) * 256 > last.y := hy.2
      have hends := (hpoints last ⟨segment, hsegment, hmem⟩).1.trans
        (hpoints last ⟨segment, hsegment, hmem⟩).2
      omega
    have hspan := z.span
    have hroom := z.room
    have hzero := z.le_greatest
    have hrect := hvalid.bandRect_eq hheight hband
    have hnonneg : 0 ≤ (band : Int) * config.bandHeight :=
      Int.mul_nonneg (Int.natCast_nonneg _) hvalid.bandHeight.le
    have hpos := hvalid.bandHeight
    have hpage := hvalid.height
    obtain ⟨hfirstRow, hlastRow⟩ := hrow
    obtain ⟨top, htop_eq⟩ : ∃ top, top = (config.bandRect band).y1 := ⟨_, rfl⟩
    obtain ⟨bottom, hbottom_eq⟩ : ∃ bottom, bottom = (config.bandRect band).y2 := ⟨_, rfl⟩
    rw [← htop_eq] at hfirstRow
    rw [← hbottom_eq] at hlastRow
    have hrows : config.fillRows path band = ⟨max (top - 1) (first - 1) * 256,
        min (bottom + 1) (first + height + 1) * 256⟩ := by
      have htop' : top = band * config.bandHeight := by rw [htop_eq, hrect]
      have hbottom' : bottom = min (band * config.bandHeight + config.bandHeight) config.height := by
        rw [hbottom_eq, hrect]
      have hupper := Fixed.ofPixel_eq (v := max (top - 1) (first - 1)) (by omega)
      have hlower := Fixed.ofPixel_eq (v := min (bottom + 1) (first + height + 1)) (by omega)
      simp only [Config.fillRows, hpathRows, ← htop_eq, ← hbottom_eq, hupper, hlower]
    -- The rows of the band alone, with one row around them, tell the points of the path apart alike.
    have hsides : ∀ p, path.HasPoint p → (config.fillRows path band).sideOf p.y =
        RowRange.sideOf ⟨(top - 1) * 256, (bottom + 1) * 256⟩ p.y := by
      intro p hp
      have hside : ∀ {v : Int}, first * 256 ≤ v ∧ v ≤ (first + height) * 256 →
          (v < max (top - 1) (first - 1) * 256 ↔ v < (top - 1) * 256) ∧
          (min (bottom + 1) (first + height + 1) * 256 ≤ v ↔ (bottom + 1) * 256 ≤ v) := by
        omega
      obtain ⟨habove, hbelow⟩ := hside (hpoints p hp)
      rw [hrows]
      simp only [RowRange.sideOf, habove, hbelow]
    rw [hpath.sentPath_eq hsides]
    have hbegin : (top - 1) * 256 ≤ 256 * y + 128 + 1 := by omega
    have hend : 256 * y + 128 < (bottom + 1) * 256 := by omega
    exact crossings_sentPath origin rfl hpath hmoves ⟨hbegin, hend⟩

end BandWalk

/-- The path that is filled in the band, if there is one, crosses the center lines of the band where
this path does. If there is none, this path does not cross them. -/
def KeepsWinding (config : Config) (band : Nat) (path : Path) (rule : FillRule)
    (calls : List TargetCall) : Prop :=
  (∃ imager sent color clip, calls = [.fillPath imager sent rule color clip] ∧
    ∀ y, config.HasRow band y →
      sent.crossings (Config.centerOf y) = path.crossings (Config.centerOf y)) ∨
  (calls = [] ∧ ∀ y, config.HasRow band y → path.crossings (Config.centerOf y) = 0)

/-- Filling a path keeps its winding, and nothing else fills a path. -/
def Intent.FillsPath (config : Config) (band : Nat) : Intent → List TargetCall → Prop
  | fillPath _ path rule _ _ => KeepsWinding config band path rule
  | _ => fun calls => calls = []

namespace Session

variable {S : Session} {z : PixelRange} {band : Nat} {calls : List TargetCall}

theorem PathCalls.fillsPath {config : Config} {intents : List Intent} {intent : Intent}
    (hS : (ofPage config z.terms intents).Sound) (hband : band < config.nbands)
    (h : (ofPage config z.terms intents).PathCalls band intent calls)
    (hadmits : (ofPage config z.terms intents).Admits intent)
    (hpath : ∀ ps path rule color clip, intent = .fillPath ps path rule color clip →
      path.IsPolygonal ∧ path.MovesAfterCloses) :
    intent.FillsPath config band (calls.filter TargetCall.isFill) := by
  cases intent with
  | fillPath ps path rule color clip =>
    obtain ⟨hpolygonal, hmoves⟩ := hpath ps path rule color clip rfl
    simp only [PathCalls] at h
    split at h
    · next hin =>
      obtain ⟨imager, -, -, origin, source, shown, color', region, rfl, -⟩ := h
      refine .inl ⟨shown, BandWalk.sentPath origin (config.fillRows path band) .fill path, color', region,
        ?_, fun y hrow => ?_⟩
      · cases rule <;> rfl
      · exact BandWalk.crossings_sentPath_fillRows hS.valid hS.height hband hpolygonal hmoves
          hadmits.path hin hrow origin
    · next hout =>
      subst h
      exact .inr ⟨rfl, fun y hrow =>
        Config.crossings_eq_zero_of_not_mem hS.valid hS.height hband hpolygonal hout hrow⟩
  | strokePath ps path color clip =>
    simp only [PathCalls] at h
    split at h
    · obtain ⟨imager, -, -, origin, source, shown, color', region, rfl, -⟩ := h
      rfl
    · subst h
      rfl
  | _ =>
    rw [show calls = [] from h]
    rfl

end Session

variable {μ ν : Type} [Medium μ] [LawfulMedium μ] [MemoryPolicy μ ν]

/-- On a page of any requests, whatever is done to get memory for them, each path of lines that is to
be filled is filled once in each band that it reaches, and shows all of its crossings there. -/
theorem filled_paths_keep_winding {config : Config} (hconfig : config.validate = .ok ())
    (hheight : config.height < 2147483648) (z : PixelRange) {intents : List Intent}
    (hadmits : ∀ i ∈ intents, (Session.ofPage config z.terms intents).Admits i)
    (hpaths : ∀ ps path rule color clip, Intent.fillPath ps path rule color clip ∈ intents →
      path.IsPolygonal ∧ path.MovesAfterCloses)
    {store : BandStore μ} {memory : ν} {w : Writer μ (Watched μ ν)}
    (hw : w.HasWritten config store memory intents) {band : Nat} (hband : band < config.nbands) :
    ∃ calls, BandStore.transcripts w.stores config band = .ok calls ∧
      InTurn (Intent.FillsPath config band) intents (calls.filter TargetCall.isFill) := by
  have hS : (Session.ofPage config z.terms intents).Sound :=
    ⟨Config.valid_of_validate hconfig, hheight⟩
  obtain ⟨calls, hcalls, hturn⟩ := Session.page_paths hS trivial trivial hadmits hw hband
  refine ⟨calls, hcalls, ?_⟩
  have hfills : (calls.filter TargetCall.isPath).filter TargetCall.isFill =
      calls.filter TargetCall.isFill := by
    rw [List.filter_filter]
    refine List.filter_congr fun call _ => ?_
    cases hfill : call.isFill with
    | false => rfl
    | true => rw [TargetCall.isPath_of_isFill hfill]; rfl
  rw [← hfills]
  refine (hturn.filter TargetCall.isFill).mono fun intent hintent some hsome => ?_
  obtain ⟨calls, hcalls, rfl⟩ := hsome
  exact hcalls.fillsPath hS hband (hadmits intent hintent)
    fun ps path rule color clip heq => hpaths ps path rule color clip (heq ▸ hintent)

/-- A triangle over both bands of a small page. -/
def steepTriangle : Path :=
  (((({} : Path).moveTo ⟨1000, 500⟩).lineTo ⟨3000, 4000⟩ 0).lineTo ⟨2000, 6000⟩ 0).closeSubpath

def fillTriangle : List Intent := [.fillPath {} steepTriangle .evenOdd (.pure 3) none]

/-- The page had to be flushed before its second band could be filled. -/
theorem triangle_keeps_winding :
    (Writer.ofPage smallPage flushedOnce fillTriangle).stores.length = 2 ∧
    ∃ calls, BandStore.transcripts (Writer.ofPage smallPage flushedOnce fillTriangle).stores
      smallPage 1 = .ok calls ∧
      InTurn (Intent.FillsPath smallPage 1) fillTriangle (calls.filter TargetCall.isFill) := by
  have hvalid : smallPage.validate = .ok () := rfl
  have hsegments : steepTriangle.segments =
      #[.move ⟨1000, 500⟩, .line ⟨3000, 4000⟩ 0, .line ⟨2000, 6000⟩ 0, .close] := rfl
  have hpolygonal : steepTriangle.IsPolygonal :=
    .closeSubpath (.lineTo (.lineTo (.moveTo .empty _) _ _) _ _)
  have hmoves : steepTriangle.MovesAfterCloses := by
    simp [Path.MovesAfterCloses, hsegments]
  have hwithin : steepTriangle.Within (smallPixels.terms.fixedRange smallPixels.terms_fine) :=
    Path.within_smallPixels (by decide)
  have hwritten : (Writer.ofPage smallPage flushedOnce fillTriangle).HasWritten _ _ _ _ :=
    Writer.hasWritten_ofPage (by decide +kernel) (by decide +kernel)
  have hadmits : ∀ i ∈ fillTriangle,
      (Session.ofPage smallPage smallPixels.terms fillTriangle).Admits i := by
    intro i hi
    rw [List.mem_singleton.mp hi]
    exact {
      fine := smallPixels.terms_fine
      path := hwithin
      fillAdjust := ⟨rfl, rfl⟩
      lop := fun _ => trivial
      color := fun h => h.elim
      clip := fun c hc => by cases hc }
  refine ⟨by decide +kernel, filled_paths_keep_winding hvalid (by decide) smallPixels hadmits
    (fun ps path rule color clip hmem => ?_) hwritten (by decide)⟩
  cases List.mem_singleton.mp hmem
  exact ⟨hpolygonal, hmoves⟩

end BandedPage
