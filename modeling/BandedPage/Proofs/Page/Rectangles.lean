import Mathlib
import BandedPage.Proofs.Config
import BandedPage.Proofs.Page.Session
import BandedPage.Proofs.Writer.Copies

/-!
# Rectangles and bitmaps in a session

A rectangle is drawn part by part in the bands that it meets, and so is a bitmap. A tile that the
cache refuses is drawn as copies of its pieces instead, in the bands that have not had it yet.
-/

namespace BandedPage

theorem Rect.OnPage.intersect {q : Terms} {r area part : Rect} (h : r.OnPage q)
    (hpart : r.intersect area = some part) : part.OnPage q := by
  obtain ⟨rfl, hx, hy⟩ := Rect.intersect_eq_some hpart
  obtain ⟨⟨hx₁, -, hxa⟩, hy₁, -, hya⟩ := h
  dsimp only at hx hy
  refine ⟨⟨?_, hx, hxa.of_le ?_ (min_le_left ..)⟩, ?_, hy, hya.of_le ?_ (min_le_left ..)⟩
  all_goals
    dsimp only
    omega

/-- A rectangle within one on the page. -/
theorem Rect.OnPage.ofSize {q : Terms} {r : Rect} (h : r.OnPage q) {columns rows : Span}
    (hx : r.x1 ≤ columns.start ∧ 0 < columns.length ∧ columns.start + columns.length ≤ r.x2)
    (hy : r.y1 ≤ rows.start ∧ 0 < rows.length ∧ rows.start + rows.length ≤ r.y2) :
    (Rect.ofSize columns.start rows.start columns.length rows.length).OnPage q := by
  obtain ⟨⟨hx₁, -, hxa⟩, hy₁, -, hya⟩ := h
  refine ⟨⟨?_, ?_, hxa.of_le ?_ hx.2.2⟩, ?_, ?_, hya.of_le ?_ hy.2.2⟩
  all_goals
    dsimp only [Rect.ofSize]
    omega

namespace Session

variable {S : Session}

section

variable {clip : Option ClipPath} {config : Config}

theorem on_onPage {r : Rect} (h : r.OnPage S.terms) : r.OnPage (S.on clip) := ⟨h.x, h.y⟩

theorem on_clip {c : ClipPath} (h : c.Within S.terms) : c.Within (S.on clip) := fun rect hrect =>
  have hrect := h rect hrect
  ⟨hrect.x, hrect.y, hrect.width, hrect.height⟩

theorem on_tile {tile : Tile} (h : tile.Fits S.terms) : tile.Fits (S.on clip) :=
  ⟨h.sendable, h.named⟩

theorem on_paint {paint : CopyPaint} (h : paint.Fits S.terms config) :
    paint.Fits (S.on clip) config := by
  cases paint with
  | mono colors => exact h
  | deep => trivial
  | coverage color depth => exact h
  | halftone tile colors phase => exact ⟨on_tile h.1, h.2⟩

theorem on_color {color : DrawingColor} (h : color.Fits S.terms config) :
    color.Fits (S.on clip) config := by
  cases color with
  | pure color => exact h
  | halftone tile colors phase => exact ⟨on_tile h.1, h.2⟩
  | colored bases levels => exact h

end

def partsOf (S : Session) (rect : Rect) : List (Nat × Rect) :=
  (rect.intersect S.config.pageRect).elim [] S.config.bandParts

/-- No two parts of a rectangle lie in one band. -/
theorem pairwise_partsOf (S : Session) (rect : Rect) :
    (S.partsOf rect).Pairwise fun p p' => p.1 ≠ p'.1 := by
  rw [partsOf]
  cases rect.intersect S.config.pageRect with
  | none => exact .nil
  | some r => exact S.config.pairwise_bandParts r

/-- What the page shows of the rectangle can be told. -/
def Reaches (S : Session) (rect : Rect) : Prop :=
  ∀ r, rect.intersect S.config.pageRect = some r → r.OnPage S.terms

/-- A part can be told, and its band is one of the page. -/
theorem Reaches.of_mem {rect : Rect} (h : S.Reaches rect) (hS : S.Sound) {p : Nat × Rect}
    (hp : p ∈ S.partsOf rect) : p.1 < S.config.nbands ∧ p.2.OnPage S.terms := by
  rw [partsOf] at hp
  cases hr : rect.intersect S.config.pageRect with
  | none =>
    rw [hr] at hp
    exact absurd hp List.not_mem_nil
  | some r =>
    rw [hr] at hp
    obtain ⟨hband, hpart⟩ := hS.valid.of_mem_bandParts hp
    exact ⟨hband, (h r hr).intersect hpart⟩

end Session

/-- Whichever clip is current, a copy without one is drawn in the same way. -/
theorem BitmapCopy.DrawnBy.withClip {c : BitmapCopy} {q : Terms} {config : Config}
    {lop : LogicalOp} {band : Nat} {clip clip' : Option ClipPath} {calls : List TargetCall}
    (h : c.DrawnBy { q with clip } config lop band calls) (hclip : c.clip.isSome = true → clip = clip') :
    c.DrawnBy { q with clip := clip' } config lop band calls := by
  by_cases hsome : c.clip.isSome = true
  · exact hclip hsome ▸ h
  · have hfor : ∀ {v : PaintSettings}, v.For { q with clip } config lop band c →
        v.For { q with clip := clip' } config lop band c := fun hv =>
      ⟨hv.shown, hv.lop_eq, hv.clip_none, fun h => absurd h hsome⟩
    cases h with
    | pieces hv hsend => exact .pieces (hfor hv) hsend
    | cached hv hid hsize hshows => exact .cached (hfor hv) hid hsize hshows

variable {μ ν : Type} [Medium μ] [LawfulMedium μ] [MemoryPolicy μ ν]

namespace Session

variable {S : Session} {clip : Option ClipPath} {imager : ImagerState}

/-- What one operation tells a band in a session. -/
theorem makes_withRecovery (hS : S.Sound) {op : WriteM μ (Watched μ ν) Unit} {band : Nat}
    {P : List TargetCall → Prop} (hop : WriterState.RendersNothing op)
    (htells : ∀ s calls, s.config = S.config → s.imager = imager → Synced (S.on clip) s calls →
      s.Ready S clip → Tells (S.on clip) s calls band op P) :
    Makes (S.on clip) S.config (S.Current clip imager) (Writer.withRecovery op) (InBand band P) :=
  have hI := WriterState.Ready.lasting S clip imager
  .withRecovery hI hS.nbands_le <| .of_tells hI hop fun s calls hs hsynced =>
    htells s calls hs.1.config_eq hs.2 hsynced hs.1

/-! ### Fills -/

/-- The calls that fill the part of a rectangle in a band. -/
def Fills (S : Session) (band : Nat) (part : Rect) (color : Color) (calls : List TargetCall) : Prop :=
  ∃ b : BandState, (S.terms.exactImager → S.lops b.lop) ∧ b.lopEnabled = (b.lop != .default) ∧
    (S.terms.exactColors → b.colors.one = color) ∧
    calls = (part.intersect (S.config.bandRect band)).toList.map (fillCall b)

theorem makes_fillBand (hS : S.Sound) {rect : Rect} (hrect : S.Reaches rect) {color : Color}
    (hcolor : S.terms.exactColors → color.IsOf S.config.depth)
    (hlop : S.terms.exactImager → S.lops imager.logOp) {p : Nat × Rect}
    (hp : p ∈ S.partsOf rect) :
    Makes (S.on clip) S.config (S.Current (μ := μ) (ν := ν) clip imager)
      (Writer.withRecovery (WriterState.fillBand p.1 p.2 color))
      (InBand p.1 (S.Fills p.1 p.2 color)) := by
  obtain ⟨hband, hpart⟩ := hrect.of_mem hS hp
  refine makes_withRecovery hS (WriterState.rendersNothing_fillBand p.1 p.2 color)
    fun s calls hconfig himager hsynced _ => ?_
  refine (hsynced.fillBand (hconfig ▸ hband) (on_onPage hpart).within
    (hconfig ▸ hcolor)).mono fun more hmore => ?_
  obtain ⟨b, hlop', henabled, hcolors, hmore⟩ := hmore
  rw [himager] at hlop' henabled
  rw [hconfig] at hmore
  exact ⟨b, fun hexact => hlop' ▸ hlop hexact, hlop'.symm ▸ henabled, hcolors, hmore⟩

omit [LawfulMedium μ] in
/-- A rectangle is filled part by part. -/
theorem fillRectangle_eq (rect : Rect) (color : Color) {w : Writer μ ν}
    (henabled : w.disabled = false) (hconfig : w.state.config = S.config) :
    (Writer.fillRectangle rect color : WriterM μ ν Unit) w = ((S.partsOf rect).forM fun p =>
      Writer.withRecovery (WriterState.fillBand p.1 p.2 color)) w := by
  rw [Writer.fillRectangle, bind_of_ok (Writer.check_eq henabled)]
  simp only [get_bind_run, hconfig, partsOf]
  cases rect.intersect S.config.pageRect <;> rfl

theorem serves_fillRectangle (hS : S.Sound) {rect : Rect} (hrect : S.Reaches rect) {color : Color}
    (hcolor : S.terms.exactColors → color.IsOf S.config.depth) :
    S.Serves (Writer.fillRectangle rect color : WriterM μ (Watched μ ν) Unit) fun band =>
      InTurn (fun p => InBand p.1 (S.Fills p.1 p.2 color) band) (S.partsOf rect) := by
  refine .of_makes fun clip imager _ hlop w drawn htold hw => ?_
  rw [Meets, fillRectangle_eq rect color htold.enabled htold.config_eq]
  exact Makes.forM (fun p hp => makes_fillBand hS hrect hcolor hlop hp) w drawn htold hw

/-! ### Bitmaps -/

/-- A copy whose parts can be told. -/
structure AdmitsCopy (S : Session) (c : BitmapCopy) : Prop where
  reaches : S.Reaches c.rect
  room : S.config.payloadRoom * 8 < 2147483648
  paint : c.paint.Fits S.terms S.config
  plain : c.name.isSome = true → c.paint.Plain
  named : ∀ p ∈ S.partsOf c.rect, ∀ id ∈ (c.restrict p.2).name, ∀ rows,
    (c.restrict p.2).cachedRows S.config = .ok rows →
      S.terms.Names id ((c.restrict p.2).cachedSize S.config) rows
  clip : ∀ clip ∈ c.clip, clip.Within S.terms ∧ ∀ c' ∈ S.clips clip.id, c' = clip

/-- The calls that copy a bitmap's parts in a band. -/
def Copies (S : Session) (c : BitmapCopy) (band : Nat) : List TargetCall → Prop :=
  InTurn (fun p => InBand p.1 (fun calls => ∃ lop, (S.terms.exactImager → S.lops lop) ∧
    (c.restrict p.2).DrawnBy (S.on (c.clip.bind fun k => S.clips k.id)) S.config lop p.1 calls) band)
    (S.partsOf c.rect)

/-- A part of a copy is what commands carry. -/
theorem AdmitsCopy.fits {c : BitmapCopy} (h : S.AdmitsCopy c) (hS : S.Sound)
    (hclip : c.clip.isSome = true → clip = c.clip.bind fun k => S.clips k.id) {p : Nat × Rect}
    (hp : p ∈ S.partsOf c.rect) : (c.restrict p.2).Fits (S.on clip) S.config where
  onPage := on_onPage (h.reaches.of_mem hS hp).2
  depth := by
    have hdepth := hS.valid.depth
    have hpaint := h.paint
    show 1 ≤ c.paint.depth _ ∧ c.paint.depth _ ≤ 32
    cases hc : c.paint with
    | mono colors => exact ⟨le_rfl, Nat.one_le_ofNat⟩
    | deep =>
      simp only [CopyPaint.depth]
      revert hdepth
      generalize S.config.depth = n
      revert n
      decide
    | coverage color depth =>
      rw [hc] at hpaint
      have := hpaint.2
      simp only [List.mem_cons, List.not_mem_nil, or_false] at this
      simp only [CopyPaint.depth]
      omega
    | halftone tile colors phase => exact ⟨le_rfl, Nat.one_le_ofNat⟩
  paint := on_paint h.paint
  plain hsome := by
    refine h.plain ?_
    simp only [BitmapCopy.restrict] at hsome
    split at hsome
    · exact hsome
    · cases hsome
  named id hid rows hrows := h.named p hp id hid rows hrows
  clip k hk := by
    obtain ⟨hwithin, hsame⟩ := h.clip k hk
    refine ⟨on_clip hwithin, fun c' hc' => hsame c' ?_⟩
    have hk' : c.clip = some k := hk
    have hcurrent : clip = S.clips k.id := by
      rw [hclip (by rw [hk']; rfl), hk']
      rfl
    exact hcurrent ▸ hc'

theorem makes_copyBand (hS : S.Sound) {c : BitmapCopy}
    (hlop : S.terms.exactImager → S.lops imager.logOp) (hc : S.AdmitsCopy c)
    (hclip : c.clip.isSome = true → clip = c.clip.bind fun k => S.clips k.id) {p : Nat × Rect}
    (hp : p ∈ S.partsOf c.rect) :
    Makes (S.on clip) S.config (S.Current (μ := μ) (ν := ν) clip imager)
      (Writer.withRecovery (WriterState.copyBand p.1 (c.restrict p.2)))
      (InBand p.1 fun calls => ∃ lop, (S.terms.exactImager → S.lops lop) ∧
        (c.restrict p.2).DrawnBy (S.on (c.clip.bind fun k => S.clips k.id)) S.config lop p.1
          calls) := by
  have hband := (hc.reaches.of_mem hS hp).1
  refine makes_withRecovery hS (WriterState.rendersNothing_copyBand p.1 (c.restrict p.2))
    fun s calls hconfig himager hsynced _ => ?_
  refine (hsynced.copyBand (hconfig ▸ hc.fits hS hclip hp) (hconfig ▸ hc.room)
    (hconfig ▸ hband)).mono fun more hmore => ?_
  rw [hconfig, himager] at hmore
  exact ⟨imager.logOp, hlop, hmore.withClip hclip⟩

omit [LawfulMedium μ] in
/-- A bitmap is copied part by part. -/
theorem copyBitmap_eq (c : BitmapCopy) {w : Writer μ ν} (henabled : w.disabled = false)
    (hconfig : w.state.config = S.config) :
    (Writer.copyBitmap c : WriterM μ ν Unit) w = ((S.partsOf c.rect).forM fun p =>
      Writer.withRecovery (WriterState.copyBand p.1 (c.restrict p.2))) w := by
  rw [Writer.copyBitmap, bind_of_ok (Writer.check_eq henabled)]
  simp only [get_bind_run, hconfig, partsOf]
  cases c.rect.intersect S.config.pageRect <;> rfl

theorem makes_copyBitmap (hS : S.Sound) {c : BitmapCopy}
    (hlop : S.terms.exactImager → S.lops imager.logOp) (hc : S.AdmitsCopy c)
    (hclip : c.clip.isSome = true → clip = c.clip.bind fun k => S.clips k.id) :
    Makes (S.on clip) S.config (S.Current (μ := μ) (ν := ν) clip imager) (Writer.copyBitmap c)
      (S.Copies c) := by
  intro w drawn htold hw
  rw [Meets, copyBitmap_eq c htold.enabled htold.config_eq]
  exact Makes.forM (fun p hp => makes_copyBand hS hlop hc hclip hp) w drawn htold hw

end Session

end BandedPage
