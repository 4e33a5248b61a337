import Mathlib
import BandedPage.Proofs.Path.Walk
import BandedPage.Proofs.Replay.Paths
import BandedPage.Proofs.Writer.Clipping
import BandedPage.Writer.Path

/-!
# Paths in step with replay

The pen of a path starts at the corner of the band's rectangle and leaves it where the path ends, as
the part of the path that the band is sent says. Rectangles and paths have to share their range of
coordinates for that.
-/

namespace BandedPage

variable {μ ν : Type} {q : Terms} {s : WriterState μ ν}

namespace Terms

/-- Any two allowed coordinates are less than 2²³ pixels apart, so that fixed-point offsets fit. -/
def Fine (q : Terms) : Prop := (q.greatest - q.least + 1) * 256 ≤ 2147483648

/-- The fixed-point coordinates of the allowed pixels. -/
def fixedRange (q : Terms) (hq : q.Fine) : FixedRange where
  least := q.least * 256
  stop := (q.greatest + 1) * 256
  le_least := by
    have := q.le_greatest
    simp only [Fine] at hq
    omega
  stop_le := by
    have := q.least_le
    simp only [Fine] at hq
    omega
  span_le := by
    simp only [Fine] at hq
    omega

theorem Allows.ofPixel {v : Int} (h : q.Allows v) (hq : q.Fine) : Fixed.ofPixel v = v * 256 := by
  obtain ⟨hlo, hhi⟩ := h
  have := q.least_le
  have := q.le_greatest
  simp only [Fine] at hq
  have hfits : Word.fits32 (v * 256) = true := by
    rw [Word.fits32_iff]
    omega
  rw [Fixed.ofPixel, ← Word.wrap32_pattern32, Word.wrap32_pattern32_of_fits32 hfits]

theorem Allows.fixed {v : Int} (h : q.Allows v) (hq : q.Fine) :
    (q.fixedRange hq).Allows (Fixed.ofPixel v) := by
  rw [h.ofPixel hq]
  obtain ⟨hlo, hhi⟩ := h
  constructor
  · show q.least * 256 ≤ v * 256
    omega
  · show v * 256 < (q.greatest + 1) * 256
    omega

theorem allows_floor {hq : q.Fine} {v : Int} (h : (q.fixedRange hq).Allows v) :
    q.Allows (Fixed.floor v) := by
  have hlo : q.least * 256 ≤ v := h.1
  have hhi : v < (q.greatest + 1) * 256 := h.2
  rw [Fixed.floor]
  constructor
  · omega
  · omega

end Terms

/-- A path in the range may be drawn with the pen at the corner of the rectangle. -/
structure FixedRange.Suits (z : FixedRange) (q : Terms) (rect : SizedRect) : Prop where
  corner : Point.Within z ⟨.ofPixel rect.x, .ofPixel rect.y⟩
  floor_x : Fixed.floor (.ofPixel rect.x) = rect.x
  floor_y : Fixed.floor (.ofPixel rect.y) = rect.y
  allows : ∀ v, z.Allows v → q.Allows (Fixed.floor v)

theorem Terms.fixedRange_suits (hq : q.Fine) {rect : SizedRect} (h : rect.Within q) :
    (q.fixedRange hq).Suits q rect := by
  have hfloor : ∀ v, q.Allows v → Fixed.floor (Fixed.ofPixel v) = v := by
    intro v hv
    rw [hv.ofPixel hq, Fixed.floor, Int.mul_ediv_cancel v (by norm_num)]
  constructor
  · exact ⟨h.x.fixed hq, h.y.fixed hq⟩
  · exact hfloor _ h.x
  · exact hfloor _ h.y
  · intro v hv
    exact Terms.allows_floor hv

namespace Drafted

variable {r₀ r : ReplayState} {d : BandDraft} {calls : List TargetCall}

theorem tellColored (h : Drafted q s r₀ d calls r) {bases : List UInt8} {levels : List Nat}
    (hbases : ReadableBases bases) (hlevels : ∀ level ∈ levels, level < 4294967296)
    (hlength : levels.length = s.config.components) :
    ∃ r' bases', Drafted q s r₀ (d.emit (Command.colored bases levels)) calls r' ∧
      r'.colored = some (.colored bases' levels) ∧ ((∀ b ∈ bases, b < 32) → bases' = bases) := by
  rw [← h.mirrors.config] at hlength
  exact ⟨_, _, h.tell (replays_colored hbases hlevels hlength) { h.mirrors with } rfl rfl, rfl,
    lowBases_of_lt⟩

/-- A path is drawn, and the pen stays where it ends. -/
theorem drawPath (h : Drafted q s r₀ d calls r) {z : FixedRange} (hz : z.Suits q d.state.rect)
    {p : PathDrawing} (hpath : p.path.Within z) (rows : RowRange) {source : ColorSource}
    {color : DrawingColor} (hcolor : r.pathColor? (p.op source).source = .ok color) :
    ∃ r', Drafted q s r₀ (d.drawPath p rows source)
      (calls ++ [pathCall (p.op source) r.pathImager
        (BandWalk.sentPath ⟨.ofPixel d.state.rect.x, .ofPixel d.state.rect.y⟩ rows p.use p.path)
        color r.activeClip]) r' := by
  have hm := h.mirrors
  have hcorner : r.corner = ⟨.ofPixel d.state.rect.x, .ofPixel d.state.rect.y⟩ := by
    rw [ReplayState.corner, hm.rect]
  obtain ⟨pen, hreplays, hwithin, hsent, hpen⟩ := BandWalk.replays_ofPath
    hm.pen (hcorner ▸ hz.corner) rows p.use hpath
  rw [hcorner] at hreplays hwithin hpen hsent
  obtain ⟨walk, hwalk⟩ : ∃ walk, walk = BandWalk.ofPath
    ⟨.ofPixel d.state.rect.x, .ofPixel d.state.rect.y⟩ rows p.use p.path := ⟨_, rfl⟩
  rw [← hwalk] at hreplays hwithin hpen
  obtain ⟨r', hr'⟩ : ∃ r' : ReplayState, r' = { r with
      imager := r.pathImager
      band := { r.band with rect := { d.state.rect with
        x := Fixed.floor walk.pen.x, y := Fixed.floor walk.pen.y } }
      pen := pen.lifted } := ⟨_, rfl⟩
  have hafter : ({ r with pen } : ReplayState).afterPath = r' := by
    rw [hr']
    cases hdrawing : pen.drawing with
    | true =>
      rw [if_pos hdrawing] at hpen
      simp only [ReplayState.afterPath, hdrawing, if_true, hpen, hm.rect]
      rfl
    | false =>
      -- Nothing was sent, so the walk ends where it began and the corner is the same as before.
      have hfree : ¬ pen.drawing = true := by simp [hdrawing]
      rw [if_neg hfree] at hpen
      simp only [ReplayState.afterPath, hdrawing, Bool.false_eq_true, if_false, hpen,
        ← hm.rect, hm.rect ▸ hz.floor_x, hm.rect ▸ hz.floor_y]
      rfl
  have hlast : Replays (s.config.bandRect d.band) (Command.path (p.op source)) { r with pen }
      [pathCall (p.op source) r.pathImager pen.path color r.activeClip]
      ({ r with pen } : ReplayState).afterPath :=
    replays_path (r := { r with pen }) hcolor
  rw [hafter, hsent] at hlast
  refine ⟨r', ?_, ?_, ?_, ?_⟩
  · have := (h.replays.append hreplays).append (.single hlast)
    simpa [BandDraft.drawPath, ← hwalk] using this
  · simp only [BandDraft.drawPath, ← hwalk]
    subst hr'
    refine { hm with
      rect := rfl
      within := ⟨hz.allows _ hwithin.x, hz.allows _ hwithin.y, hm.within.width, hm.within.height⟩
      imager := ?_
      pen := ⟨rfl, rfl, rfl⟩ }
    intro hexact f hf
    exact ImagerState.withField_withLogOp (hm.imager hexact f hf) _
  · subst hr'
    exact h.tileSize
  · subst hr'
    exact h.tiles

end Drafted

end BandedPage
