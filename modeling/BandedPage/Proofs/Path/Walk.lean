import Mathlib
import BandedPage.Path.Walk
import BandedPage.Proofs.Path.Stream
import BandedPage.Proofs.Path.Script

/-!
# A walk along a path knows where the reader's pen is

Whatever part of a path a band is sent, the pen of the reader ends where the walk says. The walk
only ever goes to points of the path and to where it began, so no offset overflows if these lie
close enough together.
-/

namespace BandedPage

/-- Fixed-point coordinates, any two of which have a difference of 32 bits. -/
structure FixedRange where
  least : Int
  stop : Int
  le_least : -2147483648 ≤ least
  stop_le : stop ≤ 2147483648
  span_le : stop - least ≤ 2147483648

namespace FixedRange

def Allows (z : FixedRange) (v : Int) : Prop := z.least ≤ v ∧ v < z.stop

variable {z : FixedRange} {v w : Int}

theorem Allows.fits32 (h : z.Allows v) : Word.fits32 v = true := by
  obtain ⟨hlo, hhi⟩ := h
  have := z.le_least
  have := z.stop_le
  rw [Word.fits32_iff]
  omega

theorem Allows.sub_fits32 (h : z.Allows v) (h' : z.Allows w) : Word.fits32 (w - v) = true := by
  obtain ⟨hlo, hhi⟩ := h
  obtain ⟨hlo', hhi'⟩ := h'
  have := z.span_le
  rw [Word.fits32_iff]
  omega

end FixedRange

/-- Both coordinates of the point are in the range. -/
structure Point.Within (z : FixedRange) (p : Point) : Prop where
  x : z.Allows p.x
  y : z.Allows p.y

namespace Point.Within

variable {z : FixedRange} {p p' : Point}

end Point.Within

theorem Point.offset_eq (p p' : Point) : (⟨p.x + (p'.x - p.x), p.y + (p'.y - p.y)⟩ : Point) = p' := by
  rw [add_sub_cancel, add_sub_cancel]

/-- The path names points of the range only. -/
def Path.Within (z : FixedRange) (path : Path) : Prop :=
  ∀ segment ∈ path.segments, ∀ p ∈ segment.points, p.Within z

namespace BandWalk

/-- What the walk has sent leads the pen `pen₀` along the trail to where the walk says, and the walk
stays within the range. -/
structure Tracks (z : FixedRange) (pen₀ : Pen) (w : BandWalk) (trail : List Segment) : Prop where
  exists_script : ∃ script notes, w.stream.Sends script ∧
    pen₀.performScript script = .ok { pen₀.followAll trail with notes }
  isAt : (pen₀.followAll trail).IsAt w.pen w.sentStart
  pen : w.pen.Within z
  start : w.start.Within z
  outside : w.outside.Within z
  sentStart : w.sentStart.Within z

namespace Tracks

variable {z : FixedRange} {pen₀ : Pen} {w : BandWalk} {trail : List Segment}

theorem ofOrigin {origin : Point} (hpen : pen₀.IsAt origin origin) (horigin : origin.Within z)
    (rows : RowRange) (use : PathUse) : (BandWalk.ofOrigin origin rows use).Tracks z pen₀ [] where
  exists_script := ⟨[], pen₀.notes, .start, rfl⟩
  isAt := hpen
  pen := horigin
  start := horigin
  outside := horigin
  sentStart := horigin

/-- One more segment is sent. -/
theorem sends (h : w.Tracks z pen₀ trail) {s : Segment} (hs : ∀ q ∈ s.points, q.Within z)
    {stream : SegmentStream}
    (hsends : ∀ script, w.stream.Sends script → stream.Sends (script ++ [s.movesFrom w.pen])) :
    (∃ script notes, stream.Sends script ∧
      pen₀.performScript script = .ok { pen₀.followAll (trail ++ [s]) with notes }) ∧
    (pen₀.followAll (trail ++ [s])).IsAt (s.stop w.sentStart) (s.origin w.sentStart) := by
  obtain ⟨script, notes, hstream, hscript⟩ := h.exists_script
  have hat := h.isAt
  rw [Pen.followAll_append]
  generalize pen₀.followAll trail = pen at hscript hat
  have hmove := Pen.performMarked_movesFrom hat fun q hq => ⟨(hs q hq).x.fits32, (hs q hq).y.fits32⟩
  refine ⟨⟨script ++ [s.movesFrom w.pen], (s.movesFrom w.pen).notes, hsends script hstream, ?_⟩,
    hat.follow s⟩
  refine Pen.performScript_append_ok.mpr ⟨{ pen with notes }, hscript, ?_⟩
  rw [Pen.performScript_cons]
  rw [show ({ pen with notes } : Pen).performMarked (s.movesFrom w.pen) =
    pen.performMarked (s.movesFrom w.pen) from rfl, hmove]
  rfl

theorem drawLine (h : w.Tracks z pen₀ trail) {p : Point} (hp : p.Within z) (notes : SegmentNotes) :
    (w.drawLine p notes).Tracks z pen₀ (trail ++ [.line p notes]) := by
  obtain ⟨hscript, hat⟩ := h.sends (s := .line p notes) (by simpa [Segment.points] using hp)
    fun script hsends => hsends.line (h.pen.x.sub_fits32 hp.x) (h.pen.y.sub_fits32 hp.y) notes
  exact { h with exists_script := hscript, isAt := hat, pen := hp }

theorem movePen (h : w.Tracks z pen₀ trail) {p : Point} (hp : p.Within z) :
    (w.movePen p).Tracks z pen₀ (trail ++ [.move p]) := by
  obtain ⟨hscript, hat⟩ := h.sends (s := .move p) (by simpa [Segment.points] using hp)
    fun script hsends => hsends.move (h.pen.x.sub_fits32 hp.x) (h.pen.y.sub_fits32 hp.y)
  exact { h with exists_script := hscript, isAt := hat, pen := hp, sentStart := hp }

theorem drawCurve (h : w.Tracks z pen₀ trail) {c1 c2 p : Point} (hc1 : c1.Within z)
    (hc2 : c2.Within z) (hp : p.Within z) (notes : SegmentNotes) :
    ({ w with stream := w.stream.curve w.pen c1 c2 p notes, pen := p } : BandWalk).Tracks z pen₀
      (trail ++ [.curve c1 c2 p notes]) := by
  have hfits : ∀ d ∈ [c1.x - w.pen.x, c1.y - w.pen.y, c2.x - c1.x, c2.y - c1.y, p.x - c2.x,
      p.y - c2.y], Word.fits32 d = true := by
    simp only [List.mem_cons, List.not_mem_nil, or_false, forall_eq_or_imp, forall_eq]
    exact ⟨h.pen.x.sub_fits32 hc1.x, h.pen.y.sub_fits32 hc1.y, hc1.x.sub_fits32 hc2.x,
      hc1.y.sub_fits32 hc2.y, hc2.x.sub_fits32 hp.x, hc2.y.sub_fits32 hp.y⟩
  obtain ⟨hscript, hat⟩ := h.sends (s := .curve c1 c2 p notes)
    (by simpa [Segment.points] using ⟨hc1, hc2, hp⟩) fun script hsends => hsends.curve hfits notes
  exact { h with exists_script := hscript, isAt := hat, pen := hp }

theorem flush (h : w.Tracks z pen₀ trail) :
    ({ w with stream := w.stream.flush } : BandWalk).Tracks z pen₀ trail := by
  obtain ⟨script, notes, hsends, hscript⟩ := h.exists_script
  exact { h with exists_script := ⟨script, notes, hsends.flush_sends, hscript⟩ }

theorem sendClose (h : w.Tracks z pen₀ trail) :
    ({ w with stream := w.stream.close, pen := w.sentStart } : BandWalk).Tracks z pen₀
      (trail ++ [.close]) := by
  obtain ⟨hscript, hat⟩ := h.sends (s := .close) (by simp [Segment.points])
    fun script hsends => hsends.close
  exact { h with exists_script := hscript, isAt := hat, pen := h.sentStart }

theorem catchUp (h : w.Tracks z pen₀ trail) : w.catchUp.Tracks z pen₀ (trail ++ w.catchUpTrail) := by
  rw [BandWalk.catchUp, catchUpTrail]
  split
  · split
    · exact h.movePen h.outside
    · exact { h.drawLine h.outside w.outsideNotes with }
  · rwa [List.append_nil]

theorem skip (h : w.Tracks z pen₀ trail) {p : Point} (hp : p.Within z) (notes : SegmentNotes) :
    (w.skip p notes).Tracks z pen₀ trail := { h with outside := hp }

theorem goTo (h : w.Tracks z pen₀ trail) (side : BandSide) {p : Point} (hp : p.Within z) :
    (w.goTo side p).Tracks z pen₀ trail := by
  refine { h with outside := ?_ }
  show (if side = .within then w.outside else p).Within z
  split
  · exact h.outside
  · exact hp

theorem afterDrawing (h : w.Tracks z pen₀ trail) : w.afterDrawing.Tracks z pen₀ trail := { h with }

theorem returnToStart (h : w.Tracks z pen₀ trail) :
    w.returnToStart.Tracks z pen₀ (trail ++ w.returnTrail) := by
  have hbehind : (if w.isBehind then { w.drawLine w.outside w.outsideNotes with unsent := false }
      else w).Tracks z pen₀
        (trail ++ if w.isBehind then [.line w.outside w.outsideNotes] else []) := by
    split
    · exact { h.drawLine h.outside w.outsideNotes with }
    · rwa [List.append_nil]
  simp only [BandWalk.returnToStart, returnTrail]
  by_cases hside : w.side = w.startSide
  · rwa [if_pos hside, if_pos hside, List.append_nil]
  rw [if_neg hside, if_neg hside, ← List.append_assoc]
  have hsame : (if w.isBehind then { w.drawLine w.outside w.outsideNotes with unsent := false }
      else w).progress = w.progress ∧ (if w.isBehind then
        { w.drawLine w.outside w.outsideNotes with unsent := false } else w).startSkipped =
          w.startSkipped ∧ (if w.isBehind then
        { w.drawLine w.outside w.outsideNotes with unsent := false } else w).start = w.start := by
    split <;> exact ⟨rfl, rfl, rfl⟩
  generalize (if w.isBehind then { w.drawLine w.outside w.outsideNotes with unsent := false }
    else w) = w' at hbehind hsame
  obtain ⟨hprogress, hskipped, hstart⟩ := hsame
  rw [hprogress, hskipped]
  split
  · rw [hstart]
    exact hbehind.drawLine h.start 0
  · rwa [List.append_nil]

theorem returnToStart_keeps (w : BandWalk) :
    w.returnToStart.use = w.use ∧ w.returnToStart.progress = w.progress := by
  simp only [BandWalk.returnToStart]
  split
  · exact ⟨rfl, rfl⟩
  · split <;> split <;> exact ⟨rfl, rfl⟩

theorem close (h : w.Tracks z pen₀ trail) : w.close.Tracks z pen₀ (trail ++ w.closeTrail) := by
  simp only [BandWalk.close, closeTrail]
  have h' := h.returnToStart
  obtain ⟨huse, hprogress⟩ := returnToStart_keeps w
  generalize w.returnToStart = w' at h' huse hprogress
  rw [huse, hprogress, ← List.append_assoc]
  split
  · rw [List.append_nil]
    exact { h'.flush with }
  · exact { h'.sendClose with }

theorem closeIfImplicit (h : w.Tracks z pen₀ trail) :
    w.closeIfImplicit.Tracks z pen₀ (trail ++ w.implicitTrail) := by
  rw [BandWalk.closeIfImplicit, implicitTrail]
  split
  · exact h.close
  · rwa [List.append_nil]

theorem moveTo (h : w.Tracks z pen₀ trail) {p : Point} (hp : p.Within z) :
    (w.moveTo p).Tracks z pen₀ (trail ++ w.stepTrail (.move p)) := by
  simp only [BandWalk.moveTo, stepTrail]
  rw [← List.append_assoc]
  have h' := h.closeIfImplicit
  generalize w.closeIfImplicit = w' at h'
  generalize trail ++ w.implicitTrail = trail' at h' ⊢
  have hbegun : ({ w' with
      progress := .moved, start := p, startSkipped := false, side := w.rows.sideOf p.y,
      startSide := w.rows.sideOf p.y } : BandWalk).Tracks z pen₀ trail' := { h' with start := hp }
  split
  · exact hbegun.movePen hp
  · rw [List.append_nil]
    exact { hbegun with outside := hp }

theorem lineTo (h : w.Tracks z pen₀ trail) {p : Point} (hp : p.Within z) (notes : SegmentNotes) :
    (w.lineTo p notes).Tracks z pen₀ (trail ++ w.stepTrail (.line p notes)) := by
  simp only [BandWalk.lineTo, stepTrail]
  split
  · rw [List.append_nil]
    exact h.skip hp _
  · rw [← List.append_assoc]
    exact ((h.catchUp.goTo _ hp).drawLine hp _).afterDrawing

theorem curveTo (h : w.Tracks z pen₀ trail) {c1 c2 p : Point} (hc1 : c1.Within z)
    (hc2 : c2.Within z) (hp : p.Within z) (notes : SegmentNotes) :
    (w.curveTo c1 c2 p notes).Tracks z pen₀ (trail ++ w.stepTrail (.curve c1 c2 p notes)) := by
  simp only [BandWalk.curveTo, stepTrail]
  split
  · rw [List.append_nil]
    exact h.skip hp _
  · rw [← List.append_assoc]
    exact ((h.catchUp.goTo _ hp).drawCurve hc1 hc2 hp _).afterDrawing

theorem step (h : w.Tracks z pen₀ trail) {segment : Segment}
    (hs : ∀ p ∈ segment.points, p.Within z) :
    (w.step segment).Tracks z pen₀ (trail ++ w.stepTrail segment) := by
  cases segment with
  | move p => exact h.moveTo (hs p List.mem_cons_self)
  | line p notes => exact h.lineTo (hs p List.mem_cons_self) notes
  | curve c1 c2 p notes =>
    exact h.curveTo (hs c1 (by simp [Segment.points])) (hs c2 (by simp [Segment.points]))
      (hs p (by simp [Segment.points])) notes
  | close => exact h.close

/-- The rest of the path is sent to its end. -/
theorem toEnd {segments : List Segment} (h : w.Tracks z pen₀ trail)
    (hs : ∀ segment ∈ segments, ∀ p ∈ segment.points, p.Within z) :
    (segments.foldl BandWalk.step w).finish.Tracks z pen₀ (trail ++ w.trailFrom segments) := by
  induction segments generalizing w trail with
  | nil => exact h.closeIfImplicit.flush
  | cons segment segments ih =>
    have hstep := h.step (hs segment List.mem_cons_self)
    have := ih hstep fun segment' hmem => hs segment' (List.mem_cons_of_mem segment hmem)
    rwa [List.append_assoc] at this

end Tracks

@[simp] theorem finish_waiting (w : BandWalk) : w.finish.stream.waiting = .none :=
  SegmentStream.flush_waiting _

/-- The walk along a whole path. -/
theorem tracks_ofPath {z : FixedRange} {pen₀ : Pen} {origin : Point}
    (hpen : pen₀.IsAt origin origin) (horigin : origin.Within z) (rows : RowRange) (use : PathUse)
    {path : Path} (hpath : path.Within z) :
    (ofPath origin rows use path).Tracks z pen₀ (trail origin rows use path) := by
  rw [ofPath, ← Array.foldl_toList]
  exact (Tracks.ofOrigin hpen horigin rows use).toEnd fun segment hmem =>
    hpath segment (Array.mem_toList_iff.mp hmem)

/-- Where a path is drawn from a pen that has drawn nothing, only the point of the pen counts. -/
theorem path_followAll {pen : Pen} (hpath : pen.path = {}) (hstart : pen.start = pen.point)
    (trail : List Segment) :
    (pen.followAll trail).path =
      (({ point := pen.point, start := pen.point } : Pen).followAll trail).path := by
  have key : ∀ (trail : List Segment) (a b : Pen), a.path = b.path → a.point = b.point →
      a.start = b.start → (a.followAll trail).path = (b.followAll trail).path := by
    intro trail
    induction trail with
    | nil =>
      intro a b hpath _ _
      exact hpath
    | cons s trail ih =>
      intro a b hpath hpoint hstart
      refine ih (a.follow s) (b.follow s) ?_ ?_ ?_
      all_goals cases s <;> simp only [Pen.follow, Pen.ensureSubpath, hpath, hpoint, hstart]
      all_goals split <;> simp only [hpath, hstart]
  exact key trail pen _ hpath rfl hstart

/-- The commands of a walk, replayed where the walk began, leave the pen where the walk ends, with
the path that the walk sends; if there are none, the walk ends where it began. -/
theorem replays_ofPath {z : FixedRange} {box : Rect} {r : ReplayState}
    (hpen : r.pen.drawing = false ∧ r.pen.path = {} ∧ r.pen.notes = 0)
    (horigin : r.corner.Within z) (rows : RowRange) (use : PathUse) {path : Path}
    (hpath : path.Within z) :
    ∃ pen, ReplaysAll box (ofPath r.corner rows use path).stream.commands.toList r [] { r with pen } ∧
      (ofPath r.corner rows use path).pen.Within z ∧
      pen.path = sentPath r.corner rows use path ∧
      if pen.drawing then pen.point = (ofPath r.corner rows use path).pen
      else (ofPath r.corner rows use path).pen = r.corner := by
  obtain ⟨hdrawing, hempty, hnotes⟩ := hpen
  have h := tracks_ofPath (Pen.IsAt.startAt hdrawing hempty r.corner) horigin rows use hpath
  obtain ⟨script, notes, hsends, hscript⟩ := h.exists_script
  obtain ⟨⟨sent, heq, hleads⟩, -⟩ := hsends
  have hwaiting : (ofPath r.corner rows use path).stream.waiting = .none := finish_waiting _
  rw [hwaiting, WaitingLines.script, List.append_nil] at heq
  subst heq
  obtain ⟨pen', hreplays, hstart, hbegun⟩ := hleads box r _ hnotes hscript
  have hsent : ((r.pen.startAt r.corner).followAll (trail r.corner rows use path)).path =
      sentPath r.corner rows use path := by
    have hfree : ¬ r.pen.drawing = true := by simp [hdrawing]
    rw [Pen.startAt, if_neg hfree]
    apply path_followAll
    · exact hempty
    · rfl
  refine ⟨pen', hreplays, h.pen, ?_⟩
  by_cases hd : pen'.drawing = true
  · rw [Pen.startAt_drawing hd] at hstart
    rw [if_pos hd, hstart]
    exact ⟨hsent, h.isAt.point_eq⟩
  · obtain rfl := hbegun.resolve_left hd
    rw [Pen.performScript_nil, Except.ok.injEq] at hscript
    have hpath' := congrArg Pen.path hstart
    rw [Pen.startAt, if_neg hd] at hpath'
    rw [if_neg hd]
    refine ⟨hpath'.trans hsent, ?_⟩
    rw [← h.isAt.point_eq]
    have hpoint := congrArg Pen.point hscript
    exact hpoint.symm.trans (Pen.IsAt.startAt hdrawing hempty r.corner).point_eq

end BandWalk

end BandedPage
