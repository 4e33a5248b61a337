import Mathlib
import BandedPage.Proofs.Path.Lines
import BandedPage.Proofs.Path.Skipping

/-!
# Skipping loses no crossing

A walk for filling leaves out what lies above or below its rows, and never closes a subpath but by
a line to the side where it began. Of a path of lines, the sides that a band is sent cross every
height in its rows where those of the path do, in the same order and in the same directions.
-/

namespace BandedPage

namespace BandWalk

/-- The walk has come along the path of `t`, and the sides that the pen was sent cross the height
where those of the path do. -/
structure KeepsCrossings (s : Fixed) (w : BandWalk) (pen : Pen) (t : LineTrace)
    (rest : List Segment) : Prop where
  fill : w.use.closesImplicitly = true
  shows : w.rows.Shows s
  traced : pen.IsTraced
  pen_eq : pen.point = w.pen
  start_eq : pen.start = w.sentStart
  closed : w.progress = .closed → ∀ s ∈ rest.head?, ∃ p, s = .move p
  start : w.progress ≠ .closed → t.start = w.start ∧ w.startSide = w.rows.sideOf w.start.y
  side : w.progress ≠ .closed → w.side = w.rows.sideOf t.point.y
  within : w.progress ≠ .closed → w.side = .within → w.pen = t.point
  outside : w.progress ≠ .closed → w.side ≠ .within → w.outside = t.point
  /-- No side of the subpath that has begun is drawn yet. -/
  idle : w.progress ≠ .drawn →
    crossingsOf s pen.path.sideTrace.shut.lines = crossingsOf s t.shut.lines ∧
      (w.unsent = true ∨ w.rows.sideOf w.pen.y = .within)
  moved : w.progress = .moved → w.side = w.startSide ∧
    (w.startSkipped = false → t.point = w.start) ∧
    (w.startSkipped = true → w.side ≠ .within) ∧
    (w.side = .within → pen.path.current.isSome = true ∧ w.sentStart = w.start)
  drawn : w.progress = .drawn → pen.path.current.isSome = true ∧
    crossingsOf s pen.path.sideTrace.lines = crossingsOf s t.lines ∧
    (w.side ≠ .within → w.rows.sideOf w.pen.y = w.side) ∧ w.KnowsStart

/-- The pen is where the path is, and no side that crosses the height was drawn on the way. -/
structure Abreast (s : Fixed) (w : BandWalk) (pen : Pen) (t : LineTrace) : Prop where
  traced : pen.IsTraced
  point : pen.point = t.point
  pen_eq : w.pen = t.point
  start_eq : pen.start = w.sentStart
  crossings : crossingsOf s pen.path.sideTrace.lines = crossingsOf s t.lines
  knows : w.KnowsStart

variable {s : Fixed} {w : BandWalk} {pen : Pen} {t : LineTrace} {rest : List Segment}

namespace KeepsCrossings

theorem ofOrigin (origin : Point) {rows : RowRange} (hrows : rows.Shows s) {use : PathUse}
    (huse : use.closesImplicitly = true) (hrest : ∀ s ∈ rest.head?, ∃ p, s = .move p) :
    (BandWalk.ofOrigin origin rows use).KeepsCrossings s { point := origin, start := origin } {}
      rest where
  fill := huse
  shows := hrows
  traced := ⟨fun h => (by cases h), fun _ => ⟨rfl, rfl⟩⟩
  pen_eq := rfl
  start_eq := rfl
  closed _ := hrest
  start h := absurd rfl h
  side h := absurd rfl h
  within h := absurd rfl h
  outside h := absurd rfl h
  idle _ := ⟨rfl, .inl rfl⟩
  moved h := by cases h
  drawn h := by cases h

/-- What is drawn is drawn on a subpath. -/
theorem isOpen {segment : Segment} (h : w.KeepsCrossings s pen t (segment :: rest))
    (hs : ∀ p, segment ≠ .move p) : w.progress ≠ .closed :=
  fun hclosed => (h.closed hclosed segment rfl).elim hs

/-- A subpath that was not drawn on has no side yet that crosses the height. -/
theorem crossingsOf_of_moved (h : w.KeepsCrossings s pen t rest) (hmoved : w.progress = .moved) :
    crossingsOf s t.shut.lines = crossingsOf s t.lines := by
  have hopen : w.progress ≠ .closed := by
    rw [hmoved]
    decide
  obtain ⟨hside, hunskipped, hskipped, -⟩ := h.moved hmoved
  obtain ⟨ht, hstartSide⟩ := h.start hopen
  have hnone : crossing? s (t.point, t.start) = none := by
    by_cases hwithin : w.side = .within
    · have hno : w.startSkipped = false := by
        cases hskip : w.startSkipped with
        | false => rfl
        | true => exact absurd hwithin (hskipped hskip)
      rw [ht, hunskipped hno, LineTrace.crossing?_self]
    · rw [ht]
      exact h.shows.crossing_eq_none (h.side hopen).symm (hstartSide.symm.trans hside.symm) hwithin
  rw [LineTrace.crossingsOf_shut, LineTrace.crossingsOf_append]
  simp [crossingsOf, hnone]

theorem isBehind_of_moved (h : w.KeepsCrossings s pen t rest) (hmoved : w.progress = .moved)
    (hout : w.side ≠ .within) : w.isBehind = true := by
  have hopen : w.progress ≠ .closed := by
    rw [hmoved]
    decide
  have hundrawn : w.progress ≠ .drawn := by
    rw [hmoved]
    decide
  have hcame : w.pen ≠ w.outside ∨ w.unsent = true := by
    rcases (h.idle hundrawn).2 with hunsent | hpen
    · exact .inr hunsent
    · refine .inl fun heq => hout ?_
      rw [heq, h.outside hopen hout] at hpen
      rw [h.side hopen, hpen]
  simp [isBehind, hout, hcame]

/-- Where a subpath that was not drawn on yet comes to the rows, a move takes the pen there. -/
theorem catchUp_of_moved (h : w.KeepsCrossings s pen t rest) (hmoved : w.progress = .moved) :
    Abreast s w.catchUp (pen.followAll w.catchUpTrail) t := by
  have hopen : w.progress ≠ .closed := by
    rw [hmoved]
    decide
  have hundrawn : w.progress ≠ .drawn := by
    rw [hmoved]
    decide
  obtain ⟨hside, hunskipped, hskipped, hin⟩ := h.moved hmoved
  obtain ⟨ht, hstartSide⟩ := h.start hopen
  have hcrossings := (h.idle hundrawn).1.trans (h.crossingsOf_of_moved hmoved)
  rw [BandWalk.catchUp, catchUpTrail]
  by_cases hwithin : w.side = .within
  · have hbehind : ¬ w.isBehind = true := by simp [isBehind, hwithin]
    have hno : w.startSkipped = false := by
      cases hskip : w.startSkipped with
      | false => rfl
      | true => exact absurd hwithin (hskipped hskip)
    obtain ⟨hcurrent, hsent⟩ := hin hwithin
    obtain ⟨-, hat, hfrom⟩ := h.traced.begun hcurrent
    have hpen := h.within hopen hwithin
    rw [if_neg hbehind, if_neg hbehind]
    refine ⟨h.traced, h.pen_eq.trans hpen, hpen, h.start_eq, ?_, ?_⟩
    · have hshut : pen.path.sideTrace.shut = pen.path.sideTrace := by
        refine if_pos ?_
        rw [Path.sideTrace_point, Path.sideTrace_start, hat, hfrom, h.pen_eq, hpen,
          hunskipped hno, h.start_eq, hsent]
      rw [hshut] at hcrossings
      exact hcrossings
    · rw [KnowsStart, if_neg (by simp [hno])]
      exact hsent
  · have hbehind := h.isBehind_of_moved hmoved hwithin
    have hat : w.outside = t.point := h.outside hopen hwithin
    rw [if_pos hbehind, if_pos hmoved, if_pos hbehind, if_pos hmoved]
    refine ⟨Pen.IsTraced.moveTo pen w.outside, hat, hat, rfl, ?_, ?_⟩
    · show crossingsOf s (pen.path.moveTo w.outside).sideTrace.lines = _
      rw [Path.sideTrace_moveTo]
      exact hcrossings
    · show (w.movePen w.outside).KnowsStart
      rw [KnowsStart]
      split
      · exact ⟨hside ▸ hwithin, by
          show w.rows.sideOf w.outside.y = w.startSide
          rw [hat, ← h.side hopen, hside]⟩
      · next hno => exact hat.trans (hunskipped (Bool.eq_false_of_not_eq_true hno))

/-- A subpath that was drawn on comes back to the rows along a side that does not cross them. -/
theorem catchUp_of_drawn (h : w.KeepsCrossings s pen t rest) (hdrawn : w.progress = .drawn) :
    Abreast s w.catchUp (pen.followAll w.catchUpTrail) t ∧
      (pen.followAll w.catchUpTrail).path.current.isSome = true ∧
      w.catchUp.sentStart = w.sentStart ∧
      w.catchUpTrail = if w.isBehind then [.line w.outside w.outsideNotes] else [] := by
  have hopen : w.progress ≠ .closed := by
    rw [hdrawn]
    decide
  have hmoved : ¬ w.progress = .moved := by
    rw [hdrawn]
    decide
  obtain ⟨hcurrent, hcrossings, hside, hknows⟩ := h.drawn hdrawn
  rw [BandWalk.catchUp, catchUpTrail]
  by_cases hbehind : w.isBehind = true
  · have hout : w.side ≠ .within := by
      intro hwithin
      simp [isBehind, hwithin] at hbehind
    have hat : w.outside = t.point := h.outside hopen hout
    rw [if_pos hbehind, if_neg hmoved, if_pos hbehind, if_neg hmoved, if_pos hbehind]
    obtain ⟨htraced, -, hback⟩ := h.traced.lineTo w.outside w.outsideNotes
    refine ⟨⟨htraced, hat, hat, ?_, ?_, hknows⟩, rfl, rfl, rfl⟩
    · exact h.traced.ensureSubpath_start.trans h.start_eq
    · have hnone : crossing? s (w.pen, w.outside) = none :=
        h.shows.crossing_eq_none (hside hout) (by rw [hat, ← h.side hopen]) hout
      show crossingsOf s (pen.follow (.line w.outside w.outsideNotes)).path.sideTrace.lines = _
      rw [h.traced.sides_lineTo, LineTrace.crossingsOf_append, hcrossings, h.pen_eq]
      simp [crossingsOf, hnone]
  · have hat : w.pen = t.point := by
      by_cases hwithin : w.side = .within
      · exact h.within hopen hwithin
      · simp only [isBehind, Bool.and_eq_true, Bool.or_eq_true, decide_eq_true_eq, not_and, not_or,
          not_not] at hbehind
        exact (hbehind hwithin).1.trans (h.outside hopen hwithin)
    rw [if_neg hbehind, if_neg hbehind, if_neg hbehind]
    exact ⟨⟨h.traced, h.pen_eq.trans hat, hat, h.start_eq, hcrossings, hknows⟩, hcurrent, rfl, rfl⟩

theorem catchUp (h : w.KeepsCrossings s pen t rest) (hopen : w.progress ≠ .closed) :
    Abreast s w.catchUp (pen.followAll w.catchUpTrail) t := by
  cases hprogress : w.progress with
  | closed => exact absurd hprogress hopen
  | moved => exact h.catchUp_of_moved hprogress
  | drawn => exact (h.catchUp_of_drawn hprogress).1

/-- A subpath that was drawn on returns to its start as the path does, as far as it crosses. -/
theorem returnToStart (h : w.KeepsCrossings s pen t rest) (hdrawn : w.progress = .drawn) :
    (pen.followAll w.returnTrail).IsTraced ∧
      (pen.followAll w.returnTrail).point = w.returnToStart.pen ∧
      (pen.followAll w.returnTrail).start = w.sentStart ∧
      crossingsOf s (pen.followAll w.returnTrail).path.sideTrace.shut.lines =
        crossingsOf s t.shut.lines := by
  have hopen : w.progress ≠ .closed := by
    rw [hdrawn]
    decide
  obtain ⟨ht, hstartSide⟩ := h.start hopen
  obtain ⟨hcurrent, hcrossings, hpenSide, hknows⟩ := h.drawn hdrawn
  rw [KnowsStart] at hknows
  rw [returnTrail, BandWalk.returnToStart]
  by_cases hside : w.side = w.startSide
  · rw [if_pos hside, if_pos hside]
    refine ⟨h.traced, h.pen_eq, h.start_eq, ?_⟩
    show crossingsOf s pen.path.sideTrace.shut.lines = _
    rw [h.traced.crossingsOf_shut hcurrent, LineTrace.crossingsOf_shut,
      LineTrace.crossingsOf_append, LineTrace.crossingsOf_append, hcrossings, h.pen_eq, h.start_eq,
      ht]
    by_cases hwithin : w.side = .within
    · have hno : ¬ w.startSkipped = true := by
        intro hskip
        rw [if_pos hskip] at hknows
        exact hknows.1 (hside ▸ hwithin)
      rw [if_neg hno] at hknows
      rw [h.within hopen hwithin, hknows]
    · have hsent : w.rows.sideOf w.sentStart.y = w.side := by
        split at hknows
        · exact hknows.2.trans hside.symm
        · rw [hknows, ← hstartSide, hside]
      have hnone := h.shows.crossing_eq_none (hpenSide hwithin) hsent hwithin
      have hnone' := h.shows.crossing_eq_none (h.side hopen).symm
        (hstartSide.symm.trans hside.symm) hwithin
      simp [crossingsOf, hnone, hnone']
  rw [if_neg hside, if_neg hside, Pen.followAll_append]
  obtain ⟨habreast, hcurrent', hsentStart, htrail⟩ := h.catchUp_of_drawn hdrawn
  have hcaught : (if w.isBehind then { w.drawLine w.outside w.outsideNotes with unsent := false }
      else w) = w.catchUp := by
    rw [BandWalk.catchUp, if_neg (by rw [hdrawn]; decide : ¬ w.progress = .moved)]
  have hprogress : w.catchUp.progress = .drawn ∧ w.catchUp.startSkipped = w.startSkipped ∧
      w.catchUp.start = w.start := by
    rw [← hcaught]
    split <;> exact ⟨hdrawn, rfl, rfl⟩
  rw [← htrail, hcaught]
  dsimp only
  rw [hprogress.1, hprogress.2.1, hdrawn]
  have hstart := habreast.start_eq.trans hsentStart
  have htraced := habreast.traced
  have hpoint := habreast.point
  have hsides := habreast.crossings
  have hpen := habreast.pen_eq
  generalize pen.followAll w.catchUpTrail = pen₁ at *
  by_cases hskip : w.startSkipped = true
  · -- The closing line is drawn, and closing goes on to the start that was sent.
    rw [if_pos hskip] at hknows
    rw [if_pos (by simp [hskip]), if_pos (by simp [hskip])]
    obtain ⟨htraced', -, -⟩ := htraced.lineTo w.start 0
    have hnone : crossing? s (w.start, w.sentStart) = none :=
      h.shows.crossing_eq_none hstartSide.symm hknows.2 hknows.1
    have hstart' : (pen₁.follow (.line w.start 0)).start = w.sentStart :=
      htraced.ensureSubpath_start.trans hstart
    refine ⟨htraced', hprogress.2.2.symm, hstart', ?_⟩
    show crossingsOf s (pen₁.follow (.line w.start 0)).path.sideTrace.shut.lines = _
    rw [htraced'.crossingsOf_shut rfl, LineTrace.crossingsOf_shut, htraced.sides_lineTo, hstart', ht,
      hpoint]
    show crossingsOf s ((pen₁.path.sideTrace.lines ++ [(t.point, w.start)]) ++
      [(w.start, w.sentStart)]) = _
    rw [LineTrace.crossingsOf_append, LineTrace.crossingsOf_append, LineTrace.crossingsOf_append,
      hsides]
    simp [crossingsOf, hnone]
  · rw [if_neg hskip] at hknows
    rw [if_neg (by simp [hskip]), if_neg (by simp [hskip])]
    refine ⟨htraced, hpoint.trans hpen.symm, hstart, ?_⟩
    show crossingsOf s pen₁.path.sideTrace.shut.lines = _
    rw [htraced.crossingsOf_shut hcurrent', LineTrace.crossingsOf_shut,
      LineTrace.crossingsOf_append, LineTrace.crossingsOf_append, hsides, hpoint, hstart, hknows, ht]

/-- A subpath that counts as closed is closed before the next one begins. -/
theorem closeIfImplicit (h : w.KeepsCrossings s pen t rest) :
    ∃ stream point progress unsent,
      w.closeIfImplicit = { w with stream, pen := point, progress, unsent } ∧
      (pen.followAll w.implicitTrail).IsTraced ∧
      (pen.followAll w.implicitTrail).point = point ∧
      (pen.followAll w.implicitTrail).start = w.sentStart ∧
      crossingsOf s (pen.followAll w.implicitTrail).path.sideTrace.shut.lines =
        crossingsOf s t.shut.lines ∧
      (unsent = true ∨ w.rows.sideOf point.y = .within) := by
  rw [BandWalk.closeIfImplicit, implicitTrail]
  by_cases hdrawn : w.progress = .drawn
  · have hcloses : (decide (w.progress = .drawn) && w.use.closesImplicitly) = true := by
      simp [hdrawn, h.fill]
    have himplicit : (w.use.closesImplicitly || decide (w.progress ≠ .drawn)) = true := by
      simp [h.fill]
    obtain ⟨stream, point, unsent, heq⟩ := KeepsLines.returnToStart_eq w
    obtain ⟨htraced, hpoint, hstart, hcrossings⟩ := h.returnToStart hdrawn
    rw [heq] at hpoint
    rw [if_pos hcloses, if_pos hcloses, BandWalk.close, closeTrail, heq, if_pos himplicit,
      if_pos himplicit, List.append_nil]
    exact ⟨_, _, _, _, rfl, htraced, hpoint, hstart, hcrossings, .inl rfl⟩
  · have hnone : ¬ (decide (w.progress = .drawn) && w.use.closesImplicitly) = true := by
      simp [hdrawn]
    rw [if_neg hnone, if_neg hnone]
    obtain ⟨hcrossings, hidle⟩ := h.idle hdrawn
    exact ⟨_, _, _, _, rfl, h.traced, h.pen_eq, h.start_eq, hcrossings, hidle⟩

theorem moveTo {p : Point} (h : w.KeepsCrossings s pen t (.move p :: rest)) :
    (w.moveTo p).KeepsCrossings s (pen.followAll (w.stepTrail (.move p))) (t.stepShut (.move p))
      rest := by
  obtain ⟨stream, point, progress, unsent, heq, htraced, hpoint, hstart, hcrossings, hidle⟩ :=
    h.closeIfImplicit
  simp only [BandWalk.moveTo, stepTrail, heq, Pen.followAll_append]
  generalize pen.followAll w.implicitTrail = pen₁ at *
  have hshut : ({ t.shut with point := p, start := p } : LineTrace).shut =
      { t.shut with point := p, start := p } := if_pos rfl
  by_cases hside : w.rows.sideOf p.y = .within
  · rw [if_pos hside, if_pos hside]
    exact {
      fill := h.fill
      shows := h.shows
      traced := Pen.IsTraced.moveTo pen₁ p
      pen_eq := rfl
      start_eq := rfl
      closed := fun hclosed => by cases hclosed
      start := fun _ => ⟨rfl, rfl⟩
      side := fun _ => rfl
      within := fun _ _ => rfl
      outside := fun _ hout => absurd hside hout
      idle := fun _ => by
        refine ⟨?_, .inr hside⟩
        show crossingsOf s (pen₁.path.moveTo p).sideTrace.shut.lines =
          crossingsOf s ({ t.shut with point := p, start := p } : LineTrace).shut.lines
        rw [hshut, Path.sideTrace_moveTo]
        exact (congrArg _ (congrArg LineTrace.lines (if_pos rfl))).trans hcrossings
      moved := fun _ => ⟨rfl, fun _ => rfl, fun hskip => (by cases hskip), fun _ => ⟨rfl, rfl⟩⟩
      drawn := fun hdrawn => by cases hdrawn }
  · rw [if_neg hside, if_neg hside]
    exact {
      fill := h.fill
      shows := h.shows
      traced := htraced
      pen_eq := hpoint
      start_eq := hstart
      closed := fun hclosed => by cases hclosed
      start := fun _ => ⟨rfl, rfl⟩
      side := fun _ => rfl
      within := fun _ hin => absurd hin hside
      outside := fun _ _ => rfl
      idle := fun _ => by
        refine ⟨?_, hidle⟩
        show crossingsOf s pen₁.path.sideTrace.shut.lines =
          crossingsOf s ({ t.shut with point := p, start := p } : LineTrace).shut.lines
        rw [hshut]
        exact hcrossings
      moved := fun _ => ⟨rfl, fun _ => rfl, fun hskip => (by cases hskip),
        fun hin => absurd hin hside⟩
      drawn := fun hdrawn => by cases hdrawn }

/-- A line on the side where the path left the rows does not cross them. -/
theorem skip {p : Point} {notes : SegmentNotes}
    (h : w.KeepsCrossings s pen t (.line p notes :: rest)) (hside : w.rows.sideOf p.y = w.side)
    (hout : w.side ≠ .within) (notes' : SegmentNotes) :
    (w.skip p notes').KeepsCrossings s pen (t.stepShut (.line p notes)) rest := by
  have hopen := h.isOpen fun q hq => by cases hq
  have hnone : crossing? s (t.point, p) = none :=
    h.shows.crossing_eq_none (h.side hopen).symm hside hout
  have hlines : crossingsOf s (t.stepShut (.line p notes)).lines = crossingsOf s t.lines := by
    show crossingsOf s (t.lines ++ [(t.point, p)]) = _
    rw [LineTrace.crossingsOf_append]
    simp [crossingsOf, hnone]
  refine { h with
    closed := fun hclosed => absurd hclosed hopen
    side := fun _ => hside.symm
    within := fun _ hin => absurd hin hout
    outside := fun _ _ => rfl
    idle := ?_
    moved := ?_
    drawn := ?_ }
  · intro hundrawn
    replace hundrawn : w.progress ≠ .drawn := hundrawn
    have hmoved := SubpathProgress.eq_moved hopen hundrawn
    obtain ⟨ht, hstartSide⟩ := h.start hopen
    obtain ⟨hcrossings, hidle⟩ := h.idle hundrawn
    have hclosing : crossing? s (p, t.start) = none := by
      rw [ht]
      exact h.shows.crossing_eq_none hside (hstartSide.symm.trans (h.moved hmoved).1.symm) hout
    refine ⟨hcrossings.trans ?_, hidle⟩
    rw [h.crossingsOf_of_moved hmoved, LineTrace.crossingsOf_shut, LineTrace.crossingsOf_append,
      hlines]
    show _ = crossingsOf s t.lines ++ crossingsOf s [(p, t.start)]
    simp [crossingsOf, hclosing]
  · intro hmoved
    replace hmoved : w.progress = .moved := hmoved
    have hskipped : (w.skip p notes').startSkipped = true := by
      simp [BandWalk.skip, hmoved]
    refine ⟨(h.moved hmoved).1, fun hno => ?_, fun _ => hout, fun hin => absurd hin hout⟩
    rw [hskipped] at hno
    cases hno
  · intro hdrawn
    replace hdrawn : w.progress = .drawn := hdrawn
    obtain ⟨hcurrent, hcrossings, hpen, hknows⟩ := h.drawn hdrawn
    have hskipped : (w.skip p notes').startSkipped = w.startSkipped := by
      simp [BandWalk.skip, hdrawn]
    refine ⟨hcurrent, hcrossings.trans hlines.symm, hpen, ?_⟩
    rw [KnowsStart] at hknows ⊢
    rw [hskipped]
    exact hknows

theorem lineTo {p : Point} {notes : SegmentNotes}
    (h : w.KeepsCrossings s pen t (.line p notes :: rest)) :
    (w.lineTo p notes).KeepsCrossings s (pen.followAll (w.stepTrail (.line p notes)))
      (t.stepShut (.line p notes)) rest := by
  have hopen := h.isOpen fun q hq => by cases hq
  simp only [BandWalk.lineTo, stepTrail, Bool.and_eq_true, decide_eq_true_eq]
  by_cases hskip : w.rows.sideOf p.y = w.side ∧ w.rows.sideOf p.y ≠ .within
  · rw [if_pos hskip, if_pos hskip]
    exact h.skip hskip.1 (hskip.1 ▸ hskip.2) _
  rw [if_neg hskip, if_neg hskip, Pen.followAll_append]
  have habreast := h.catchUp hopen
  obtain ⟨hrows, huse, hstart, hstartSide⟩ := KeepsLines.catchUp_keeps w
  obtain ⟨ht, hbegun⟩ := h.start hopen
  have hfill := h.fill
  have hshows := h.shows
  generalize pen.followAll w.catchUpTrail = pen₁ at habreast
  rw [← hrows] at hbegun hshows ⊢
  rw [← huse] at hfill ⊢
  rw [← hstart] at ht hbegun
  rw [← hstartSide] at hbegun
  generalize w.catchUp = w₁ at *
  obtain ⟨htraced, -, -⟩ := habreast.traced.lineTo p (notes &&& w₁.use.notesMask)
  exact {
    fill := hfill
    shows := hshows
    traced := htraced
    pen_eq := rfl
    start_eq := habreast.traced.ensureSubpath_start.trans habreast.start_eq
    closed := fun hclosed => by cases hclosed
    start := fun _ => ⟨ht, hbegun⟩
    side := fun _ => rfl
    within := fun _ _ => rfl
    outside := fun _ hout => if_neg hout
    idle := fun hundrawn => absurd rfl hundrawn
    moved := fun hmoved => by cases hmoved
    drawn := fun _ => by
      refine ⟨rfl, ?_, fun _ => rfl, habreast.knows⟩
      show crossingsOf s (pen₁.follow (.line p (notes &&& w₁.use.notesMask))).path.sideTrace.lines =
        crossingsOf s (t.lines ++ [(t.point, p)])
      rw [habreast.traced.sides_lineTo, LineTrace.crossingsOf_append, LineTrace.crossingsOf_append,
        habreast.crossings, habreast.point] }

/-- Closing a subpath sends no close; the path that is filled closes it by itself. -/
theorem close (h : w.KeepsCrossings s pen t (.close :: rest))
    (hrest : ∀ s ∈ rest.head?, ∃ p, s = .move p) :
    w.close.KeepsCrossings s (pen.followAll (w.stepTrail .close)) (t.stepShut .close) rest := by
  have himplicit : (w.use.closesImplicitly || decide (w.progress ≠ .drawn)) = true := by
    simp [h.fill]
  have hopen := h.isOpen fun q hq => by cases hq
  have hclosed : crossingsOf s (t.stepShut .close).shut.lines = crossingsOf s t.shut.lines := by
    have hshut : (t.stepShut .close).shut = t.stepShut .close := if_pos rfl
    rw [LineTrace.crossingsOf_shut s t, hshut]
    rfl
  have hcloses : ∃ stream point unsent, w.returnToStart = { w with stream, pen := point, unsent } ∧
      (pen.followAll w.returnTrail).IsTraced ∧ (pen.followAll w.returnTrail).point = point ∧
      (pen.followAll w.returnTrail).start = w.sentStart ∧
      crossingsOf s (pen.followAll w.returnTrail).path.sideTrace.shut.lines =
        crossingsOf s t.shut.lines := by
    by_cases hdrawn : w.progress = .drawn
    · obtain ⟨stream, point, unsent, heq⟩ := KeepsLines.returnToStart_eq w
      obtain ⟨htraced, hpoint, hstart, hcrossings⟩ := h.returnToStart hdrawn
      rw [heq] at hpoint
      exact ⟨_, _, _, heq, htraced, hpoint, hstart, hcrossings⟩
    · have hside := (h.moved (SubpathProgress.eq_moved hopen hdrawn)).1
      rw [BandWalk.returnToStart, returnTrail, if_pos hside, if_pos hside]
      exact ⟨_, _, _, rfl, h.traced, h.pen_eq, h.start_eq, (h.idle hdrawn).1⟩
  obtain ⟨stream, point, unsent, heq, htraced, hpoint, hstart, hcrossings⟩ := hcloses
  simp only [stepTrail, BandWalk.close, closeTrail, heq]
  rw [if_pos himplicit, if_pos himplicit, List.append_nil]
  exact {
    fill := h.fill
    shows := h.shows
    traced := htraced
    pen_eq := hpoint
    start_eq := hstart
    closed := fun _ => hrest
    start := fun hne => absurd rfl hne
    side := fun hne => absurd rfl hne
    within := fun hne => absurd rfl hne
    outside := fun hne => absurd rfl hne
    idle := fun _ => ⟨hcrossings.trans hclosed.symm, .inl rfl⟩
    moved := fun hmoved => by cases hmoved
    drawn := fun hdrawn => by cases hdrawn }

/-- The rest of the path is drawn with sides that cross the height where those of the path do. -/
theorem toEnd {drawing : Bool} (h : w.KeepsCrossings s pen t rest)
    (hdrawn : Path.DrawnFrom drawing rest)
    (hmoves : rest.IsChain fun s s' => s = .close → ∃ p, s' = .move p) :
    crossingsOf s (pen.followAll (w.trailFrom rest)).path.sides =
      crossingsOf s (rest.foldl LineTrace.stepShut t).shut.lines := by
  induction rest generalizing w pen t drawing with
  | nil =>
    obtain ⟨-, -, -, -, -, -, -, -, hcrossings, -⟩ := h.closeIfImplicit
    exact hcrossings
  | cons segment rest ih =>
    rw [trailFrom, Pen.followAll_append, List.foldl_cons]
    have hrest := hmoves.tail
    cases segment with
    | move p => exact ih h.moveTo hdrawn hrest
    | line p notes => exact ih h.lineTo hdrawn hrest
    | curve c1 c2 p notes => exact hdrawn.elim
    | close =>
      refine ih (h.close fun s hs => ?_) hdrawn.2 hrest
      cases rest with
      | nil => cases hs
      | cons s' rest =>
        cases hs
        exact (List.isChain_cons_cons.mp hmoves).1 rfl

end KeepsCrossings

/-- Of a path of lines a fill sends sides that cross every height in the rows where those of the
path do. -/
theorem crossings_sentPath (origin : Point) {rows : RowRange} {use : PathUse}
    (huse : use.closesImplicitly = true) {path : Path} (hpath : path.IsPolygonal)
    (hmoves : path.MovesAfterCloses) {s : Fixed} (hs : rows.Shows s) :
    (sentPath origin rows use path).crossings s = path.crossings s := by
  have h : (BandWalk.ofOrigin origin rows use).KeepsCrossings s _ _ _ :=
    .ofOrigin origin hs huse hpath.isDrawn.head
  have hend := h.toEnd hpath.isDrawn.drawnFrom hmoves
  refine congrArg (fun l : List Crossing => (l : Multiset Crossing)) (hend.trans ?_)
  rw [Path.sides, Path.sideTrace, Array.foldl_toList]
  rfl

end BandWalk

end BandedPage
