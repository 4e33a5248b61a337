import Mathlib
import BandedPage.Proofs.Path.Lines
import BandedPage.Proofs.Path.Skipping
import BandedPage.Proofs.Path.Script

/-!
# Where the reader's pen is does not matter

A walk begins where the pen of the reader happens to be, which depends on what the band was sent
before. As long as drawing goes on after a close with a move, the path that a target is given does
not depend on it.
-/

namespace BandedPage

namespace BandWalk

/-- The walks are at the same place of a path and send the same from there on. Where the pens are
counts only once something was sent. -/
structure SameCourse (w w' : BandWalk) : Prop where
  rows : w'.rows = w.rows
  use : w'.use = w.use
  progress : w'.progress = w.progress
  side : w'.side = w.side
  startSide : w'.startSide = w.startSide
  startSkipped : w'.startSkipped = w.startSkipped
  outsideNotes : w'.outsideNotes = w.outsideNotes
  unsent : w'.unsent = w.unsent
  pen : w.unsent = false → w'.pen = w.pen ∧ w'.sentStart = w.sentStart
  start : w.progress ≠ .closed → w'.start = w.start
  outside : w.progress ≠ .closed → w.side ≠ .within → w'.outside = w.outside
  sent : w.progress = .drawn ∨ w.progress = .moved ∧ w.side = .within → w.unsent = false
  stays : w.progress = .moved → w.side = w.startSide

namespace SameCourse

variable {w w' : BandWalk}

theorem ofOrigin (origin origin' : Point) (rows : RowRange) (use : PathUse) :
    SameCourse (.ofOrigin origin rows use) (.ofOrigin origin' rows use) := by
  constructor <;> simp [BandWalk.ofOrigin]

theorem isBehind (h : SameCourse w w') (hopen : w.progress ≠ .closed) :
    w'.isBehind = w.isBehind := by
  rw [BandWalk.isBehind, BandWalk.isBehind, h.side, h.unsent]
  by_cases hside : w.side = .within
  · simp [hside]
  · rw [h.outside hopen hside]
    cases hunsent : w.unsent with
    | true => simp
    | false => rw [(h.pen hunsent).1]

theorem catchUpTrail (h : SameCourse w w') (hopen : w.progress ≠ .closed) :
    w'.catchUpTrail = w.catchUpTrail := by
  rw [BandWalk.catchUpTrail, BandWalk.catchUpTrail, h.isBehind hopen, h.progress, h.outsideNotes]
  by_cases hbehind : w.isBehind = true
  · have hside := side_ne_of_isBehind hbehind
    rw [h.outside hopen hside]
  · rw [if_neg hbehind, if_neg hbehind]

theorem catchUp (h : SameCourse w w') (hopen : w.progress ≠ .closed) :
    SameCourse w.catchUp w'.catchUp ∧ w.catchUp.progress = w.progress ∧
      w.catchUp.unsent = false := by
  rw [BandWalk.catchUp, BandWalk.catchUp, h.isBehind hopen, h.progress]
  by_cases hbehind : w.isBehind = true
  · have hside := side_ne_of_isBehind hbehind
    have hsame := h.outside hopen hside
    rw [if_pos hbehind, if_pos hbehind]
    split
    · exact ⟨{ h with
        unsent := rfl, pen := fun _ => ⟨hsame, hsame⟩, sent := fun _ => rfl }, rfl, rfl⟩
    · next hmoved =>
      have hdrawn : w.progress = .drawn := by
        cases hprogress : w.progress with
        | closed => exact absurd hprogress hopen
        | moved => exact absurd hprogress hmoved
        | drawn => rfl
      have hpen := h.pen (h.sent (.inl hdrawn))
      exact ⟨{ h with
        unsent := rfl, pen := fun _ => ⟨hsame, hpen.2⟩, sent := fun _ => rfl }, rfl, rfl⟩
  · rw [if_neg hbehind, if_neg hbehind]
    refine ⟨h, rfl, ?_⟩
    by_cases hside : w.side = .within
    · cases hprogress : w.progress with
      | closed => exact absurd hprogress hopen
      | moved => exact h.sent (.inr ⟨hprogress, hside⟩)
      | drawn => exact h.sent (.inl hprogress)
    · simp only [BandWalk.isBehind, hside, ne_eq, not_false_eq_true, decide_true, Bool.true_and,
        Bool.or_eq_true, not_or, Bool.not_eq_true] at hbehind
      exact hbehind.2

/-- A segment to `p` on some side is drawn. -/
theorem draws (h : SameCourse w w') (hopen : w.progress ≠ .closed) (side : BandSide) (p : Point)
    {stream stream' : SegmentStream} :
    SameCourse ({ w.catchUp.goTo side p with stream, pen := p } : BandWalk).afterDrawing
      ({ w'.catchUp.goTo side p with stream := stream', pen := p } : BandWalk).afterDrawing := by
  obtain ⟨hcaught, hprogress, hunsent⟩ := h.catchUp hopen
  refine { hcaught with
    progress := rfl
    side := rfl
    unsent := rfl
    pen := fun _ => ⟨rfl, (hcaught.pen hunsent).2⟩
    start := fun _ => hcaught.start (hprogress ▸ hopen)
    outside := fun _ hside => ?_
    sent := fun _ => rfl
    stays := fun hmoved => by cases hmoved }
  change side ≠ .within at hside
  show (if side = .within then w'.catchUp.outside else p) =
    if side = .within then w.catchUp.outside else p
  rw [if_neg hside, if_neg hside]

theorem returnTrail (h : SameCourse w w') (hopen : w.progress ≠ .closed) :
    w'.returnTrail = w.returnTrail := by
  rw [BandWalk.returnTrail, BandWalk.returnTrail, h.isBehind hopen, h.progress, h.outsideNotes,
    h.side, h.startSide, h.startSkipped, h.start hopen]
  by_cases hbehind : w.isBehind = true
  · have hside := side_ne_of_isBehind hbehind
    rw [h.outside hopen hside]
  · rw [if_neg hbehind, if_neg hbehind]

theorem returnToStart (h : SameCourse w w') (hopen : w.progress ≠ .closed) :
    SameCourse w.returnToStart w'.returnToStart ∧ w.returnToStart.progress = w.progress := by
  rw [BandWalk.returnToStart, BandWalk.returnToStart, h.side, h.startSide]
  by_cases hside : w.side = w.startSide
  · rw [if_pos hside, if_pos hside]
    exact ⟨h, rfl⟩
  rw [if_neg hside, if_neg hside, h.isBehind hopen]
  have hdrawn : w.progress = .drawn := by
    cases hprogress : w.progress with
    | closed => exact absurd hprogress hopen
    | moved => exact absurd (h.stays hprogress) hside
    | drawn => rfl
  have hpen := h.pen (h.sent (.inl hdrawn))
  have hbehind : SameCourse
      (if w.isBehind then { w.drawLine w.outside w.outsideNotes with unsent := false } else w)
      (if w.isBehind then { w'.drawLine w'.outside w'.outsideNotes with unsent := false }
        else w') ∧
      (if w.isBehind then { w.drawLine w.outside w.outsideNotes with unsent := false }
        else w).progress = .drawn := by
    by_cases hbehind : w.isBehind = true
    · have haway : w.side ≠ .within := by
        simp only [BandWalk.isBehind, Bool.and_eq_true, decide_eq_true_eq] at hbehind
        exact hbehind.1
      rw [if_pos hbehind, if_pos hbehind]
      exact ⟨{ h with
        unsent := rfl
        pen := fun _ => ⟨h.outside hopen haway, hpen.2⟩
        sent := fun _ => rfl }, hdrawn⟩
    · rw [if_neg hbehind, if_neg hbehind]
      exact ⟨h, hdrawn⟩
  generalize (if w.isBehind then { w.drawLine w.outside w.outsideNotes with unsent := false }
    else w) = v at hbehind ⊢
  generalize (if w.isBehind then { w'.drawLine w'.outside w'.outsideNotes with unsent := false }
    else w') = v' at hbehind ⊢
  obtain ⟨hv, hdrawn'⟩ := hbehind
  dsimp only
  rw [hv.progress, hv.startSkipped]
  split
  · refine ⟨{ hv with pen := fun hunsent => ⟨hv.start (by simp [hdrawn']), (hv.pen hunsent).2⟩ }, ?_⟩
    exact hdrawn'.trans hdrawn.symm
  · exact ⟨hv, hdrawn'.trans hdrawn.symm⟩

theorem close (h : SameCourse w w') (hopen : w.progress ≠ .closed) :
    SameCourse w.close w'.close := by
  obtain ⟨hreturned, hprogress⟩ := h.returnToStart hopen
  rw [BandWalk.close, BandWalk.close]
  generalize w.returnToStart = v at hreturned hprogress ⊢
  generalize w'.returnToStart = v' at hreturned ⊢
  rw [hreturned.use, hreturned.progress]
  split
  · exact { hreturned with
      use := rfl
      progress := rfl
      unsent := rfl
      pen := fun hunsent => by cases hunsent
      start := fun hne => absurd rfl hne
      outside := fun hne => absurd rfl hne
      sent := fun hsent => by simp at hsent
      stays := fun hmoved => by cases hmoved }
  · next hsent =>
    have hdrawn : v.progress = .drawn := by
      by_contra hne
      exact hsent (by simp [hne])
    have hpen := hreturned.pen (hreturned.sent (.inl hdrawn))
    exact { hreturned with
      use := rfl
      progress := rfl
      pen := fun _ => ⟨hpen.2, hpen.2⟩
      start := fun hne => absurd rfl hne
      outside := fun hne => absurd rfl hne
      sent := fun hsent => by simp at hsent
      stays := fun hmoved => by cases hmoved }

theorem closeTrail (h : SameCourse w w') (hopen : w.progress ≠ .closed) :
    w'.closeTrail = w.closeTrail := by
  rw [BandWalk.closeTrail, BandWalk.closeTrail, h.returnTrail hopen, h.use, h.progress]

theorem implicitTrail (h : SameCourse w w') : w'.implicitTrail = w.implicitTrail := by
  rw [BandWalk.implicitTrail, BandWalk.implicitTrail, h.progress, h.use]
  split
  · next hdrawn => exact h.closeTrail (by simp_all)
  · rfl

theorem closeIfImplicit (h : SameCourse w w') :
    SameCourse w.closeIfImplicit w'.closeIfImplicit := by
  rw [BandWalk.closeIfImplicit, BandWalk.closeIfImplicit, h.progress, h.use]
  split
  · next hdrawn => exact h.close (by simp_all)
  · exact h

theorem moveTo (h : SameCourse w w') (p : Point) : SameCourse (w.moveTo p) (w'.moveTo p) := by
  have h' := h.closeIfImplicit
  simp only [BandWalk.moveTo]
  rw [h.rows]
  generalize w.closeIfImplicit = v at h' ⊢
  generalize w'.closeIfImplicit = v' at h' ⊢
  generalize w.rows.sideOf p.y = side
  split
  · next hside =>
    exact { h' with
      progress := rfl
      side := rfl
      startSide := rfl
      startSkipped := rfl
      unsent := rfl
      pen := fun _ => ⟨rfl, rfl⟩
      start := fun _ => rfl
      outside := fun _ hne => absurd hside hne
      sent := fun _ => rfl
      stays := fun _ => rfl }
  · next hside =>
    exact { h' with
      progress := rfl
      side := rfl
      startSide := rfl
      startSkipped := rfl
      start := fun _ => rfl
      outside := fun _ _ => rfl
      sent := fun hsent => by
        rcases hsent with hdrawn | ⟨-, hwithin⟩
        · cases hdrawn
        · exact absurd hwithin hside
      stays := fun _ => rfl }

/-- A segment that does not follow a close. -/
theorem step (h : SameCourse w w') {s : Segment}
    (hs : w.progress = .closed → ∃ p, s = .move p) :
    w'.stepTrail s = w.stepTrail s ∧ SameCourse (w.step s) (w'.step s) ∧
      ((w.step s).progress = .closed → s = .close) := by
  cases s with
  | move p =>
    refine ⟨?_, h.moveTo p, fun hclosed => ?_⟩
    · simp only [stepTrail]
      rw [h.implicitTrail, h.rows]
    · simp only [BandWalk.step, BandWalk.moveTo] at hclosed
      split at hclosed <;> cases hclosed
  | line p notes =>
    have hopen : w.progress ≠ .closed := fun hclosed => by
      obtain ⟨q, hq⟩ := hs hclosed
      cases hq
    simp only [stepTrail, BandWalk.step, BandWalk.lineTo]
    rw [h.rows, h.side, h.use, h.catchUpTrail hopen]
    split
    · refine ⟨rfl, ?_, fun hclosed => absurd hclosed hopen⟩
      exact { h with
        startSkipped := by simp only [skip, h.startSkipped, h.progress]
        outsideNotes := rfl
        outside := fun _ _ => rfl }
    · refine ⟨rfl, ?_, fun hclosed => by cases hclosed⟩
      exact h.draws hopen _ p
  | curve c1 c2 p notes =>
    have hopen : w.progress ≠ .closed := fun hclosed => by
      obtain ⟨q, hq⟩ := hs hclosed
      cases hq
    simp only [stepTrail, BandWalk.step, BandWalk.curveTo]
    rw [h.rows, h.side, h.use, h.catchUpTrail hopen]
    split
    · refine ⟨rfl, ?_, fun hclosed => absurd hclosed hopen⟩
      exact { h with
        startSkipped := by simp only [skip, h.startSkipped, h.progress]
        outsideNotes := rfl
        outside := fun _ _ => rfl }
    · refine ⟨rfl, ?_, fun hclosed => by cases hclosed⟩
      exact h.draws hopen _ p
  | close =>
    have hopen : w.progress ≠ .closed := fun hclosed => by
      obtain ⟨q, hq⟩ := hs hclosed
      cases hq
    exact ⟨h.closeTrail hopen, h.close hopen, fun _ => rfl⟩

theorem moves_after_close {s : Segment} {rest : List Segment}
    (hs : (s :: rest).IsChain fun s s' => s = .close → ∃ p, s' = .move p) (hclose : s = .close) :
    ∀ s' ∈ rest.head?, ∃ p, s' = .move p := by
  intro s' hs'
  cases rest with
  | nil => cases hs'
  | cons s'' rest =>
    obtain rfl := Option.some.inj hs'
    exact (List.isChain_cons_cons.mp hs).1 hclose

/-- The rest of a path in which drawing goes on after a close with a move. -/
theorem trailFrom {segments : List Segment} (h : SameCourse w w')
    (hs : segments.IsChain fun s s' => s = .close → ∃ p, s' = .move p)
    (hfirst : w.progress = .closed → ∀ s ∈ segments.head?, ∃ p, s = .move p) :
    w'.trailFrom segments = w.trailFrom segments := by
  induction segments generalizing w w' with
  | nil => exact h.implicitTrail
  | cons s rest ih =>
    obtain ⟨htrail, hstep, hclosed⟩ := h.step fun hclosed => hfirst hclosed s rfl
    rw [BandWalk.trailFrom, BandWalk.trailFrom, htrail]
    congr 1
    exact ih hstep hs.of_cons fun hclosed' => moves_after_close hs (hclosed hclosed')

/-- Before anything was sent, a segment is left out or sent after a move. -/
theorem stepTrail_begins (h : SameCourse w w) (hunsent : w.unsent = true) {s : Segment}
    (hs : w.progress = .closed → ∃ p, s = .move p) :
    w.stepTrail s = [] ∧ (w.step s).unsent = true ∨ ∃ p more, w.stepTrail s = .move p :: more := by
  have hnotDrawn : w.progress ≠ .drawn := fun hdrawn => by
    rw [h.sent (.inl hdrawn)] at hunsent
    cases hunsent
  have hmoved : (∀ p, s ≠ .move p) → w.progress = .moved ∧ w.side ≠ .within := by
    intro hne
    cases hprogress : w.progress with
    | closed =>
      obtain ⟨p, hp⟩ := hs hprogress
      exact absurd hp (hne p)
    | drawn => exact absurd hprogress hnotDrawn
    | moved =>
      refine ⟨rfl, fun hwithin => ?_⟩
      rw [h.sent (.inr ⟨hprogress, hwithin⟩)] at hunsent
      cases hunsent
  have hcatch : (∀ p, s ≠ .move p) → w.catchUpTrail = [.move w.outside] := by
    intro hne
    obtain ⟨hprogress, hside⟩ := hmoved hne
    rw [BandWalk.catchUpTrail, if_pos (by simp [BandWalk.isBehind, hside, hunsent]),
      if_pos hprogress]
  cases s with
  | move p =>
    have himplicit : w.implicitTrail = [] ∧ w.closeIfImplicit = w := by
      rw [BandWalk.implicitTrail, BandWalk.closeIfImplicit]
      simp [hnotDrawn]
    simp only [stepTrail, BandWalk.step, BandWalk.moveTo]
    rw [himplicit.1, himplicit.2]
    split
    · exact .inr ⟨p, [], rfl⟩
    · exact .inl ⟨rfl, hunsent⟩
  | line p notes =>
    simp only [stepTrail, BandWalk.step, BandWalk.lineTo]
    split
    · exact .inl ⟨rfl, hunsent⟩
    · exact .inr ⟨w.outside, _, by rw [hcatch fun _ => Segment.noConfusion]; rfl⟩
  | curve c1 c2 p notes =>
    simp only [stepTrail, BandWalk.step, BandWalk.curveTo]
    split
    · exact .inl ⟨rfl, hunsent⟩
    · exact .inr ⟨w.outside, _, by rw [hcatch fun _ => Segment.noConfusion]; rfl⟩
  | close =>
    obtain ⟨hprogress, -⟩ := hmoved fun _ => Segment.noConfusion
    have hstays := h.stays hprogress
    refine .inl ⟨?_, ?_⟩
    · simp only [stepTrail, BandWalk.closeTrail, BandWalk.returnTrail]
      simp [hstays, hprogress]
    · simp only [BandWalk.step, BandWalk.close, BandWalk.returnToStart]
      rw [if_pos hstays, if_pos (by simp [hprogress])]

/-- The first that is sent is a move. -/
theorem trailFrom_begins {segments : List Segment} (h : SameCourse w w) (hunsent : w.unsent = true)
    (hs : segments.IsChain fun s s' => s = .close → ∃ p, s' = .move p)
    (hfirst : w.progress = .closed → ∀ s ∈ segments.head?, ∃ p, s = .move p) :
    ∀ s ∈ (w.trailFrom segments).head?, ∃ p, s = .move p := by
  induction segments generalizing w with
  | nil =>
    have hnotDrawn : w.progress ≠ .drawn := fun hdrawn => by
      rw [h.sent (.inl hdrawn)] at hunsent
      cases hunsent
    rw [BandWalk.trailFrom, BandWalk.implicitTrail, if_neg (by simp [hnotDrawn])]
    intro s hs
    cases hs
  | cons s rest ih =>
    have hnext := fun hclosed => hfirst hclosed s rfl
    obtain ⟨-, hstep, hclosed⟩ := h.step hnext
    rw [BandWalk.trailFrom]
    rcases h.stepTrail_begins hunsent hnext with ⟨hnone, hunsent'⟩ | ⟨p, more, hmore⟩
    · rw [hnone, List.nil_append]
      exact ih hstep hunsent' hs.of_cons fun hclosed' =>
        moves_after_close hs (hclosed hclosed')
    · rw [hmore]
      rintro s ⟨⟩
      exact ⟨p, rfl⟩

end SameCourse

/-- The path that a target is given does not depend on where the reader's pen is. -/
theorem sentPath_eq_of_isBuilt {path : Path} (hpath : path.IsBuilt)
    (hmoves : path.MovesAfterCloses) (origin origin' : Point) (rows : RowRange) (use : PathUse) :
    sentPath origin rows use path = sentPath origin' rows use path := by
  have htrail : trail origin rows use path = trail origin' rows use path :=
    (SameCourse.ofOrigin origin' origin rows use).trailFrom hmoves fun _ => hpath.begins.head
  have hbegins : ∀ s ∈ (trail origin' rows use path).head?, ∃ p, s = .move p :=
    (SameCourse.ofOrigin origin' origin' rows use).trailFrom_begins rfl hmoves
      fun _ => hpath.begins.head
  rw [sentPath, sentPath, htrail]
  cases hcases : trail origin' rows use path with
  | nil => rfl
  | cons s rest =>
    rw [hcases] at hbegins
    obtain ⟨p, rfl⟩ := hbegins s rfl
    rfl

end BandWalk

end BandedPage
