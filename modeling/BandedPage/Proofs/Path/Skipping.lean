import Mathlib
import BandedPage.Proofs.Path.Lines

/-!
# Skipping loses no line that is seen

A walk for a stroke leaves out what lies above or below its rows. Of a path of lines, the band is
sent every line that can be seen in the rows and no other, if each closed subpath can be told from
what was drawn before it: drawing goes on after a close with a move, and no point of a closed
subpath is the end of a line of an open subpath before it. For otherwise the pen may be where the
subpath enters the rows already, no move is sent, and the subpath is closed to the start of the
open one.
-/

namespace BandedPage

namespace Path

/-- The subpath under way is closed. -/
def closesNext : List Segment → Bool
  | [] | .move _ :: _ => false
  | .close :: _ => true
  | .line _ _ :: rest | .curve _ _ _ _ :: rest => closesNext rest

/-- Closed subpaths lie apart from the open ones before them, with lines that end at `opens`, and
what follows a closed one begins with a move. Lines of the subpath under way end at `own`. -/
def ClosesApartFrom (opens own : List Point) : List Segment → Prop
  | [] => True
  | .move p :: rest =>
    (closesNext rest = true → p ∉ own ++ opens) ∧ ClosesApartFrom (own ++ opens) [] rest
  | .line p _ :: rest | .curve _ _ p _ :: rest =>
    (closesNext rest = true → p ∉ opens) ∧ ClosesApartFrom opens (p :: own) rest
  | .close :: rest => (∀ s ∈ rest.head?, ∃ p, s = .move p) ∧ ClosesApartFrom opens [] rest

/-- No point of a closed subpath is the end of a line of an open subpath before it, and drawing goes
on after a close with a move. -/
def ClosesApart (path : Path) : Prop := ClosesApartFrom [] [] path.segments.toList

/-- Only moves, lines and closes of what was drawn, with `drawing` if a line was drawn before. -/
def DrawnFrom : Bool → List Segment → Prop
  | _, [] => True
  | _, .move _ :: rest => DrawnFrom false rest
  | _, .line _ _ :: rest => DrawnFrom true rest
  | _, .curve _ _ _ _ :: _ => False
  | drawing, .close :: rest => drawing = true ∧ DrawnFrom false rest

/-- Lines were drawn since the last subpath began or was closed. -/
def drawingAfter (drawing : Bool) (segments : List Segment) : Bool :=
  segments.foldl (fun _ s => match s with
    | .line _ _ | .curve _ _ _ _ => true
    | .move _ | .close => false) drawing

@[simp] theorem drawnFrom_append {drawing : Bool} {before after : List Segment} :
    DrawnFrom drawing (before ++ after) ↔
      DrawnFrom drawing before ∧ DrawnFrom (drawingAfter drawing before) after := by
  induction before generalizing drawing with
  | nil => simp [DrawnFrom, drawingAfter]
  | cons s before ih =>
    cases s with
    | move p | line p notes => exact ih
    | curve c1 c2 p notes => simp [DrawnFrom]
    | close => simp only [List.cons_append, DrawnFrom, and_assoc, ih]; rfl

/-- A path of lines that begins with a move. -/
structure IsDrawn (path : Path) : Prop extends path.Begins where
  drawnFrom : DrawnFrom false path.segments.toList

namespace IsDrawn

variable {path : Path}

theorem moveTo (h : path.IsDrawn) (p : Point) : (path.moveTo p).IsDrawn := by
  refine ⟨h.toBegins.moveTo p, ?_⟩
  obtain ⟨before, hmoved, hbefore⟩ := path.exists_moveTo p
  have hdrawn : DrawnFrom false before.toList := by
    have hdrawn := h.drawnFrom
    rcases hbefore with hpath | ⟨q, hpath⟩
    · rwa [hpath] at hdrawn
    · rw [hpath, Array.toList_push] at hdrawn
      exact (drawnFrom_append.mp hdrawn).1
  rw [hmoved, Array.toList_push]
  exact drawnFrom_append.mpr ⟨hdrawn, trivial⟩

theorem ensureCurrent (h : path.IsDrawn) :
    path.ensureCurrent.IsDrawn ∧ path.ensureCurrent.segments ≠ #[] := by
  refine ⟨?_, h.toBegins.ensureCurrent.2⟩
  rw [Path.ensureCurrent]
  split
  · exact h
  · exact h.moveTo {}

/-- One more segment, which may be drawn after those before it. -/
theorem push (h : path.IsDrawn) (hne : path.segments ≠ #[]) {s : Segment}
    (hs : DrawnFrom (drawingAfter false path.segments.toList) [s]) (start current : Option Point) :
    IsDrawn { segments := path.segments.push s, start, current } where
  __ := h.toBegins.push hne s start current
  drawnFrom := by
    rw [Array.toList_push]
    exact drawnFrom_append.mpr ⟨h.drawnFrom, hs⟩

theorem lineTo (h : path.IsDrawn) (p : Point) (notes : SegmentNotes) :
    (path.lineTo p notes).IsDrawn := by
  obtain ⟨h', hne⟩ := h.ensureCurrent
  exact h'.push hne (s := .line p notes) trivial _ _

theorem closeSubpath (h : path.IsDrawn) : path.closeSubpath.IsDrawn := by
  rw [Path.closeSubpath]
  split
  · exact h
  · exact h
  · exact h
  · next hnone hclose hmove =>
    obtain ⟨s, hback⟩ := Option.ne_none_iff_exists'.mp hnone
    obtain ⟨before, hpath⟩ : ∃ before : Array Segment, path.segments = before.push s := by
      obtain ⟨hne, hlast⟩ := Array.back?_eq_some_iff.mp hback
      exact ⟨_, hlast⟩
    refine h.push (by rw [hpath]; simp) (s := .close) ⟨?_, trivial⟩ _ _
    rw [hpath, Array.toList_push, drawingAfter, List.foldl_append]
    cases s with
    | move p => exact absurd hback (hmove p)
    | line p notes => rfl
    | curve c1 c2 p notes => rfl
    | close => exact absurd hback hclose

end IsDrawn

theorem IsPolygonal.isDrawn {path : Path} (h : path.IsPolygonal) : path.IsDrawn := by
  induction h with
  | empty => exact ⟨.empty, trivial⟩
  | moveTo _ p ih => exact ih.moveTo p
  | lineTo _ p notes ih => exact ih.lineTo p notes
  | closeSubpath _ ih => exact ih.closeSubpath

end Path

/-- A subpath under way that was not drawn on was only moved to. -/
theorem SubpathProgress.eq_moved {progress : SubpathProgress} (hopen : progress ≠ .closed)
    (hundrawn : progress ≠ .drawn) : progress = .moved := by
  cases progress with
  | closed => exact absurd rfl hopen
  | moved => rfl
  | drawn => exact absurd rfl hundrawn

namespace BandWalk

theorem side_ne_of_isBehind {w : BandWalk} (h : w.isBehind = true) : w.side ≠ .within := by
  intro hwithin
  simp [isBehind, hwithin] at h

/-- The start of the subpath is where the reader takes it to be, or both lie out of the rows on the
same side. -/
def KnowsStart (w : BandWalk) : Prop :=
  if w.startSkipped then w.startSide ≠ .within ∧ w.rows.sideOf w.sentStart.y = w.startSide
  else w.sentStart = w.start

/-- The walk has come along the lines of `t`, and the lines that the pen was sent are those that are
seen. -/
structure KeepsLines (w : BandWalk) (pen : Pen) (t : LineTrace) (opens own : List Point)
    (drawing : Bool) (rest : List Segment) : Prop where
  stroke : w.use.closesImplicitly = false
  traced : pen.IsTraced
  pen_eq : pen.point = w.pen
  start_eq : pen.start = w.sentStart
  lines : pen.path.lines.filter w.rows.sees = t.lines.filter w.rows.sees
  penAt : w.unsent = false → w.pen ∈ own ++ opens ∨ w.pen = w.sentStart
  closed : w.progress = .closed → ∀ s ∈ rest.head?, ∃ p, s = .move p
  start : w.progress ≠ .closed → t.start = w.start ∧ w.startSide = w.rows.sideOf w.start.y
  side : w.progress ≠ .closed → w.side = w.rows.sideOf t.point.y
  within : w.progress ≠ .closed → w.side = .within → w.pen = t.point
  outside : w.progress ≠ .closed → w.side ≠ .within → w.outside = t.point
  /-- All of the subpath so far lies on the side where it begins. -/
  moved : w.progress = .moved → w.side = w.startSide ∧
    (w.startSkipped = false → t.point = w.start) ∧
    (w.startSkipped = true → w.side ≠ .within) ∧
    (w.side = .within → drawing = false ∧ w.sentStart = w.start) ∧
    (w.unsent = false → w.pen ∈ opens ∨ w.pen = w.sentStart) ∧
    (Path.closesNext rest = true → t.point ∉ opens)
  drawn : w.progress = .drawn → (w.side ≠ .within → w.rows.sideOf w.pen.y = w.side) ∧
    (∃ p notes, pen.path.segments.back? = some (.line p notes)) ∧
    (Path.closesNext rest = true → w.KnowsStart)

variable {w : BandWalk} {pen : Pen} {t : LineTrace} {opens own : List Point} {drawing : Bool}
variable {rest : List Segment}

namespace KeepsLines

theorem ofOrigin (origin : Point) (rows : RowRange) {use : PathUse}
    (huse : use.closesImplicitly = false) (hrest : ∀ s ∈ rest.head?, ∃ p, s = .move p) :
    (BandWalk.ofOrigin origin rows use).KeepsLines { point := origin, start := origin } {} [] []
      drawing rest where
  stroke := huse
  traced := ⟨fun h => (by cases h), fun _ => ⟨rfl, rfl⟩⟩
  pen_eq := rfl
  start_eq := rfl
  lines := rfl
  penAt h := by cases h
  closed _ := hrest
  start h := absurd rfl h
  side h := absurd rfl h
  within h := absurd rfl h
  outside h := absurd rfl h
  moved h := by cases h
  drawn h := by cases h

/-- What is drawn is drawn on a subpath. -/
theorem isOpen {s : Segment} (h : w.KeepsLines pen t opens own drawing (s :: rest))
    (hs : ∀ p, s ≠ .move p) : w.progress ≠ .closed :=
  fun hclosed => (h.closed hclosed s rfl).elim hs

theorem closeIfImplicit (h : w.KeepsLines pen t opens own drawing rest) :
    w.closeIfImplicit = w ∧ w.implicitTrail = [] := by
  simp [BandWalk.closeIfImplicit, BandWalk.implicitTrail, h.stroke]

theorem moveTo {p : Point} (h : w.KeepsLines pen t opens own drawing (.move p :: rest))
    (hp : Path.closesNext rest = true → p ∉ own ++ opens) :
    (w.moveTo p).KeepsLines (pen.followAll (w.stepTrail (.move p))) (t.step (.move p))
      (own ++ opens) [] false rest := by
  simp only [BandWalk.moveTo, stepTrail, h.closeIfImplicit, List.nil_append]
  by_cases hside : w.rows.sideOf p.y = .within
  · rw [if_pos hside, if_pos hside]
    refine { h with
      traced := Pen.IsTraced.moveTo pen p
      pen_eq := rfl
      start_eq := rfl
      lines := ?_
      penAt := fun _ => .inr rfl
      closed := fun hclosed => by cases hclosed
      start := fun _ => ⟨rfl, rfl⟩
      side := fun _ => rfl
      within := fun _ _ => rfl
      outside := fun _ hout => absurd hside hout
      moved := fun _ => ⟨rfl, fun _ => rfl, fun hskip => (by cases hskip), fun _ => ⟨rfl, rfl⟩,
        fun _ => .inr rfl, hp⟩
      drawn := fun hdrawn => by cases hdrawn }
    exact (congrArg _ (Pen.IsTraced.lines_moveTo pen p)).trans h.lines
  · rw [if_neg hside, if_neg hside]
    exact { h with
      closed := fun hclosed => by cases hclosed
      start := fun _ => ⟨rfl, rfl⟩
      side := fun _ => rfl
      within := fun _ hin => absurd hin hside
      outside := fun _ _ => rfl
      moved := fun _ => ⟨rfl, fun _ => rfl, fun hskip => (by cases hskip),
        fun hin => absurd hin hside, h.penAt, hp⟩
      drawn := fun hdrawn => by cases hdrawn }

/-- A line on the side where the pen left the rows is not seen. -/
theorem skip {p : Point} {notes : SegmentNotes}
    (h : w.KeepsLines pen t opens own drawing (.line p notes :: rest))
    (hp : Path.closesNext rest = true → p ∉ opens) (hside : w.rows.sideOf p.y = w.side)
    (hout : w.side ≠ .within) (notes' : SegmentNotes) :
    (w.skip p notes').KeepsLines pen (t.step (.line p notes)) opens (p :: own) true rest := by
  have hopen := h.isOpen fun q hq => by cases hq
  have hunseen : w.rows.sees (t.point, p) = false :=
    RowRange.sees_of_sideOf_eq (h.side hopen).symm hside hout
  have hlines : (t.step (.line p notes)).lines.filter w.rows.sees = t.lines.filter w.rows.sees := by
    simp [LineTrace.step, hunseen]
  refine { h with
    lines := h.lines.trans hlines.symm
    penAt := fun hsent => (h.penAt hsent).imp_left (List.mem_cons_of_mem p)
    closed := fun hclosed => absurd hclosed hopen
    start := h.start
    side := fun _ => hside.symm
    within := fun _ hin => absurd hin hout
    outside := fun _ _ => rfl
    moved := ?_
    drawn := ?_ }
  · intro hmoved
    replace hmoved : w.progress = .moved := hmoved
    obtain ⟨hstart, -, -, -, hpen, -⟩ := h.moved hmoved
    have hskipped : (w.skip p notes').startSkipped = true := by
      simp [BandWalk.skip, hmoved]
    refine ⟨hstart, fun hno => ?_, fun _ => hout, fun hin => absurd hin hout, hpen, hp⟩
    rw [hskipped] at hno
    cases hno
  · intro hdrawn
    replace hdrawn : w.progress = .drawn := hdrawn
    obtain ⟨hpen, hback, hstart⟩ := h.drawn hdrawn
    refine ⟨hpen, hback, ?_⟩
    intro hcloses
    have hskipped : (w.skip p notes').startSkipped = w.startSkipped := by
      simp [BandWalk.skip, hdrawn]
    have := hstart hcloses
    rw [KnowsStart] at this ⊢
    rw [hskipped]
    exact this

/-- A walk that draws or has begun a subpath is behind unless the pen is where the path is. -/
theorem pen_of_not_isBehind (h : w.KeepsLines pen t opens own drawing rest)
    (hopen : w.progress ≠ .closed) (hbehind : ¬ w.isBehind = true) :
    w.pen = t.point ∧ (w.side ≠ .within → w.unsent = false) := by
  by_cases hside : w.side = .within
  · exact ⟨h.within hopen hside, fun hout => absurd hside hout⟩
  · simp only [isBehind, Bool.and_eq_true, Bool.or_eq_true, decide_eq_true_eq, not_and, not_or,
      not_not, Bool.not_eq_true] at hbehind
    obtain ⟨hpen, hsent⟩ := hbehind hside
    exact ⟨hpen.trans (h.outside hopen hside), fun _ => hsent⟩

/-- The pen is where the path is, and no line that is seen was drawn on the way. -/
structure CaughtUp (w : BandWalk) (pen : Pen) (t : LineTrace) (closes : Bool) : Prop where
  traced : pen.IsTraced
  point : pen.point = t.point
  pen_eq : w.pen = t.point
  start_eq : pen.start = w.sentStart
  lines : pen.path.lines.filter w.rows.sees = t.lines.filter w.rows.sees
  knows : closes = true → w.KnowsStart

/-- Where a subpath that was not drawn on yet comes to the rows, a move takes the pen there, unless
it is there already. -/
theorem catchUp_of_moved (h : w.KeepsLines pen t opens own drawing rest)
    (hmoved : w.progress = .moved) :
    CaughtUp w.catchUp (pen.followAll w.catchUpTrail) t (Path.closesNext rest) := by
  have hopen : w.progress ≠ .closed := by
    rw [hmoved]
    decide
  obtain ⟨hside, hunskipped, hskipped, hin, hpen, hfresh⟩ := h.moved hmoved
  -- The reader takes the subpath to begin where it comes to the rows.
  have hknows : ∀ w' : BandWalk, w'.startSkipped = w.startSkipped → w'.startSide = w.startSide →
      w'.start = w.start → w'.rows = w.rows → w'.sentStart = t.point → w'.KnowsStart := by
    intro w' hskip hstartSide hstart hrows hsent
    rw [KnowsStart, hskip, hstartSide, hstart, hrows, hsent]
    split
    · next hyes =>
      exact ⟨hside ▸ hskipped hyes, (h.side hopen).symm.trans hside⟩
    · next hno => exact hunskipped (by simpa using hno)
  rw [BandWalk.catchUp, catchUpTrail]
  by_cases hbehind : w.isBehind = true
  · rw [if_pos hbehind, if_pos hmoved, if_pos hbehind, if_pos hmoved]
    have hout := side_ne_of_isBehind hbehind
    have hat : w.outside = t.point := h.outside hopen hout
    exact {
      traced := Pen.IsTraced.moveTo pen w.outside
      point := hat
      pen_eq := hat
      start_eq := rfl
      lines := (congrArg _ (Pen.IsTraced.lines_moveTo pen w.outside)).trans h.lines
      knows := fun _ => hknows (w.movePen w.outside) rfl rfl rfl rfl hat }
  · rw [if_neg hbehind, if_neg hbehind]
    obtain ⟨hat, hsent⟩ := h.pen_of_not_isBehind hopen hbehind
    refine ⟨h.traced, h.pen_eq.trans hat, hat, h.start_eq, h.lines, ?_⟩
    intro hcloses
    by_cases hwithin : w.side = .within
    · have hno : w.startSkipped = false := by
        cases hskip : w.startSkipped with
        | false => rfl
        | true => exact absurd hwithin (hskipped hskip)
      rw [KnowsStart, if_neg (by simp [hno])]
      exact (hin hwithin).2
    · -- The pen came here on its own; it is no end of an open subpath, so it is a start.
      refine hknows w rfl rfl rfl rfl ?_
      rcases hpen (hsent hwithin) with hmem | heq
      · exact absurd (hat ▸ hmem) (hfresh hcloses)
      · exact heq.symm.trans hat

/-- A subpath that was drawn on comes back to the rows along a line that is not seen. -/
theorem catchUp_of_drawn (h : w.KeepsLines pen t opens own drawing rest)
    (hdrawn : w.progress = .drawn) :
    CaughtUp w.catchUp (pen.followAll w.catchUpTrail) t (Path.closesNext rest) ∧
      (if w.isBehind then pen.follow (.line w.outside w.outsideNotes) else pen) =
        pen.followAll w.catchUpTrail := by
  have hopen : w.progress ≠ .closed := by
    rw [hdrawn]
    decide
  have hmoved : ¬ w.progress = .moved := by
    rw [hdrawn]
    decide
  obtain ⟨hside, -, hknows⟩ := h.drawn hdrawn
  rw [BandWalk.catchUp, catchUpTrail]
  by_cases hbehind : w.isBehind = true
  · rw [if_pos hbehind, if_neg hmoved, if_pos hbehind, if_neg hmoved, if_pos hbehind]
    have hout := side_ne_of_isBehind hbehind
    have hat : w.outside = t.point := h.outside hopen hout
    obtain ⟨htraced, hlines, -⟩ := h.traced.lineTo w.outside w.outsideNotes
    have hunseen : w.rows.sees (pen.point, w.outside) = false := by
      rw [h.pen_eq, hat]
      exact RowRange.sees_of_sideOf_eq (hside hout) (h.side hopen).symm hout
    refine ⟨⟨htraced, hat, hat, ?_, ?_, hknows⟩, rfl⟩
    · exact h.traced.ensureSubpath_start.trans h.start_eq
    · show List.filter w.rows.sees (pen.follow (.line w.outside w.outsideNotes)).path.lines =
        List.filter w.rows.sees t.lines
      rw [hlines, List.filter_append, h.lines]
      simp [hunseen]
  · rw [if_neg hbehind, if_neg hbehind, if_neg hbehind]
    obtain ⟨hat, -⟩ := h.pen_of_not_isBehind hopen hbehind
    exact ⟨⟨h.traced, h.pen_eq.trans hat, hat, h.start_eq, h.lines, hknows⟩, rfl⟩

theorem catchUp (h : w.KeepsLines pen t opens own drawing rest) (hopen : w.progress ≠ .closed) :
    CaughtUp w.catchUp (pen.followAll w.catchUpTrail) t (Path.closesNext rest) := by
  cases hprogress : w.progress with
  | closed => exact absurd hprogress hopen
  | moved => exact h.catchUp_of_moved hprogress
  | drawn => exact (h.catchUp_of_drawn hprogress).1

theorem catchUp_keeps (w : BandWalk) :
    w.catchUp.rows = w.rows ∧ w.catchUp.use = w.use ∧ w.catchUp.start = w.start ∧
      w.catchUp.startSide = w.startSide := by
  rw [BandWalk.catchUp]
  split
  · split <;> exact ⟨rfl, rfl, rfl, rfl⟩
  · exact ⟨rfl, rfl, rfl, rfl⟩

theorem lineTo {p : Point} {notes : SegmentNotes}
    (h : w.KeepsLines pen t opens own drawing (.line p notes :: rest))
    (hp : Path.closesNext rest = true → p ∉ opens) :
    (w.lineTo p notes).KeepsLines (pen.followAll (w.stepTrail (.line p notes)))
      (t.step (.line p notes)) opens (p :: own) true rest := by
  have hopen := h.isOpen fun q hq => by cases hq
  simp only [BandWalk.lineTo, stepTrail, Bool.and_eq_true, decide_eq_true_eq]
  by_cases hskip : w.rows.sideOf p.y = w.side ∧ w.rows.sideOf p.y ≠ .within
  · rw [if_pos hskip, if_pos hskip]
    exact h.skip hp hskip.1 (hskip.1 ▸ hskip.2) _
  rw [if_neg hskip, if_neg hskip, Pen.followAll_append]
  have hcaught := h.catchUp hopen
  obtain ⟨hrows, huse, hstart, hstartSide⟩ := catchUp_keeps w
  obtain ⟨ht, hbegun⟩ := h.start hopen
  have hstroke := h.stroke
  generalize pen.followAll w.catchUpTrail = pen₁ at hcaught
  rw [← hrows] at hbegun ⊢
  rw [← huse] at hstroke ⊢
  rw [← hstart] at ht hbegun
  rw [← hstartSide] at hbegun
  generalize w.catchUp = w₁ at *
  obtain ⟨htraced, hlines, hback⟩ :=
    hcaught.traced.lineTo p (notes &&& w₁.use.notesMask)
  refine {
    stroke := hstroke
    traced := htraced
    pen_eq := rfl
    start_eq := hcaught.traced.ensureSubpath_start.trans hcaught.start_eq
    lines := ?_
    penAt := fun _ => .inl (List.mem_append_left opens List.mem_cons_self)
    closed := fun hclosed => by cases hclosed
    start := fun _ => ⟨ht, hbegun⟩
    side := fun _ => rfl
    within := fun _ _ => rfl
    outside := ?_
    moved := fun hmoved => by cases hmoved
    drawn := fun _ => ⟨fun _ => rfl, ⟨p, _, hback⟩, hcaught.knows⟩ }
  · show List.filter w₁.rows.sees (pen₁.follow (.line p (notes &&& w₁.use.notesMask))).path.lines =
      List.filter w₁.rows.sees (t.lines ++ [(t.point, p)])
    rw [hlines, hcaught.point, List.filter_append, List.filter_append, hcaught.lines]
  · intro _ hout
    exact if_neg hout

/-- A subpath that was drawn on returns to its start as the path does, as far as lines are seen. -/
theorem returnToStart (h : w.KeepsLines pen t opens own drawing (.close :: rest))
    (hdrawn : w.progress = .drawn) :
    ∃ pen', pen' = pen.followAll w.returnTrail ∧ pen'.IsTraced ∧ pen'.start = w.sentStart ∧
      (∃ p notes, pen'.path.segments.back? = some (.line p notes)) ∧
      (pen'.path.lines ++ [(pen'.point, w.sentStart)]).filter w.rows.sees =
        (t.lines ++ [(t.point, t.start)]).filter w.rows.sees := by
  have hopen : w.progress ≠ .closed := by
    rw [hdrawn]
    decide
  obtain ⟨ht, hstartSide⟩ := h.start hopen
  obtain ⟨hpenSide, hback, hknows⟩ := h.drawn hdrawn
  replace hknows : w.KnowsStart := hknows rfl
  rw [KnowsStart] at hknows
  rw [returnTrail]
  by_cases hside : w.side = w.startSide
  · rw [if_pos hside]
    refine ⟨pen, rfl, h.traced, h.start_eq, hback, ?_⟩
    rw [List.filter_append, List.filter_append, h.lines, h.pen_eq, ht]
    by_cases hwithin : w.side = .within
    · have hno : ¬ w.startSkipped = true := by
        intro hskip
        rw [if_pos hskip] at hknows
        exact hknows.1 (hside ▸ hwithin)
      rw [if_neg hno] at hknows
      rw [h.within hopen hwithin, hknows]
    · have hsent : w.rows.sideOf w.sentStart.y = w.side := by
        split at hknows
        · exact hknows.2.trans hside.symm
        · rw [hknows, ← hstartSide, hside]
      have hunseen := RowRange.sees_of_sideOf_eq (hpenSide hwithin) hsent hwithin
      have hunseen' := RowRange.sees_of_sideOf_eq (h.side hopen).symm
        (hstartSide.symm.trans hside.symm) hwithin
      simp [hunseen, hunseen']
  rw [if_neg hside, Pen.followAll_append]
  obtain ⟨hcaught, hpen⟩ := h.catchUp_of_drawn hdrawn
  obtain ⟨hrows, -, -, -⟩ := catchUp_keeps w
  have hstart : (pen.followAll w.catchUpTrail).start = w.sentStart := by
    rw [hcaught.start_eq, BandWalk.catchUp, if_neg (by rw [hdrawn]; decide : ¬ w.progress = .moved)]
    split <;> rfl
  have hlast : ∃ p notes, (pen.followAll w.catchUpTrail).path.segments.back? =
      some (.line p notes) := by
    rw [← hpen]
    split
    · exact ⟨_, _, (h.traced.lineTo _ _).2.2⟩
    · exact hback
  have hfollow : pen.followAll (if w.isBehind then [.line w.outside w.outsideNotes] else []) =
      pen.followAll w.catchUpTrail := by
    rw [← hpen]
    split <;> rfl
  rw [hfollow]
  have hlines := hcaught.lines
  rw [hrows] at hlines
  have htraced := hcaught.traced
  have hpoint := hcaught.point
  generalize pen.followAll w.catchUpTrail = pen₁ at *
  by_cases hskip : w.startSkipped = true
  · -- The closing line is drawn as a line, and the close goes on to the start that was sent.
    rw [if_pos hskip] at hknows
    rw [if_pos (by simp [hdrawn, hskip])]
    obtain ⟨htraced', hlines', hback'⟩ := htraced.lineTo w.start 0
    have hunseen : w.rows.sees (w.start, w.sentStart) = false :=
      RowRange.sees_of_sideOf_eq hstartSide.symm hknows.2 hknows.1
    refine ⟨pen₁.follow (.line w.start 0), rfl, htraced',
      htraced.ensureSubpath_start.trans hstart, ⟨_, _, hback'⟩, ?_⟩
    rw [hlines', List.filter_append, List.filter_append, List.filter_append, hlines, hpoint, ht]
    show _ ++ List.filter w.rows.sees [(w.start, w.sentStart)] = _
    simp [hunseen]
  · rw [if_neg hskip] at hknows
    rw [if_neg (by simp [hskip])]
    refine ⟨pen₁, rfl, htraced, hstart, hlast, ?_⟩
    rw [List.filter_append, List.filter_append, hlines, hpoint, ht, hknows]

theorem returnToStart_eq (w : BandWalk) :
    ∃ stream pen unsent, w.returnToStart = { w with stream, pen, unsent } := by
  simp only [BandWalk.returnToStart]
  split
  · exact ⟨_, _, _, rfl⟩
  · split <;> split <;> exact ⟨_, _, _, rfl⟩

theorem close (h : w.KeepsLines pen t opens own drawing (.close :: rest))
    (hdrawing : drawing = true) (hrest : ∀ s ∈ rest.head?, ∃ p, s = .move p) :
    w.close.KeepsLines (pen.followAll (w.stepTrail .close)) (t.step .close) opens [] false rest := by
  have hopen := h.isOpen fun q hq => by cases hq
  simp only [stepTrail, BandWalk.close, closeTrail]
  by_cases hdrawn : w.progress = .drawn
  · obtain ⟨pen', hpen', htraced, hstart, ⟨p, notes, hback⟩, hlines⟩ := h.returnToStart hdrawn
    obtain ⟨stream, point, unsent, heq⟩ := returnToStart_eq w
    have hsent : ¬ (w.use.closesImplicitly || decide (w.progress ≠ .drawn)) = true := by
      simp [h.stroke, hdrawn]
    obtain ⟨htraced', hlines'⟩ := htraced.closeSubpath hback
    rw [heq, if_neg hsent, if_neg hsent, Pen.followAll_append, ← hpen']
    refine {
      stroke := h.stroke
      traced := htraced'
      pen_eq := hstart
      start_eq := hstart
      lines := ?_
      penAt := fun _ => .inr rfl
      closed := fun _ => hrest
      start := fun hclosed => absurd rfl hclosed
      side := fun hclosed => absurd rfl hclosed
      within := fun hclosed => absurd rfl hclosed
      outside := fun hclosed => absurd rfl hclosed
      moved := fun hmoved => by cases hmoved
      drawn := fun hdrawn => by cases hdrawn }
    show List.filter w.rows.sees (pen'.follow .close).path.lines = _
    rw [hlines', hstart]
    exact hlines
  · -- Nothing of the subpath was sent, since all of it lies on one side.
    have hmoved := SubpathProgress.eq_moved hopen hdrawn
    obtain ⟨hside, -, -, hin, -⟩ := h.moved hmoved
    have hout : w.side ≠ .within := by
      intro hwithin
      have := (hin hwithin).1
      rw [hdrawing] at this
      cases this
    obtain ⟨ht, hstartSide⟩ := h.start hopen
    have hreturn : w.returnToStart = w := by
      rw [BandWalk.returnToStart, if_pos hside]
    have hunseen : w.rows.sees (t.point, t.start) = false := by
      rw [ht]
      exact RowRange.sees_of_sideOf_eq (h.side hopen).symm (hstartSide.symm.trans hside.symm) hout
    have hnone : (w.use.closesImplicitly || decide (w.progress ≠ .drawn)) = true := by
      simp [hdrawn]
    rw [hreturn, if_pos hnone, if_pos hnone, returnTrail, if_pos hside]
    refine {
      stroke := h.stroke
      traced := h.traced
      pen_eq := h.pen_eq
      start_eq := h.start_eq
      lines := ?_
      penAt := fun hsent => by cases hsent
      closed := fun _ => hrest
      start := fun hclosed => absurd rfl hclosed
      side := fun hclosed => absurd rfl hclosed
      within := fun hclosed => absurd rfl hclosed
      outside := fun hclosed => absurd rfl hclosed
      moved := fun hmoved => by cases hmoved
      drawn := fun hdrawn => by cases hdrawn }
    show List.filter w.rows.sees pen.path.lines =
      List.filter w.rows.sees (t.lines ++ [(t.point, t.start)])
    rw [h.lines, List.filter_append]
    simp [hunseen]

end KeepsLines

@[simp] theorem close_rows (w : BandWalk) : w.close.rows = w.rows := by
  obtain ⟨stream, pen, unsent, heq⟩ := KeepsLines.returnToStart_eq w
  rw [BandWalk.close, heq]
  split <;> rfl

@[simp] theorem closeIfImplicit_rows (w : BandWalk) : w.closeIfImplicit.rows = w.rows := by
  rw [BandWalk.closeIfImplicit]
  split
  · exact close_rows w
  · rfl

/-- A walk is for the same rows all along. -/
@[simp] theorem step_rows (w : BandWalk) (s : Segment) : (w.step s).rows = w.rows := by
  have hcatchUp := (KeepsLines.catchUp_keeps w).1
  cases s with
  | move p =>
    simp only [step, moveTo]
    split <;> exact closeIfImplicit_rows w
  | line p notes =>
    simp only [step, lineTo]
    split
    · rfl
    · exact hcatchUp
  | curve c1 c2 p notes =>
    simp only [step, curveTo]
    split
    · rfl
    · exact hcatchUp
  | close => exact close_rows w

namespace KeepsLines

/-- The rest of the path is drawn with all its lines that are seen, and no others. -/
theorem toEnd {rest : List Segment} (h : w.KeepsLines pen t opens own drawing rest)
    (hdrawn : Path.DrawnFrom drawing rest) (hcloses : Path.ClosesApartFrom opens own rest) :
    (pen.followAll (w.trailFrom rest)).path.lines.filter w.rows.sees =
      (rest.foldl LineTrace.step t).lines.filter w.rows.sees := by
  induction rest generalizing w pen t opens own drawing with
  | nil =>
    rw [trailFrom, h.closeIfImplicit.2]
    exact h.lines
  | cons s rest ih =>
    rw [trailFrom, Pen.followAll_append, List.foldl_cons, ← step_rows w s]
    cases s with
    | move p => exact ih (h.moveTo hcloses.1) hdrawn hcloses.2
    | line p notes => exact ih (h.lineTo hcloses.1) hdrawn hcloses.2
    | curve c1 c2 p notes => exact hdrawn.elim
    | close => exact ih (h.close hdrawn.1 hcloses.1) hdrawn.2 hcloses.2

end KeepsLines

/-- Of a path of lines a stroke sends all that are seen, and no others. -/
theorem filter_lines_sentPath (origin : Point) (rows : RowRange) {use : PathUse}
    (huse : use.closesImplicitly = false) {path : Path} (hpath : path.IsPolygonal)
    (hapart : path.ClosesApart) :
    (sentPath origin rows use path).lines.filter rows.sees = path.lines.filter rows.sees := by
  have h : (BandWalk.ofOrigin origin rows use).KeepsLines _ _ _ _ false _ :=
    .ofOrigin origin rows huse hpath.isDrawn.head
  have hend := h.toEnd hpath.isDrawn.drawnFrom hapart
  rw [sentPath, trail]
  refine hend.trans ?_
  rw [Path.lines, Path.lineTrace, Array.foldl_toList]
  rfl

end BandWalk

end BandedPage
