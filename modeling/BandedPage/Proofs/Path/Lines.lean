import Mathlib
import BandedPage.Proofs.Path.Script

/-!
# The lines of a path

A path of lines is known by its directed lines, those that close a subpath among them. A line that
lies above or below some rows as a whole cannot be seen there.
-/

namespace BandedPage

/-- Lines drawn so far, and where the pen is. -/
structure LineTrace where
  /-- The ends of each line, in the direction in which it is drawn. -/
  lines : List (Point × Point) := []
  point : Point := {}
  /-- Where the subpath begins. -/
  start : Point := {}

namespace LineTrace

/-- Go along a segment. A curve is no line. -/
def step (t : LineTrace) : Segment → LineTrace
  | .move p => { t with point := p, start := p }
  | .line p _ => { t with lines := t.lines ++ [(t.point, p)], point := p }
  | .curve _ _ p _ => { t with point := p }
  | .close => { t with lines := t.lines ++ [(t.point, t.start)], point := t.start }

end LineTrace

namespace Path

/-- The lines of the path, and where it ends. -/
def lineTrace (path : Path) : LineTrace := path.segments.foldl LineTrace.step {}

/-- The directed lines of the path. -/
def lines (path : Path) : List (Point × Point) := path.lineTrace.lines

/-- A path that is built of lines. -/
inductive IsPolygonal : Path → Prop where
  | empty : IsPolygonal {}
  | moveTo {path : Path} (h : IsPolygonal path) (p : Point) : IsPolygonal (path.moveTo p)
  | lineTo {path : Path} (h : IsPolygonal path) (p : Point) (notes : SegmentNotes) :
    IsPolygonal (path.lineTo p notes)
  | closeSubpath {path : Path} (h : IsPolygonal path) : IsPolygonal path.closeSubpath

/-- A path that is built of lines and curves. -/
inductive IsBuilt : Path → Prop where
  | empty : IsBuilt {}
  | moveTo {path : Path} (h : IsBuilt path) (p : Point) : IsBuilt (path.moveTo p)
  | lineTo {path : Path} (h : IsBuilt path) (p : Point) (notes : SegmentNotes) :
    IsBuilt (path.lineTo p notes)
  | curveTo {path : Path} (h : IsBuilt path) (c1 c2 p : Point) (notes : SegmentNotes) :
    IsBuilt (path.curveTo c1 c2 p notes)
  | closeSubpath {path : Path} (h : IsBuilt path) : IsBuilt path.closeSubpath

/-- A path that has nothing in front of its first move. -/
structure Begins (path : Path) : Prop where
  head : ∀ s ∈ path.segments.toList.head?, ∃ p, s = .move p
  begun : path.current.isSome = true → path.segments ≠ #[]

/-- A move takes the place of one that nothing was drawn after. -/
theorem exists_moveTo (path : Path) (p : Point) :
    ∃ before : Array Segment, (path.moveTo p).segments = before.push (.move p) ∧
      (path.segments = before ∨ ∃ q, path.segments = before.push (.move q)) := by
  simp only [Path.moveTo]
  split
  · next q hback =>
    obtain ⟨before, hpath⟩ : ∃ before : Array Segment, path.segments = before.push (.move q) := by
      obtain ⟨hne, hlast⟩ := Array.back?_eq_some_iff.mp hback
      exact ⟨_, hlast⟩
    exact ⟨before, by rw [hpath, Array.pop_push], .inr ⟨q, hpath⟩⟩
  · exact ⟨path.segments, rfl, .inl rfl⟩

namespace Begins

variable {path : Path}

theorem empty : Begins {} := ⟨fun _ hs => (nomatch hs), fun hsome => (nomatch hsome)⟩

theorem moveTo (h : path.Begins) (p : Point) : (path.moveTo p).Begins := by
  obtain ⟨before, hmoved, hbefore⟩ := path.exists_moveTo p
  refine ⟨fun s hs => ?_, fun _ => by rw [hmoved]; simp⟩
  rw [hmoved, Array.toList_push, List.head?_append] at hs
  cases hhead : before.toList.head? with
  | none =>
    rw [hhead] at hs
    exact ⟨p, (Option.some.inj hs).symm⟩
  | some s' =>
    rw [hhead] at hs
    obtain rfl := Option.some.inj hs
    refine h.head s' ?_
    rcases hbefore with hpath | ⟨q, hpath⟩
    · rw [hpath, hhead]
      rfl
    · rw [hpath, Array.toList_push, List.head?_append, hhead]
      rfl

theorem ensureCurrent (h : path.Begins) :
    path.ensureCurrent.Begins ∧ path.ensureCurrent.segments ≠ #[] := by
  rw [Path.ensureCurrent]
  split
  · next p hp => exact ⟨h, h.begun (by rw [hp]; rfl)⟩
  · exact ⟨h.moveTo {}, (h.moveTo {}).begun rfl⟩

/-- One more segment. -/
theorem push (h : path.Begins) (hne : path.segments ≠ #[]) (s : Segment)
    (start current : Option Point) :
    Begins { segments := path.segments.push s, start, current } := by
  refine ⟨fun s' hs' => h.head s' ?_, fun _ => by simp⟩
  rwa [Array.toList_push, List.head?_append_of_ne_nil _ (by simpa using hne)] at hs'

theorem closeSubpath (h : path.Begins) : path.closeSubpath.Begins := by
  rw [Path.closeSubpath]
  split
  · exact h
  · exact h
  · exact h
  · next hnone _ _ =>
    exact h.push (fun hempty => hnone (by rw [hempty]; rfl)) _ _ _

end Begins

theorem IsBuilt.begins {path : Path} (h : path.IsBuilt) : path.Begins := by
  induction h with
  | empty => exact .empty
  | moveTo _ p ih => exact ih.moveTo p
  | lineTo _ p notes ih =>
    obtain ⟨hbegins, hne⟩ := ih.ensureCurrent
    exact hbegins.push hne _ _ _
  | curveTo _ c1 c2 p notes ih =>
    obtain ⟨hbegins, hne⟩ := ih.ensureCurrent
    exact hbegins.push hne _ _ _
  | closeSubpath _ ih => exact ih.closeSubpath

end Path

namespace RowRange

/-- The line is not above the rows and not below them. -/
def sees (r : RowRange) (line : Point × Point) : Bool :=
  !(line.1.y < r.first && line.2.y < r.first) && !(r.stop ≤ line.1.y && r.stop ≤ line.2.y)

theorem lt_of_sideOf_eq_above {r : RowRange} {y : Fixed} (h : r.sideOf y = .above) :
    y < r.first := by
  simp only [sideOf] at h
  split at h
  · assumption
  · split at h <;> cases h

theorem le_of_sideOf_eq_below {r : RowRange} {y : Fixed} (h : r.sideOf y = .below) :
    r.stop ≤ y := by
  simp only [sideOf] at h
  split at h
  · cases h
  · split at h
    · assumption
    · cases h

/-- A line with both ends on one side of the rows is not seen. -/
theorem sees_of_sideOf_eq {r : RowRange} {p q : Point} {side : BandSide}
    (hp : r.sideOf p.y = side) (hq : r.sideOf q.y = side) (hside : side ≠ .within) :
    r.sees (p, q) = false := by
  cases side with
  | above => simp [sees, lt_of_sideOf_eq_above hp, lt_of_sideOf_eq_above hq]
  | within => exact absurd rfl hside
  | below => simp [sees, le_of_sideOf_eq_below hp, le_of_sideOf_eq_below hq]

end RowRange

/-- The path that the pen has drawn ends where the pen is. -/
structure Pen.IsTraced (pen : Pen) : Prop where
  begun : pen.path.current.isSome = true → pen.path.start.isSome = true ∧
    pen.path.lineTrace.point = pen.point ∧ pen.path.lineTrace.start = pen.start
  idle : pen.path.current = none → pen.path.segments = #[] ∧ pen.start = pen.point

namespace Path

theorem lineTrace_push (path : Path) (s : Segment) (start current : Option Point) :
    lineTrace { segments := path.segments.push s, start, current } = path.lineTrace.step s := by
  simp [lineTrace]

/-- Of two moves in a row the second counts. -/
@[simp] theorem lineTrace_moveTo (path : Path) (p : Point) :
    (path.moveTo p).lineTrace = { path.lineTrace with point := p, start := p } := by
  simp only [moveTo]
  split
  · next q hback =>
    obtain ⟨before, hbefore⟩ : ∃ before : Array Segment, path.segments = before.push (.move q) := by
      obtain ⟨hne, hlast⟩ := Array.back?_eq_some_iff.mp hback
      exact ⟨_, hlast⟩
    simp [lineTrace, hbefore, LineTrace.step]
  · simp [lineTrace, LineTrace.step]

end Path

namespace Pen.IsTraced

variable {pen : Pen}

theorem moveTo (pen : Pen) (p : Point) : (pen.follow (.move p)).IsTraced where
  begun _ := by
    refine ⟨rfl, ?_, ?_⟩
    · show (pen.path.moveTo p).lineTrace.point = p
      rw [Path.lineTrace_moveTo]
    · show (pen.path.moveTo p).lineTrace.start = p
      rw [Path.lineTrace_moveTo]
  idle h := by cases h

@[simp] theorem lines_moveTo (pen : Pen) (p : Point) :
    (pen.follow (.move p)).path.lines = pen.path.lines := by
  show (pen.path.moveTo p).lineTrace.lines = pen.path.lineTrace.lines
  rw [Path.lineTrace_moveTo]

/-- A subpath that begins where the pen is has no lines yet. -/
theorem ensureSubpath (h : pen.IsTraced) :
    pen.ensureSubpath.IsTraced ∧ pen.ensureSubpath.path.current.isSome = true ∧
      pen.ensureSubpath.path.lines = pen.path.lines := by
  simp only [Pen.ensureSubpath]
  split
  · next c hc => exact ⟨h, by rw [hc]; rfl, rfl⟩
  · exact ⟨moveTo pen pen.point, rfl, lines_moveTo pen pen.point⟩

theorem ensureSubpath_start (h : pen.IsTraced) : pen.ensureSubpath.start = pen.start := by
  simp only [Pen.ensureSubpath]
  split
  · rfl
  · next hnone => exact (h.idle hnone).2.symm

theorem lineTo (h : pen.IsTraced) (p : Point) (notes : SegmentNotes) :
    (pen.follow (.line p notes)).IsTraced ∧
      (pen.follow (.line p notes)).path.lines = pen.path.lines ++ [(pen.point, p)] ∧
      (pen.follow (.line p notes)).path.segments.back? = some (.line p (notes &&& 0x3f)) := by
  obtain ⟨h', hcurrent, hlines⟩ := h.ensureSubpath
  have hpoint := ensureSubpath_point pen
  obtain ⟨c, hc⟩ := Option.isSome_iff_exists.mp hcurrent
  obtain ⟨hbegun, hat, hstart⟩ := h'.begun hcurrent
  simp only [Pen.follow, Path.lineTo, Path.ensureCurrent, hc]
  refine ⟨⟨fun _ => ⟨hbegun, ?_, ?_⟩, fun hnone => by cases hnone⟩, ?_, ?_⟩
  · simp only [Path.lineTrace_push, LineTrace.step]
  · simp only [Path.lineTrace_push, LineTrace.step, hstart]
  · simp only [Path.lines, Path.lineTrace_push, LineTrace.step, hat, hpoint]
    exact congrArg (· ++ [(pen.point, p)]) hlines
  · simp

/-- Closing a subpath on which a line was drawn draws another line. -/
theorem closeSubpath (h : pen.IsTraced) {p : Point} {notes : SegmentNotes}
    (hback : pen.path.segments.back? = some (.line p notes)) :
    (pen.follow .close).IsTraced ∧
      (pen.follow .close).path.lines = pen.path.lines ++ [(pen.point, pen.start)] := by
  have hcurrent : pen.path.current.isSome = true := by
    by_contra hnone
    rw [Bool.not_eq_true, Option.isSome_eq_false_iff, Option.isNone_iff_eq_none] at hnone
    rw [(h.idle hnone).1] at hback
    cases hback
  obtain ⟨hbegun, hat, hstart⟩ := h.begun hcurrent
  simp only [Pen.follow, Path.closeSubpath, hback]
  refine ⟨⟨fun _ => ⟨hbegun, ?_, ?_⟩, ?_⟩, ?_⟩
  · simp only [Path.lineTrace_push, LineTrace.step, hstart]
  · simp only [Path.lineTrace_push, LineTrace.step, hstart]
  · intro hnone
    replace hnone : pen.path.start = none := hnone
    rw [hnone] at hbegun
    cases hbegun
  · simp only [Path.lines, Path.lineTrace_push, LineTrace.step, hat, hstart]

end Pen.IsTraced

end BandedPage

/-!
## The sides of a filled path

To fill a path of lines, each of its subpaths is taken as closed. Where its sides cross a height,
and in which direction, decides what is inside.
-/

namespace BandedPage

namespace LineTrace

/-- Close the subpath if it does not end where it began. -/
def shut (t : LineTrace) : LineTrace :=
  if t.point = t.start then t
  else { t with lines := t.lines ++ [(t.point, t.start)], point := t.start }

/-- Go along a segment; a subpath is closed before the next one begins. -/
def stepShut (t : LineTrace) : Segment → LineTrace
  | .move p => t.shut.step (.move p)
  | s => t.step s

end LineTrace

/-- Where a side crosses a height. -/
structure Crossing where
  x : ℚ
  /-- The side goes on to greater coordinates. -/
  down : Bool
  deriving DecidableEq

/-- Where the side from `side.1` to `side.2` crosses the height `s`. -/
def crossing? (s : Fixed) (side : Point × Point) : Option Crossing :=
  let (a, b) := side
  if a.y ≤ s ↔ b.y ≤ s then none
  else some { x := a.x + (s - a.y) * (b.x - a.x) / (b.y - a.y), down := a.y ≤ s }

namespace Path

/-- The sides of the subpaths that are closed, and where the path ends. -/
def sideTrace (path : Path) : LineTrace := path.segments.foldl LineTrace.stepShut {}

def sides (path : Path) : List (Point × Point) := path.sideTrace.shut.lines

/-- Where the sides of the path cross the height. -/
def crossings (path : Path) (s : Fixed) : Multiset Crossing :=
  (path.sides.filterMap (crossing? s) : List Crossing)

/-- Every close is the last segment or is followed by a move. -/
def MovesAfterCloses (path : Path) : Prop :=
  path.segments.toList.IsChain fun s s' => s = .close → ∃ p, s' = .move p

end Path

def crossingsOf (s : Fixed) (lines : List (Point × Point)) : List Crossing :=
  lines.filterMap (crossing? s)

namespace LineTrace

@[simp] theorem crossing?_self (s : Fixed) (p : Point) : crossing? s (p, p) = none := by
  simp [crossing?]

@[simp] theorem crossingsOf_append (s : Fixed) (lines lines' : List (Point × Point)) :
    crossingsOf s (lines ++ lines') = crossingsOf s lines ++ crossingsOf s lines' :=
  List.filterMap_append

/-- Closing a subpath adds the crossing of one side at most. -/
theorem crossingsOf_shut (s : Fixed) (t : LineTrace) :
    crossingsOf s t.shut.lines = crossingsOf s (t.lines ++ [(t.point, t.start)]) := by
  rw [shut]
  split
  · next heq => simp [crossingsOf, heq]
  · rfl

@[simp] theorem shut_start (t : LineTrace) : t.shut.start = t.start := by
  rw [shut]
  split <;> rfl

/-- Closing subpaths makes a difference only to what lines there are. -/
theorem foldl_stepShut_at (segments : List Segment) {t t' : LineTrace}
    (hpoint : t.point = t'.point) (hstart : t.start = t'.start) :
    (segments.foldl stepShut t).point = (segments.foldl step t').point ∧
      (segments.foldl stepShut t).start = (segments.foldl step t').start := by
  induction segments generalizing t t' with
  | nil => exact ⟨hpoint, hstart⟩
  | cons s segments ih =>
    rw [List.foldl_cons, List.foldl_cons]
    cases s with
    | move p => exact ih rfl rfl
    | line p notes | curve c1 c2 p notes => exact ih rfl hstart
    | close => exact ih hstart hstart

end LineTrace

namespace RowRange

/-- The height lies in the rows. Points above the rows are not below it, and points below the rows
are. -/
structure Shows (r : RowRange) (s : Fixed) : Prop where
  first_le : r.first ≤ s + 1
  lt_stop : s < r.stop

/-- A line with both ends on one side of the rows crosses no height in them. -/
theorem Shows.crossing_eq_none {r : RowRange} {s : Fixed} (h : r.Shows s) {p q : Point}
    {side : BandSide} (hp : r.sideOf p.y = side) (hq : r.sideOf q.y = side)
    (hside : side ≠ .within) : crossing? s (p, q) = none := by
  have hsame : p.y ≤ s ↔ q.y ≤ s := by
    cases side with
    | above =>
      have habove : ∀ {y : Int}, y < r.first → y ≤ s := fun hy =>
        Int.le_of_lt_add_one (lt_of_lt_of_le hy h.first_le)
      exact iff_of_true (habove (lt_of_sideOf_eq_above hp)) (habove (lt_of_sideOf_eq_above hq))
    | within => exact absurd rfl hside
    | below =>
      have hbelow : ∀ {y : Int}, r.stop ≤ y → ¬ y ≤ s := fun hy =>
        not_le.mpr (lt_of_lt_of_le h.lt_stop hy)
      exact iff_of_false (hbelow (le_of_sideOf_eq_below hp)) (hbelow (le_of_sideOf_eq_below hq))
  exact if_pos hsame

end RowRange

namespace Path

@[simp] theorem sideTrace_point (path : Path) : path.sideTrace.point = path.lineTrace.point := by
  rw [sideTrace, lineTrace, ← Array.foldl_toList, ← Array.foldl_toList]
  exact (LineTrace.foldl_stepShut_at path.segments.toList rfl rfl).1

@[simp] theorem sideTrace_start (path : Path) : path.sideTrace.start = path.lineTrace.start := by
  rw [sideTrace, lineTrace, ← Array.foldl_toList, ← Array.foldl_toList]
  exact (LineTrace.foldl_stepShut_at path.segments.toList rfl rfl).2

theorem sideTrace_push (path : Path) (s : Segment) (start current : Option Point) :
    sideTrace { segments := path.segments.push s, start, current } = path.sideTrace.stepShut s := by
  simp [sideTrace]

/-- A move closes the subpath before it. -/
@[simp] theorem sideTrace_moveTo (path : Path) (p : Point) :
    (path.moveTo p).sideTrace = { path.sideTrace.shut with point := p, start := p } := by
  simp only [moveTo]
  split
  · next q hback =>
    obtain ⟨before, hbefore⟩ : ∃ before : Array Segment, path.segments = before.push (.move q) := by
      obtain ⟨hne, hlast⟩ := Array.back?_eq_some_iff.mp hback
      exact ⟨_, hlast⟩
    simp [sideTrace, hbefore, LineTrace.stepShut, LineTrace.step, LineTrace.shut]
  · simp [sideTrace, LineTrace.stepShut, LineTrace.step]

end Path

namespace Pen.IsTraced

variable {pen : Pen}

/-- A subpath that begins where the pen is has no sides yet. -/
theorem sides_ensureSubpath (h : pen.IsTraced) :
    pen.ensureSubpath.path.sideTrace.lines = pen.path.sideTrace.lines := by
  simp only [Pen.ensureSubpath]
  split
  · rfl
  · next hnone =>
    have hempty : pen.path.sideTrace = {} := by
      simp [Path.sideTrace, (h.idle hnone).1]
    rw [Path.sideTrace_moveTo, hempty]
    rfl

theorem sides_lineTo (h : pen.IsTraced) (p : Point) (notes : SegmentNotes) :
    (pen.follow (.line p notes)).path.sideTrace.lines =
      pen.path.sideTrace.lines ++ [(pen.point, p)] := by
  obtain ⟨h', hcurrent, -⟩ := h.ensureSubpath
  obtain ⟨c, hc⟩ := Option.isSome_iff_exists.mp hcurrent
  have hat : pen.ensureSubpath.path.sideTrace.point = pen.point := by
    simp [(h'.begun hcurrent).2.1]
  simp only [Pen.follow, Path.lineTo, Path.ensureCurrent, hc, Path.sideTrace_push,
    LineTrace.stepShut, LineTrace.step, hat]
  rw [h.sides_ensureSubpath]

/-- The path that the pen has drawn is closed from where the pen is. -/
theorem crossingsOf_shut (h : pen.IsTraced) (hcurrent : pen.path.current.isSome = true)
    (s : Fixed) :
    crossingsOf s pen.path.sideTrace.shut.lines =
      crossingsOf s (pen.path.sideTrace.lines ++ [(pen.point, pen.start)]) := by
  obtain ⟨-, hat, hfrom⟩ := h.begun hcurrent
  simp [LineTrace.crossingsOf_shut, hat, hfrom]

end Pen.IsTraced

end BandedPage
