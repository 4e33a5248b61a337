import Mathlib
import BandedPage.Path.Walk
import BandedPage.Replay.Pen

/-!
# What a pen is told to do

A script lists the moves of a pen together with the marks that what they draw carries. The commands
that a path is sent as set the marks apart from the moves, and only when they change; the pen does
the same either way. Moves from where the pen is never begin a subpath anywhere else, as long as the
pen knows where it is.
-/

namespace BandedPage

/-- A movement of the pen, and the marks of what it draws. -/
structure MarkedMove where
  move : PenMove
  notes : SegmentNotes := 0

namespace PenMove

def draws : PenMove → Bool
  | line .. | curve .. => true
  | move .. | close => false

end PenMove

/-- What the move draws carries the marks. -/
def MarkedMove.Carries (notes : SegmentNotes) (m : MarkedMove) : Prop :=
  m.move.draws = true → m.notes = notes

namespace Pen

def performMarked (pen : Pen) (m : MarkedMove) : Except Error Pen :=
  { pen with notes := m.notes }.perform m.move

/-- Do marked moves one after another. -/
def performScript (pen : Pen) (script : List MarkedMove) : Except Error Pen :=
  script.foldlM performMarked pen

@[simp] theorem performScript_nil (pen : Pen) : pen.performScript [] = .ok pen := rfl

@[simp] theorem performScript_cons (pen : Pen) (m : MarkedMove) (script : List MarkedMove) :
    pen.performScript (m :: script) = pen.performMarked m >>= (·.performScript script) := rfl

@[simp] theorem performScript_append (pen : Pen) (script script' : List MarkedMove) :
    pen.performScript (script ++ script') = pen.performScript script >>= (·.performScript script') :=
  List.foldlM_append

theorem performScript_append_ok {pen pen'' : Pen} {script script' : List MarkedMove} :
    pen.performScript (script ++ script') = .ok pen'' ↔
      ∃ pen', pen.performScript script = .ok pen' ∧ pen'.performScript script' = .ok pen'' := by
  rw [performScript_append]
  cases hpen : pen.performScript script with
  | error e =>
    constructor
    · intro h
      cases h
    · rintro ⟨pen', h, -⟩
      cases h
  | ok pen' =>
    constructor
    · intro h
      exact ⟨pen', rfl, h⟩
    · rintro ⟨_, ⟨⟩, h⟩
      exact h

@[simp] theorem ensureSubpath_drawing (pen : Pen) : pen.ensureSubpath.drawing = pen.drawing := by
  rw [ensureSubpath]
  split <;> rfl

@[simp] theorem ensureSubpath_notes (pen : Pen) : pen.ensureSubpath.notes = pen.notes := by
  rw [ensureSubpath]
  split <;> rfl

@[simp] theorem ensureSubpath_point (pen : Pen) : pen.ensureSubpath.point = pen.point := by
  rw [ensureSubpath]
  split <;> rfl

@[simp] theorem offsetPoint_eq {p : Point} {dx dy : Int} (hx : Word.fits32 (p.x + dx) = true)
    (hy : Word.fits32 (p.y + dy) = true) : offsetPoint p dx dy = .ok ⟨p.x + dx, p.y + dy⟩ := by
  rw [offsetPoint, hx, hy]
  rfl

/-- A move neither begins nor ends the drawing, and leaves the marks alone. -/
theorem perform_keeps {pen pen' : Pen} {m : PenMove} (h : pen.perform m = .ok pen') :
    pen'.drawing = pen.drawing ∧ pen'.notes = pen.notes := by
  cases m with
  | move dx dy =>
    rw [perform] at h
    cases hp : offsetPoint pen.point dx dy with
    | error e =>
      rw [hp] at h
      cases h
    | ok p =>
      rw [hp] at h
      cases h
      exact ⟨rfl, rfl⟩
  | line dx dy =>
    simp only [perform] at h
    cases hp : offsetPoint pen.ensureSubpath.point dx dy with
    | error e =>
      rw [hp] at h
      cases h
    | ok p =>
      rw [hp] at h
      cases h
      exact ⟨pen.ensureSubpath_drawing, pen.ensureSubpath_notes⟩
  | curve dx1 dy1 dx2 dy2 dx3 dy3 =>
    simp only [perform] at h
    cases h₁ : offsetPoint pen.ensureSubpath.point dx1 dy1 with
    | error e =>
      rw [h₁] at h
      cases h
    | ok c1 =>
      cases h₂ : offsetPoint pen.ensureSubpath.point dx2 dy2 with
      | error e =>
        rw [h₁, h₂] at h
        cases h
      | ok c2 =>
        cases h₃ : offsetPoint pen.ensureSubpath.point dx3 dy3 with
        | error e =>
          rw [h₁, h₂, h₃] at h
          cases h
        | ok p =>
          rw [h₁, h₂, h₃] at h
          cases h
          exact ⟨pen.ensureSubpath_drawing, pen.ensureSubpath_notes⟩
  | close =>
    cases h
    exact ⟨rfl, rfl⟩

/-- What draws nothing does not depend on the marks. -/
theorem perform_withNotes {pen pen' : Pen} {m : PenMove} (hm : m.draws = false)
    (h : pen.perform m = .ok pen') (notes : SegmentNotes) :
    { pen with notes }.perform m = .ok { pen' with notes } := by
  cases m with
  | move dx dy =>
    rw [perform] at h ⊢
    cases hp : offsetPoint pen.point dx dy with
    | error e =>
      rw [hp] at h
      cases h
    | ok p =>
      rw [hp] at h
      cases h
      rfl
  | line dx dy => cases hm
  | curve dx1 dy1 dx2 dy2 dx3 dy3 => cases hm
  | close =>
    cases h
    rfl

theorem performScript_drawing {pen pen' : Pen} {script : List MarkedMove}
    (h : pen.performScript script = .ok pen') : pen'.drawing = pen.drawing := by
  induction script generalizing pen with
  | nil =>
    cases h
    rfl
  | cons m script ih =>
    rw [performScript_cons] at h
    cases hm : pen.performMarked m with
    | error e =>
      rw [hm] at h
      cases h
    | ok pen₁ =>
      rw [hm] at h
      exact (ih h).trans (perform_keeps hm).1

/-- Where all that is drawn carries the same marks, they can be set once and for all. -/
theorem performAll_of_script {pen pen' : Pen} {script : List MarkedMove} {notes : SegmentNotes}
    (hscript : ∀ m ∈ script, m.Carries notes) (h : pen.performScript script = .ok pen') :
    { pen with notes }.performAll (script.map MarkedMove.move) =
      .ok { pen' with notes } := by
  induction script generalizing pen with
  | nil =>
    cases h
    rfl
  | cons m script ih =>
    rw [performScript_cons] at h
    cases hm : pen.performMarked m with
    | error e =>
      rw [hm] at h
      cases h
    | ok pen₁ =>
      rw [hm] at h
      have hcarries := hscript m List.mem_cons_self
      have hfirst : { pen with notes }.perform m.move = .ok { pen₁ with notes } := by
        cases hdraws : m.move.draws with
        | false => exact perform_withNotes hdraws hm notes
        | true =>
          have hnotes : pen₁.notes = notes := (perform_keeps hm).2.trans (hcarries hdraws)
          rw [performMarked, hcarries hdraws] at hm
          rw [hm, ← hnotes]
      have hrest := ih (fun m' hmem => hscript m' (List.mem_cons_of_mem m hmem)) h
      show { pen with notes }.perform m.move >>= (·.performAll (script.map MarkedMove.move)) = _
      rw [hfirst]
      exact hrest

@[simp]
theorem startAt_drawing {pen : Pen} (h : pen.drawing = true) (p : Point) : pen.startAt p = pen := by
  rw [startAt, if_pos h]

@[simp] theorem startAt_withNotes (pen : Pen) (p : Point) (notes : SegmentNotes) :
    { pen with notes }.startAt p = { pen.startAt p with notes } := by
  simp only [startAt]
  split <;> rfl

@[simp] theorem drawing_startAt (pen : Pen) (p : Point) : (pen.startAt p).drawing = true := by
  rw [startAt]
  split
  · assumption
  · rfl

/-- The pen is at `p` in a subpath that begins at `start`, or would if something were drawn. -/
structure IsAt (pen : Pen) (p start : Point) : Prop where
  point_eq : pen.point = p
  start_eq : pen.start = start
  /-- Where no subpath was begun, the pen has not left its beginning. -/
  idle : pen.path.current = none → start = p
  begun : pen.path.current.isSome = true → pen.path.start.isSome = true

namespace IsAt

variable {pen : Pen} {p start : Point}

/-- To begin a subpath where the pen is changes nothing else. -/
theorem ensureSubpath (h : pen.IsAt p start) :
    pen.ensureSubpath.IsAt p start ∧ pen.ensureSubpath.path.current.isSome = true := by
  rw [Pen.ensureSubpath]
  split
  · next heq => exact ⟨h, by rw [heq]; rfl⟩
  · next heq =>
    have hstart := h.idle heq
    exact ⟨⟨h.point_eq, h.point_eq.trans hstart.symm, fun _ => hstart, fun _ => rfl⟩, rfl⟩

/-- A subpath that was begun keeps its beginning when something is drawn on it. -/
theorem extend (h : pen.IsAt p start) (hcurrent : pen.path.current.isSome = true) (p' : Point)
    (segments : Array Segment) :
    { pen with point := p', path := { pen.path with segments, current := some p' } }.IsAt p'
      start := by
  refine ⟨rfl, h.start_eq, ?_, fun _ => h.begun hcurrent⟩
  intro hnone
  cases hnone

/-- A fresh pen put on a point. -/
theorem startAt {pen : Pen} (hdrawing : pen.drawing = false) (hpath : pen.path = {}) (p : Point) :
    (pen.startAt p).IsAt p p := by
  have hfree : ¬ pen.drawing = true := by simp [hdrawing]
  rw [Pen.startAt, if_neg hfree]
  refine ⟨rfl, rfl, fun _ => rfl, ?_⟩
  rw [hpath]
  intro h
  cases h

end IsAt

end Pen

end BandedPage

/-!
## The trail of a walk

A walk sends offsets from point to point; its trail is what it sends with the points themselves. A
pen that follows the trail draws the path that a target is given, `BandWalk.sentPath`.
-/

namespace BandedPage

namespace Segment

/-- The movement along the segment for a pen at `p`. -/
def movesFrom (p : Point) : Segment → MarkedMove
  | move q => ⟨.move (q.x - p.x) (q.y - p.y), 0⟩
  | line q notes => ⟨.line (q.x - p.x) (q.y - p.y), notes &&& 0x3f⟩
  | curve c1 c2 q notes =>
    ⟨.curve (c1.x - p.x) (c1.y - p.y) (c2.x - p.x) (c2.y - p.y) (q.x - p.x) (q.y - p.y),
      notes &&& 0x3f⟩
  | close => ⟨.close, 0⟩

/-- Where the segment ends if its subpath begins at `start`. -/
def stop (start : Point) : Segment → Point
  | move q | line q _ | curve _ _ q _ => q
  | close => start

/-- Where the subpath begins that the segment belongs to, after one that begins at `start`. -/
def origin (start : Point) : Segment → Point
  | move q => q
  | line _ _ | curve _ _ _ _ | close => start

end Segment

namespace Pen

def follow (pen : Pen) : Segment → Pen
  | .move p => { pen with point := p, start := p, path := pen.path.moveTo p }
  | .line p notes =>
    let pen := pen.ensureSubpath
    { pen with point := p, path := pen.path.lineTo p (notes &&& 0x3f) }
  | .curve c1 c2 p notes =>
    let pen := pen.ensureSubpath
    { pen with point := p, path := pen.path.curveTo c1 c2 p (notes &&& 0x3f) }
  | .close => { pen with point := pen.start, path := pen.path.closeSubpath }

def followAll (pen : Pen) (trail : List Segment) : Pen := trail.foldl follow pen

@[simp] theorem followAll_append (pen : Pen) (trail trail' : List Segment) :
    pen.followAll (trail ++ trail') = (pen.followAll trail).followAll trail' :=
  List.foldl_append

/-- Marks make a difference only to what is drawn. -/
@[simp] theorem ensureSubpath_withNotes (pen : Pen) (notes : SegmentNotes) :
    { pen with notes }.ensureSubpath = { pen.ensureSubpath with notes } := by
  simp only [ensureSubpath]
  split <;> rfl

/-- A pen that makes the movement of a segment goes along the segment. -/
theorem performMarked_movesFrom {pen : Pen} {p start : Point} (h : pen.IsAt p start) {s : Segment}
    (hs : ∀ q ∈ s.points, Word.fits32 q.x = true ∧ Word.fits32 q.y = true) :
    pen.performMarked (s.movesFrom p) =
      .ok { pen.follow s with notes := (s.movesFrom p).notes } := by
  have hoffset : ∀ q ∈ s.points, ∀ pen' : Pen, pen'.point = p →
      offsetPoint pen'.point (q.x - p.x) (q.y - p.y) = .ok q := by
    intro q hq pen' hpen'
    obtain ⟨hx, hy⟩ := hs q hq
    rw [hpen', offsetPoint_eq]
    · rw [add_sub_cancel, add_sub_cancel]
    · rwa [add_sub_cancel]
    · rwa [add_sub_cancel]
  have hpoint : ∀ notes, ({ pen with notes } : Pen).ensureSubpath.point = p := by
    intro notes
    rw [ensureSubpath_point]
    exact h.point_eq
  cases s with
  | move q =>
    simp only [performMarked, Segment.movesFrom, perform]
    rw [hoffset q List.mem_cons_self _ h.point_eq]
    rfl
  | line q notes =>
    simp only [performMarked, Segment.movesFrom, perform]
    rw [hoffset q List.mem_cons_self _ (hpoint _), ensureSubpath_withNotes]
    rfl
  | curve c1 c2 q notes =>
    simp only [performMarked, Segment.movesFrom, perform]
    rw [hoffset c1 (by simp [Segment.points]) _ (hpoint _),
      hoffset c2 (by simp [Segment.points]) _ (hpoint _),
      hoffset q (by simp [Segment.points]) _ (hpoint _), ensureSubpath_withNotes]
    rfl
  | close => rfl

/-- A pen that goes along a segment knows where it is. -/
theorem IsAt.follow {pen : Pen} {p start : Point} (h : pen.IsAt p start) (s : Segment) :
    (pen.follow s).IsAt (s.stop start) (s.origin start) := by
  obtain ⟨h', hcurrent⟩ := h.ensureSubpath
  obtain ⟨c, hc⟩ := Option.isSome_iff_exists.mp hcurrent
  cases s with
  | move q => exact ⟨rfl, rfl, fun _ => rfl, fun _ => rfl⟩
  | line q notes =>
    simp only [Pen.follow, Path.lineTo, Path.ensureCurrent, hc]
    exact h'.extend hcurrent _ _
  | curve c1 c2 q notes =>
    simp only [Pen.follow, Path.curveTo, Path.ensureCurrent, hc]
    exact h'.extend hcurrent _ _
  | close =>
    refine ⟨h.start_eq, h.start_eq, fun _ => rfl, ?_⟩
    intro hsome
    simp only [Pen.follow, Path.closeSubpath] at hsome ⊢
    split at hsome
    · exact h.begun hsome
    · exact h.begun hsome
    · exact h.begun hsome
    · exact hsome

end Pen

namespace BandWalk

def catchUpTrail (w : BandWalk) : List Segment :=
  if w.isBehind then
    if w.progress = .moved then [.move w.outside] else [.line w.outside w.outsideNotes]
  else []

def returnTrail (w : BandWalk) : List Segment :=
  if w.side = w.startSide then []
  else
    (if w.isBehind then [.line w.outside w.outsideNotes] else []) ++
      if w.progress = .drawn && w.startSkipped then [.line w.start 0] else []

def closeTrail (w : BandWalk) : List Segment :=
  w.returnTrail ++ if w.use.closesImplicitly || w.progress ≠ .drawn then [] else [.close]

def implicitTrail (w : BandWalk) : List Segment :=
  if w.progress = .drawn && w.use.closesImplicitly then w.closeTrail else []

def stepTrail (w : BandWalk) : Segment → List Segment
  | .move p => w.implicitTrail ++ if w.rows.sideOf p.y = .within then [.move p] else []
  | .line p notes =>
    let side := w.rows.sideOf p.y
    if side = w.side && side ≠ .within then []
    else w.catchUpTrail ++ [.line p (notes &&& w.use.notesMask)]
  | .curve c1 c2 p notes =>
    let side := w.rows.curveSide [c1.y, c2.y, p.y]
    if side = w.side && side ≠ .within then []
    else w.catchUpTrail ++ [.curve c1 c2 p (notes &&& w.use.notesMask)]
  | .close => w.closeTrail

def trailFrom (w : BandWalk) : List Segment → List Segment
  | [] => w.implicitTrail
  | s :: rest => w.stepTrail s ++ (w.step s).trailFrom rest

def trail (origin : Point) (rows : RowRange) (use : PathUse) (path : Path) : List Segment :=
  (ofOrigin origin rows use).trailFrom path.segments.toList

/-- The path that a target is given. -/
def sentPath (origin : Point) (rows : RowRange) (use : PathUse) (path : Path) : Path :=
  (({ point := origin, start := origin } : Pen).followAll (trail origin rows use path)).path

end BandWalk

end BandedPage
