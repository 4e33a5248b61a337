import Mathlib
import BandedPage.Proofs.Path.Winding

/-!
# The rows of a walk

The rows that a band is sent a path for are cut to those of the path itself. To a walk rows mean
nothing but the sides that points lie on, so cutting them where there are no points makes no
difference. A path that lies above a height as a whole, or below it, does not cross it.
-/

namespace BandedPage

namespace BandWalk

/-- The walk if it looked at other rows. -/
def withRows (w : BandWalk) (rows : RowRange) : BandWalk := { w with rows }

variable {w : BandWalk} {rows rows' : RowRange} {use : PathUse}

@[simp] theorem withRows_ite (p : Prop) [Decidable p] (w w' : BandWalk) :
    (if p then w else w').withRows rows = if p then w.withRows rows else w'.withRows rows :=
  apply_ite (withRows · rows) p w w'

@[simp] theorem catchUp_withRows : (w.withRows rows).catchUp = w.catchUp.withRows rows := by
  rw [catchUp, catchUp, withRows_ite, withRows_ite]
  rfl

@[simp] theorem returnToStart_withRows :
    (w.withRows rows).returnToStart = w.returnToStart.withRows rows := by
  rw [returnToStart, returnToStart, withRows_ite, withRows_ite]
  have hbehind : (if (w.withRows rows).isBehind then
        { (w.withRows rows).drawLine w.outside w.outsideNotes with unsent := false }
      else w.withRows rows) =
      (if w.isBehind then { w.drawLine w.outside w.outsideNotes with unsent := false }
        else w).withRows rows := by
    rw [withRows_ite]
    rfl
  refine if_congr Iff.rfl rfl ?_
  exact (congrArg (fun w : BandWalk =>
    if w.progress = .drawn && w.startSkipped then w.drawLine w.start 0 else w) hbehind).trans rfl

@[simp] theorem close_withRows : (w.withRows rows).close = w.close.withRows rows := by
  rw [close, close, returnToStart_withRows, withRows_ite]
  rfl

@[simp] theorem closeIfImplicit_withRows :
    (w.withRows rows).closeIfImplicit = w.closeIfImplicit.withRows rows := by
  rw [closeIfImplicit, closeIfImplicit, close_withRows, withRows_ite]
  rfl

/-- The ends of a segment that is not curved lie on the same sides of both rows. -/
def SameSides (rows rows' : RowRange) : Segment → Prop
  | .move p | .line p _ => rows'.sideOf p.y = rows.sideOf p.y
  | .curve _ _ _ _ => False
  | .close => True

variable {s : Segment}

@[simp] theorem step_withRows (h : SameSides w.rows rows s) :
    (w.withRows rows).step s = (w.step s).withRows rows := by
  cases s with
  | move p =>
    have hside : (w.withRows rows).rows.sideOf p.y = w.rows.sideOf p.y := h
    simp only [step, moveTo]
    rw [hside, closeIfImplicit_withRows, withRows_ite]
    rfl
  | line p notes =>
    have hside : (w.withRows rows).rows.sideOf p.y = w.rows.sideOf p.y := h
    simp only [step, lineTo]
    rw [hside, catchUp_withRows, withRows_ite]
    rfl
  | curve c1 c2 p notes => exact h.elim
  | close => exact close_withRows

@[simp] theorem stepTrail_withRows (h : SameSides w.rows rows s) :
    (w.withRows rows).stepTrail s = w.stepTrail s := by
  cases s with
  | move p =>
    have hside : (w.withRows rows).rows.sideOf p.y = w.rows.sideOf p.y := h
    simp only [stepTrail]
    rw [hside]
    rfl
  | line p notes =>
    have hside : (w.withRows rows).rows.sideOf p.y = w.rows.sideOf p.y := h
    simp only [stepTrail]
    rw [hside]
    rfl
  | curve c1 c2 p notes => exact h.elim
  | close => rfl

theorem trailFrom_withRows {rest : List Segment} (h : ∀ s ∈ rest, SameSides w.rows rows s) :
    (w.withRows rows).trailFrom rest = w.trailFrom rest := by
  induction rest generalizing w with
  | nil => rfl
  | cons s rest ih =>
    have hs := h s List.mem_cons_self
    rw [trailFrom, trailFrom, stepTrail_withRows hs, step_withRows hs, ih]
    intro s' hs'
    rw [step_rows]
    exact h s' (List.mem_cons_of_mem _ hs')

end BandWalk

namespace Rect

/-- Stretching a rectangle to some points takes in the rows of the points and no others. -/
theorem expand_rows {points : List Point} {r r' : Rect}
    (h : points.foldl (fun r q => r.expand q.x q.y) r = r') :
    (r'.y1 ≤ r.y1 ∧ r.y2 ≤ r'.y2) ∧ (∀ q ∈ points, r'.y1 ≤ q.y ∧ q.y ≤ r'.y2) ∧
      (r'.y2 = r.y2 ∨ ∃ q ∈ points, r'.y2 = q.y) := by
  induction points generalizing r with
  | nil =>
    subst h
    exact ⟨⟨le_rfl, le_rfl⟩, fun _ hq => absurd hq List.not_mem_nil, .inl rfl⟩
  | cons p points ih =>
    obtain ⟨⟨hfirst, hlast⟩, hpoints, hattained⟩ := ih h
    simp only [expand] at hfirst hlast hattained
    refine ⟨⟨by omega, by omega⟩, fun q hq => ?_, ?_⟩
    · rcases List.mem_cons.mp hq with rfl | hq
      · exact ⟨hfirst.trans (min_le_right ..), (le_max_right ..).trans hlast⟩
      · exact hpoints q hq
    · rcases hattained with heq | ⟨q, hq, heq⟩
      · rcases le_total r.y2 p.y with hle | hle
        · exact .inr ⟨p, List.mem_cons_self, heq.trans (max_eq_right hle)⟩
        · exact .inl (heq.trans (max_eq_left hle))
      · exact .inr ⟨q, List.mem_cons_of_mem _ hq, heq⟩

end Rect

namespace Path

variable {path : Path} {y height : Int}

/-- The points that the segments of the path name. -/
def HasPoint (path : Path) (p : Point) : Prop := ∃ s ∈ path.segments, p ∈ s.points

@[simp]
theorem mem_points {p : Point} : p ∈ path.segments.toList.flatMap Segment.points ↔ path.HasPoint p := by
  simp only [List.mem_flatMap, HasPoint, Array.mem_toList_iff]

theorem DrawnFrom.sameSides {rows rows' : RowRange} {drawing : Bool} {segments : List Segment}
    (h : DrawnFrom drawing segments)
    (hpoints : ∀ s ∈ segments, ∀ p ∈ s.points, rows'.sideOf p.y = rows.sideOf p.y) :
    ∀ s ∈ segments, BandWalk.SameSides rows rows' s := by
  induction segments generalizing drawing with
  | nil => exact fun _ hs => absurd hs List.not_mem_nil
  | cons segment segments ih =>
    have hfirst := hpoints segment List.mem_cons_self
    have hrest := fun s hs => hpoints s (List.mem_cons_of_mem _ hs)
    cases segment with
    | move p => exact List.forall_mem_cons.mpr ⟨hfirst p List.mem_cons_self, ih h hrest⟩
    | line p notes => exact List.forall_mem_cons.mpr ⟨hfirst p List.mem_cons_self, ih h hrest⟩
    | curve c1 c2 p notes => exact h.elim
    | close => exact List.forall_mem_cons.mpr ⟨trivial, ih h.2 hrest⟩

/-- Rows that all points of a path of lines lie on the same sides of are as good as others. -/
theorem IsPolygonal.sentPath_eq {rows rows' : RowRange} {use : PathUse} (h : path.IsPolygonal)
    (hpoints : ∀ p, path.HasPoint p → rows'.sideOf p.y = rows.sideOf p.y) (origin : Point) :
    BandWalk.sentPath origin rows' use path = BandWalk.sentPath origin rows use path := by
  have htrail : BandWalk.trail origin rows' use path = BandWalk.trail origin rows use path :=
    BandWalk.trailFrom_withRows (w := .ofOrigin origin rows use) <|
      h.isDrawn.drawnFrom.sameSides fun s hs p hp => hpoints p ⟨s, Array.mem_toList_iff.mp hs, hp⟩
  rw [BandWalk.sentPath, BandWalk.sentPath, htrail]

theorem not_hasPoint_of_rowSpan (h : path.rowSpan = none) (p : Point) : ¬ path.HasPoint p := by
  rw [← mem_points]
  simp only [rowSpan, bounds] at h
  split at h
  · next hpoints => simp [hpoints]
  · cases h

/-- All points lie in the rows of the path or at their ends, and one ends in the last row. -/
theorem within_rowSpan (h : path.rowSpan = some (y, height)) :
    (∀ p, path.HasPoint p → y * 256 ≤ p.y ∧ p.y ≤ (y + height) * 256) ∧
      ∃ p, path.HasPoint p ∧ (y + height) * 256 < p.y + 256 := by
  simp only [rowSpan, bounds] at h
  split at h
  · cases h
  · next p rest hpoints =>
    have hmem : ∀ q, path.HasPoint q ↔ q = p ∨ q ∈ rest := by
      intro q
      rw [← mem_points, hpoints, List.mem_cons]
    obtain ⟨r, hr⟩ : ∃ r, rest.foldl (fun (r : Rect) q => r.expand q.x q.y) ⟨p.x, p.y, p.x, p.y⟩ = r :=
      ⟨_, rfl⟩
    obtain ⟨⟨hfirst, hlast⟩, hrest, hattained⟩ := Rect.expand_rows hr
    simp only [hr, Option.bind_eq_bind, Option.bind_some, Option.pure_def, Option.some.injEq,
      Prod.mk.injEq, Fixed.floor, Fixed.ceiling] at h hfirst hlast hattained
    obtain ⟨rfl, rfl⟩ := h
    have hrows : ∀ {v : Int}, r.y1 ≤ v → v ≤ r.y2 →
        r.y1 / 256 * 256 ≤ v ∧ v ≤ (r.y1 / 256 + ((r.y2 + 255) / 256 - r.y1 / 256)) * 256 := by
      omega
    have hlastRow : ∀ {v : Int}, r.y2 = v →
        (r.y1 / 256 + ((r.y2 + 255) / 256 - r.y1 / 256)) * 256 < v + 256 := by
      omega
    refine ⟨fun q hq => ?_, ?_⟩
    · have hin : r.y1 ≤ q.y ∧ q.y ≤ r.y2 := by
        rcases (hmem q).mp hq with rfl | hq
        · exact ⟨hfirst, hlast⟩
        · exact hrest q hq
      exact hrows hin.1 hin.2
    · rcases hattained with heq | ⟨q, hq, heq⟩
      · exact ⟨p, (hmem p).mpr (.inl rfl), hlastRow heq⟩
      · exact ⟨q, (hmem q).mpr (.inr hq), hlastRow heq⟩

end Path

namespace LineTrace

variable {s : Fixed} {above : Prop} {t : LineTrace}

/-- The pen and the start of its subpath lie on one side of the height, and no line crosses it. -/
structure Misses (s : Fixed) (above : Prop) (t : LineTrace) : Prop where
  point : t.point.y ≤ s ↔ above
  start : t.start.y ≤ s ↔ above
  lines : crossingsOf s t.lines = []

namespace Misses

theorem line (h : t.Misses s above) {p q : Point} (hp : p.y ≤ s ↔ above) (hq : q.y ≤ s ↔ above) :
    crossingsOf s (t.lines ++ [(p, q)]) = [] := by
  rw [crossingsOf_append, h.lines]
  simp [crossingsOf, crossing?, hp, hq]

theorem shut (h : t.Misses s above) : t.shut.Misses s above := by
  rw [LineTrace.shut]
  split
  · exact h
  · exact ⟨h.start, h.start, h.line h.point h.start⟩

theorem stepShut (h : t.Misses s above) {segment : Segment}
    (hs : ∀ p ∈ segment.points, p.y ≤ s ↔ above) : (t.stepShut segment).Misses s above := by
  cases segment with
  | move p =>
    have hp := hs p List.mem_cons_self
    exact ⟨hp, hp, h.shut.lines⟩
  | line p notes =>
    have hp := hs p List.mem_cons_self
    exact ⟨hp, h.start, h.line h.point hp⟩
  | curve c1 c2 p notes =>
    have hp := hs p (by simp [Segment.points])
    exact ⟨hp, h.start, h.lines⟩
  | close => exact ⟨h.start, h.start, h.line h.point h.start⟩

end Misses

end LineTrace

/-- A path of lines with all its points on one side of a height does not cross it. -/
theorem Path.crossings_eq_zero {path : Path} (hpath : path.IsPolygonal) {s : Fixed} {above : Prop}
    (hpoints : ∀ p, path.HasPoint p → (p.y ≤ s ↔ above)) : path.crossings s = 0 := by
  have hmisses : ∀ (rest : List Segment) {t : LineTrace}, t.Misses s above →
      (∀ segment ∈ rest, ∀ p ∈ segment.points, p.y ≤ s ↔ above) →
      (rest.foldl LineTrace.stepShut t).Misses s above := by
    intro rest
    induction rest with
    | nil => exact fun h _ => h
    | cons segment rest ih =>
      intro t h hrest
      exact ih (h.stepShut (hrest segment List.mem_cons_self))
        fun segment' hs => hrest segment' (List.mem_cons_of_mem _ hs)
  have hnone : crossingsOf s path.sides = [] := by
    rw [sides, sideTrace, ← Array.foldl_toList]
    have hbegins := hpath.isDrawn.head
    have hmem : ∀ segment ∈ path.segments.toList, ∀ p ∈ segment.points, p.y ≤ s ↔ above :=
      fun segment hs p hp => hpoints p ⟨segment, Array.mem_toList_iff.mp hs, hp⟩
    cases hsegments : path.segments.toList with
    | nil => rfl
    | cons segment rest =>
      rw [hsegments] at hbegins hmem
      obtain ⟨p, rfl⟩ := hbegins segment rfl
      have hp := hmem _ List.mem_cons_self p List.mem_cons_self
      exact (hmisses rest ⟨hp, hp, rfl⟩
        fun segment hs => hmem segment (List.mem_cons_of_mem _ hs)).shut.lines
  exact congrArg (fun l : List Crossing => (l : Multiset Crossing)) hnone

end BandedPage
