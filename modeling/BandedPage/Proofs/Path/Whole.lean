import Mathlib
import BandedPage.Proofs.Path.Rows

/-!
# Paths that are sent whole

Where all points of a path lie in the rows, its walk leaves nothing out. The trail of a stroke is the
path itself, and a pen that goes along it draws the path again, wherever it was before. The trail of a
fill has no closes.
-/

namespace BandedPage

namespace Segment

/-- The marks of what the segment draws. -/
def notes : Segment → SegmentNotes
  | line _ notes | curve _ _ _ notes => notes
  | move _ | close => 0

def draws : Segment → Bool
  | line .. | curve .. => true
  | move _ | close => false

/-- The second may come right after the first in a path: a move takes the place of another, and only
what was drawn is closed. -/
def Precedes (s : Segment) : Segment → Prop
  | move _ => ∀ p, s ≠ .move p
  | line .. | curve .. => True
  | close => s.draws = true

end Segment

namespace Path

variable {path : Path}

/-- Each segment may come right after the one before it. -/
def IsOrdered (path : Path) : Prop := path.segments.toList.IsChain Segment.Precedes

namespace IsOrdered

/-- One more segment. -/
theorem push (h : path.IsOrdered) {s : Segment}
    (hs : ∀ last, path.segments.back? = some last → last.Precedes s) (start current : Option Point) :
    IsOrdered { segments := path.segments.push s, start, current } := by
  rw [IsOrdered, Array.toList_push, List.isChain_append]
  refine ⟨h, .singleton s, fun last hlast s' hs' => ?_⟩
  obtain rfl := Option.some.inj hs'
  exact hs last (by rwa [← Array.getLast?_toList])

theorem moveTo (h : path.IsOrdered) (p : Point) : (path.moveTo p).IsOrdered := by
  simp only [Path.moveTo]
  split
  · next q hback =>
    obtain ⟨before, hpath⟩ := Array.back?_eq_some_iff.mp hback
    rw [IsOrdered, hpath, Array.toList_push, List.isChain_append] at h
    obtain ⟨hbefore, -, hmove⟩ := h
    -- A move may follow whatever the one that it replaces did.
    rw [IsOrdered, hpath, Array.pop_push, Array.toList_push, List.isChain_append]
    refine ⟨hbefore, .singleton _, fun last hlast s' hs' => ?_⟩
    obtain rfl := Option.some.inj hs'
    exact hmove last hlast (.move q) rfl
  · next hnone =>
    refine h.push (s := .move p) (fun last hlast q heq => hnone q ?_) _ _
    rw [hlast, heq]

theorem ensureCurrent (h : path.IsOrdered) : path.ensureCurrent.IsOrdered := by
  rw [Path.ensureCurrent]
  split
  · exact h
  · exact h.moveTo {}

theorem closeSubpath (h : path.IsOrdered) : path.closeSubpath.IsOrdered := by
  rw [Path.closeSubpath]
  split
  · exact h
  · exact h
  · exact h
  · next hclose hmove =>
    refine h.push (fun last hlast => ?_) _ _
    cases last with
    | move p => exact absurd hlast (hmove p)
    | line p notes => rfl
    | curve c1 c2 p notes => rfl
    | close => exact absurd hlast hclose

end IsOrdered

theorem IsBuilt.isOrdered (h : path.IsBuilt) : path.IsOrdered := by
  induction h with
  | empty => exact .nil
  | moveTo _ p ih => exact ih.moveTo p
  | lineTo _ p notes ih => exact ih.ensureCurrent.push (s := .line p notes) (fun _ _ => trivial) _ _
  | curveTo _ c1 c2 p notes ih =>
    exact ih.ensureCurrent.push (s := .curve c1 c2 p notes) (fun _ _ => trivial) _ _
  | closeSubpath _ ih => exact ih.closeSubpath

theorem IsBuilt.rectangle (h : path.IsBuilt) (x0 y0 x1 y1 : Fixed) :
    (path.rectangle x0 y0 x1 y1).IsBuilt :=
  ((((h.moveTo _).lineTo _ _).lineTo _ _).lineTo _ _).closeSubpath

end Path

namespace PathUse

/-- What is sent of a segment in the rows. -/
def sent (use : PathUse) : Segment → List Segment
  | .move p => [.move p]
  | .line p notes => [.line p (notes &&& use.notesMask)]
  | .curve c1 c2 p notes => [.curve c1 c2 p (notes &&& use.notesMask)]
  | .close => if use.closesImplicitly then [] else [.close]

/-- Of a stroke everything is sent. -/
@[simp] theorem sent_stroke (s : Segment) : stroke.sent s = [s] := by
  have hmask : ∀ notes : SegmentNotes, notes &&& stroke.notesMask = notes := fun _ =>
    UInt8.and_neg_one
  cases s with
  | move | close => rfl
  | line | curve => simp only [sent, hmask]

/-- What is sent of a fill has no marks. -/
theorem notes_of_mem_sent_fill {s s' : Segment} (h : s' ∈ fill.sent s) : s'.notes = 0 := by
  cases s with
  | move p =>
    obtain rfl := List.mem_singleton.mp h
    rfl
  | line p notes =>
    obtain rfl := List.mem_singleton.mp h
    exact UInt8.and_zero
  | curve c1 c2 p notes =>
    obtain rfl := List.mem_singleton.mp h
    exact UInt8.and_zero
  | close => cases h

/-- Without its closes a path is still one: a close follows what was drawn, so whatever follows the close
may follow that. -/
theorem isChain_sent_fill {last last' : Segment} {segments : List Segment}
    (h : (last :: segments).IsChain Segment.Precedes)
    (hlast : ∀ s, s ≠ .close → last.Precedes s → last'.Precedes s) :
    (last' :: segments.flatMap fill.sent).IsChain Segment.Precedes := by
  induction segments generalizing last last' with
  | nil => exact .singleton _
  | cons s rest ih =>
    obtain ⟨hnext, hrest⟩ := List.isChain_cons_cons.mp h
    rw [List.flatMap_cons]
    cases s with
    | move p => exact .cons_cons (hlast _ (by simp) hnext) (ih hrest fun _ _ h => h)
    | line p notes =>
      refine .cons_cons trivial (ih hrest fun s' hs' h => ?_)
      cases s' with
      | move q => exact fun _ heq => by cases heq
      | line | curve => trivial
      | close => exact absurd rfl hs'
    | curve c1 c2 p notes =>
      refine .cons_cons trivial (ih hrest fun s' hs' h => ?_)
      cases s' with
      | move q => exact fun _ heq => by cases heq
      | line | curve => trivial
      | close => exact absurd rfl hs'
    | close =>
      refine ih hrest fun s' hs' h => ?_
      have hdrawn : last.Precedes (.move {}) := fun p heq => by
        rw [heq] at hnext
        cases hnext
      cases s' with
      | move q => exact hlast (.move q) (by simp) hdrawn
      | line | curve => trivial
      | close => exact absurd rfl hs'

end PathUse

namespace BandWalk

variable {w : BandWalk}

/-- The walk has not left the rows. -/
structure Inside (w : BandWalk) : Prop where
  side : w.side = .within
  startSide : w.startSide = .within

namespace Inside

@[simp] theorem not_isBehind (h : w.Inside) : w.isBehind = false := by
  simp [BandWalk.isBehind, h.side]

theorem catchUp (h : w.Inside) : w.catchUpTrail = [] ∧ w.catchUp = w := by
  simp [BandWalk.catchUpTrail, BandWalk.catchUp, h.not_isBehind]

theorem returnToStart (h : w.Inside) : w.returnTrail = [] ∧ w.returnToStart = w := by
  simp [BandWalk.returnTrail, BandWalk.returnToStart, h.side, h.startSide]

theorem close (h : w.Inside) : w.close.Inside ∧ w.close.rows = w.rows ∧ w.close.use = w.use := by
  rw [BandWalk.close, h.returnToStart.2]
  split <;> exact ⟨⟨h.side, h.startSide⟩, rfl, rfl⟩

theorem closeIfImplicit (h : w.Inside) : w.implicitTrail = [] ∧ w.closeIfImplicit.Inside ∧
    w.closeIfImplicit.rows = w.rows ∧ w.closeIfImplicit.use = w.use := by
  rw [BandWalk.implicitTrail, BandWalk.closeIfImplicit]
  split
  · next hcloses =>
    rw [Bool.and_eq_true] at hcloses
    refine ⟨?_, h.close⟩
    rw [closeTrail, h.returnToStart.1, hcloses.2]
    rfl
  · exact ⟨rfl, h, rfl, rfl⟩

/-- A segment in the rows is sent. -/
theorem step (h : w.Inside) {s : Segment} (hs : ∀ p ∈ s.points, w.rows.sideOf p.y = .within)
    (hclose : s = .close → w.progress = .drawn) :
    w.stepTrail s = w.use.sent s ∧ (w.step s).Inside ∧
      ((w.step s).rows = w.rows ∧ (w.step s).use = w.use) ∧
      (s.draws = true → (w.step s).progress = .drawn) := by
  have hstays : (decide (BandSide.within = w.side) && decide (BandSide.within ≠ .within)) = false :=
    Bool.and_false _
  cases s with
  | move p =>
    have hp := hs p List.mem_cons_self
    obtain ⟨htrail, -, hkept⟩ := h.closeIfImplicit
    simp only [stepTrail, BandWalk.step, BandWalk.moveTo, htrail, hp]
    exact ⟨rfl, ⟨rfl, rfl⟩, hkept, fun hdraws => by cases hdraws⟩
  | line p notes =>
    have hp := hs p List.mem_cons_self
    simp only [stepTrail, BandWalk.step, BandWalk.lineTo, hp, hstays, h.catchUp.1, h.catchUp.2]
    exact ⟨rfl, ⟨rfl, h.startSide⟩, ⟨rfl, rfl⟩, fun _ => rfl⟩
  | curve c1 c2 p notes =>
    have hc1 := hs c1 (by simp [Segment.points])
    have hside : w.rows.curveSide [c1.y, c2.y, p.y] = .within := by
      simp only [RowRange.sideOf] at hc1
      simp only [RowRange.curveSide, List.all_cons, List.all_nil]
      grind
    have hp := hs p (by simp [Segment.points])
    simp only [stepTrail, BandWalk.step, BandWalk.curveTo, hside, hp, hstays, h.catchUp.1,
      h.catchUp.2]
    exact ⟨rfl, ⟨rfl, h.startSide⟩, ⟨rfl, rfl⟩, fun _ => rfl⟩
  | close =>
    have htrail : w.closeTrail = w.use.sent .close := by
      rw [closeTrail, h.returnToStart.1, hclose rfl]
      simp [PathUse.sent]
    exact ⟨htrail, h.close.1, h.close.2, fun hdraws => by cases hdraws⟩

/-- The rest of a path in the rows is sent. -/
theorem trailFrom {segments : List Segment} (h : w.Inside)
    (hrows : ∀ s ∈ segments, ∀ p ∈ s.points, w.rows.sideOf p.y = .within)
    (hordered : segments.IsChain Segment.Precedes)
    (hfirst : ∀ s ∈ segments.head?, s = .close → w.progress = .drawn) :
    w.trailFrom segments = segments.flatMap w.use.sent := by
  induction segments generalizing w with
  | nil => exact h.closeIfImplicit.1
  | cons s rest ih =>
    obtain ⟨hsent, hinside, ⟨hsame, huse⟩, hdrawn⟩ :=
      h.step (hrows s List.mem_cons_self) (hfirst s rfl)
    rw [BandWalk.trailFrom, hsent, List.flatMap_cons, ← huse]
    congr 1
    refine ih hinside (fun s' hs' => ?_) hordered.tail fun s' hs' heq => ?_
    · rw [hsame]
      exact hrows s' (List.mem_cons_of_mem s hs')
    · obtain ⟨rest', rfl⟩ := List.head?_eq_some_iff.mp hs'
      refine hdrawn ?_
      rw [heq] at hordered
      exact hordered.rel

end Inside

/-- Of a path in the rows everything is sent that its use needs. -/
theorem trail_of_rows {path : Path} (hpath : path.IsBuilt) {rows : RowRange}
    (hrows : ∀ p, path.HasPoint p → rows.sideOf p.y = .within) (origin : Point) (use : PathUse) :
    trail origin rows use path = path.segments.toList.flatMap use.sent := by
  have hinside : (ofOrigin origin rows use).Inside := ⟨rfl, rfl⟩
  refine hinside.trailFrom (fun s hs p hp => hrows p ⟨s, Array.mem_toList_iff.mp hs, hp⟩)
    hpath.isOrdered fun s hs heq => ?_
  obtain ⟨p, hmove⟩ := hpath.begins.head s hs
  rw [heq] at hmove
  cases hmove

end BandWalk

namespace Pen

variable {pen : Pen}

/-- A subpath was begun. -/
structure HasBegun (pen : Pen) : Prop where
  current : pen.path.current.isSome = true
  start : pen.path.start.isSome = true

/-- The pen draws a segment that may come next. -/
theorem follow_segments {s : Segment} (hbegun : (∃ p, s = .move p) ∨ pen.HasBegun)
    (hs : ∀ last, pen.path.segments.back? = some last → last.Precedes s)
    (hne : s = .close → pen.path.segments ≠ #[]) (hnotes : s.notes &&& 0x3f = s.notes) :
    (pen.follow s).path.segments = pen.path.segments.push s ∧ (pen.follow s).HasBegun := by
  cases s with
  | move p =>
    refine ⟨?_, ⟨rfl, rfl⟩⟩
    simp only [Pen.follow, Path.moveTo]
    split
    · next q hback => exact absurd rfl (hs (.move q) hback q)
    · rfl
  | line p notes =>
    obtain ⟨hcurrent, hstart⟩ := hbegun.resolve_left (by simp)
    obtain ⟨c, hc⟩ := Option.isSome_iff_exists.mp hcurrent
    simp only [Pen.follow, Pen.ensureSubpath, Path.lineTo, Path.ensureCurrent, hc]
    exact ⟨congrArg (fun marks => pen.path.segments.push (.line p marks)) hnotes, rfl, hstart⟩
  | curve c1 c2 p notes =>
    obtain ⟨hcurrent, hstart⟩ := hbegun.resolve_left (by simp)
    obtain ⟨c, hc⟩ := Option.isSome_iff_exists.mp hcurrent
    simp only [Pen.follow, Pen.ensureSubpath, Path.curveTo, Path.ensureCurrent, hc]
    exact ⟨congrArg (fun marks => pen.path.segments.push (.curve c1 c2 p marks)) hnotes, rfl, hstart⟩
  | close =>
    obtain ⟨hcurrent, hstart⟩ := hbegun.resolve_left (by simp)
    simp only [Pen.follow, Path.closeSubpath]
    split
    · next hback => exact absurd (Array.back?_eq_none_iff.mp hback) (hne rfl)
    · next hback => cases hs .close hback
    · next q hback => cases hs (.move q) hback
    · exact ⟨rfl, hstart, hstart⟩

/-- The pen draws what may come next, segment by segment. -/
theorem followAll_segments {trail : List Segment}
    (hbegun : (∀ s ∈ trail.head?, ∃ p, s = .move p) ∨ pen.HasBegun ∧ pen.path.segments ≠ #[])
    (hordered : (pen.path.segments.toList ++ trail).IsChain Segment.Precedes)
    (hnotes : ∀ s ∈ trail, s.notes &&& 0x3f = s.notes) :
    (pen.followAll trail).path.segments.toList = pen.path.segments.toList ++ trail := by
  induction trail generalizing pen with
  | nil => exact (List.append_nil _).symm
  | cons s trail ih =>
    have hnext : ∀ last, pen.path.segments.back? = some last → last.Precedes s := by
      intro last hlast
      rw [← Array.getLast?_toList] at hlast
      exact (List.isChain_append.mp hordered).2.2 last hlast s rfl
    have hclose : s = .close → pen.path.segments ≠ #[] := by
      rintro rfl
      rcases hbegun with hmove | ⟨-, hne⟩
      · obtain ⟨p, hp⟩ := hmove .close rfl
        cases hp
      · exact hne
    have hhead : (∃ p, s = .move p) ∨ pen.HasBegun :=
      hbegun.imp (fun hmove => hmove s rfl) And.left
    obtain ⟨hsegments, hbegun'⟩ :=
      follow_segments hhead hnext hclose (hnotes s List.mem_cons_self)
    have hsplit : (pen.follow s).path.segments.toList ++ trail =
        pen.path.segments.toList ++ s :: trail := by
      rw [hsegments, Array.toList_push, List.append_assoc, List.singleton_append]
    have hsome : (pen.follow s).path.segments ≠ #[] := by
      rw [hsegments]
      simp
    have hrest := ih (.inr ⟨hbegun', hsome⟩) (hsplit ▸ hordered)
      fun s' hs' => hnotes s' (List.mem_cons_of_mem s hs')
    exact hrest.trans hsplit

end Pen

/-- A path to stroke that lies in the rows is given to a target as it is, wherever the reader's pen was
before. -/
theorem BandWalk.sentPath_segments {path : Path} (hpath : path.IsBuilt)
    (hnotes : ∀ s ∈ path.segments, s.notes < 64) {rows : RowRange}
    (hrows : ∀ p, path.HasPoint p → rows.sideOf p.y = .within) (origin : Point) :
    (sentPath origin rows .stroke path).segments = path.segments := by
  have hmask : ∀ notes : SegmentNotes, notes < 64 → notes &&& 0x3f = notes := by
    decide +kernel
  apply Array.toList_inj.mp
  rw [sentPath, trail_of_rows hpath hrows, funext PathUse.sent_stroke, List.flatMap_singleton']
  exact Pen.followAll_segments (.inl hpath.begins.head) hpath.isOrdered
    fun s hs => hmask s.notes (hnotes s (Array.mem_toList_iff.mp hs))

/-- A path to fill that lies in the rows is given to a target without its closes and marks. So what is
drawn after a close goes on from the last point, not from the start of the subpath. -/
theorem BandWalk.sentPath_fill_segments {path : Path} (hpath : path.IsBuilt) {rows : RowRange}
    (hrows : ∀ p, path.HasPoint p → rows.sideOf p.y = .within) (origin : Point) :
    (sentPath origin rows .fill path).segments.toList =
      path.segments.toList.flatMap PathUse.fill.sent := by
  have hordered : path.segments.toList.IsChain Segment.Precedes := hpath.isOrdered
  have hbegins : ∀ s ∈ path.segments.toList.head?, ∃ p, s = .move p := hpath.begins.head
  rw [sentPath, trail_of_rows hpath hrows]
  generalize path.segments.toList = segments at hordered hbegins
  cases segments with
  | nil => rfl
  | cons s rest =>
    obtain ⟨p, rfl⟩ := hbegins s rfl
    refine Pen.followAll_segments (.inl fun s hs => ?_) ?_ fun s hs => ?_
    · exact ⟨p, (Option.some.inj hs).symm⟩
    · exact PathUse.isChain_sent_fill hordered fun _ _ h => h
    · obtain ⟨s', -, hs'⟩ := List.mem_flatMap.mp hs
      rw [PathUse.notes_of_mem_sent_fill hs']
      rfl

/-- A line after a close is drawn from the third point. -/
example : (BandWalk.sentPath {} ⟨0, 16384⟩ .fill
    ((((({} : Path).moveTo ⟨2560, 2560⟩).lineTo ⟨5120, 2560⟩ 0).lineTo ⟨5120, 5120⟩ 0).closeSubpath.lineTo
      ⟨2560, 5120⟩ 0)).segments.toList =
    [.move ⟨2560, 2560⟩, .line ⟨5120, 2560⟩ 0, .line ⟨5120, 5120⟩ 0, .line ⟨2560, 5120⟩ 0] := by
  decide +kernel

end BandedPage
