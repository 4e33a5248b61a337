import Mathlib
import BandedPage.Proofs.Replay.Paths

/-!
# Segment commands do what the path says

However lines are joined to commands, which form a curve takes and when marks are sent, the commands
lead a pen through the same script. What waits to be joined is part of the script but of no command
yet.
-/

namespace BandedPage

namespace WaitingLines

/-- What is waiting, as moves of the pen. -/
def script : WaitingLines → List MarkedMove
  | .none => []
  | .move dx dy => [⟨.move dx dy, 0⟩]
  | .one dx dy dx1 dy1 notes => [⟨.move dx dy, 0⟩, ⟨.line dx1 dy1, notes &&& 0x3f⟩]
  | .two dx dy dx1 dy1 dx2 dy2 notes =>
    [⟨.move dx dy, 0⟩, ⟨.line dx1 dy1, notes &&& 0x3f⟩, ⟨.line dx2 dy2, notes &&& 0x3f⟩]

def offsets : WaitingLines → List Fixed
  | .none => []
  | .move dx dy => [dx, dy]
  | .one dx dy dx1 dy1 _ => [dx, dy, dx1, dy1]
  | .two dx dy dx1 dy1 dx2 dy2 _ => [dx, dy, dx1, dy1, dx2, dy2]

end WaitingLines

namespace SegmentStream

@[simp] theorem curveForm_length (a b c d e f : Fixed) :
    (curveForm a b c d e f).2.length = (curveForm a b c d e f).1.arity := by
  fun_cases curveForm a b c d e f <;> rfl

theorem mem_curveForm (a b c d e f : Fixed) :
    ∀ v ∈ (curveForm a b c d e f).2, v ∈ [a, b, c, d, e, f] := by
  fun_cases curveForm a b c d e f <;> simp +contextual

@[simp] theorem turned_of_sameSign {a b : Int} (h : sameSign a b = true) :
    PenMove.turned a b = (a + b, b + a) := by
  rw [sameSign, beq_iff_eq] at h
  rw [PenMove.turned, h]
  simp

@[simp] theorem turned_of_not_sameSign {a b : Int} (h : ¬ sameSign a b = true) :
    PenMove.turned a b = (a - b, b - a) := by
  rw [sameSign, beq_iff_eq] at h
  rw [PenMove.turned, if_pos (bne_iff_ne.mpr h)]

/-- Every form of a curve means the same curve. -/
@[simp] theorem penMoves_curveForm (a b c d e f : Fixed) :
    (curveForm a b c d e f).1.penMoves (curveForm a b c d e f).2 =
      [.curve a b (a + c) (b + d) (a + c + e) (b + d + f)] := by
  fun_cases curveForm a b c d e f with
  | case1 h hsign hquarter =>
    simp only [Bool.and_eq_true, decide_eq_true_eq] at h hquarter
    obtain ⟨rfl, rfl⟩ := h
    obtain ⟨rfl, rfl⟩ := hquarter
    simp only [SegmentOp.penMoves, turned_of_sameSign hsign, zero_add, add_zero]
  | case2 h =>
    simp only [Bool.and_eq_true, decide_eq_true_eq] at h
    obtain ⟨rfl, rfl⟩ := h
    simp [SegmentOp.penMoves]
  | case3 h hsign hquarter =>
    simp only [Bool.and_eq_true, decide_eq_true_eq] at h hquarter
    obtain ⟨rfl, rfl⟩ := h
    obtain ⟨rfl, rfl⟩ := hquarter
    simp only [SegmentOp.penMoves, turned_of_not_sameSign hsign, zero_add, add_zero, sub_eq_add_neg]
  | case4 h =>
    simp only [Bool.and_eq_true, decide_eq_true_eq] at h
    obtain ⟨rfl, rfl⟩ := h
    simp [SegmentOp.penMoves]
  | case5 _ h hsign hquarter =>
    simp only [Bool.and_eq_true, decide_eq_true_eq] at h hquarter
    obtain ⟨rfl, rfl⟩ := h
    obtain ⟨rfl, rfl⟩ := hquarter
    simp only [SegmentOp.penMoves, turned_of_sameSign hsign, zero_add, add_zero]
  | case6 _ h =>
    simp only [Bool.and_eq_true, decide_eq_true_eq] at h
    obtain ⟨rfl, rfl⟩ := h
    simp [SegmentOp.penMoves]
  | case7 _ h hsign hquarter =>
    simp only [Bool.and_eq_true, decide_eq_true_eq] at h hquarter
    obtain ⟨rfl, rfl⟩ := h
    obtain ⟨rfl, rfl⟩ := hquarter
    simp only [SegmentOp.penMoves, turned_of_not_sameSign hsign, zero_add, add_zero, sub_eq_add_neg]
  | case8 _ h =>
    simp only [Bool.and_eq_true, decide_eq_true_eq] at h
    obtain ⟨rfl, rfl⟩ := h
    simp [SegmentOp.penMoves]
  | case9 _ _ h =>
    simp only [Bool.and_eq_true, decide_eq_true_eq] at h
    obtain ⟨rfl, rfl⟩ := h
    simp [SegmentOp.penMoves]
  | case10 _ _ _ h =>
    simp only [Bool.and_eq_true, decide_eq_true_eq] at h
    obtain ⟨rfl, rfl⟩ := h
    simp [SegmentOp.penMoves]
  | case11 => rfl

/-- The commands lead a pen through the script. The pen is only begun by the first segment, so
before that it is compared with one that was begun. -/
def Leads (s : SegmentStream) (script : List MarkedMove) : Prop :=
  ∀ (box : Rect) (r : ReplayState) (pen : Pen), r.pen.notes = 0 →
    (r.pen.startAt r.corner).performScript script = .ok pen →
    ∃ pen', ReplaysAll box s.commands.toList r [] { r with pen := pen' } ∧
      pen'.startAt r.corner = { pen with notes := s.notes &&& 0x3f } ∧
      (pen'.drawing = true ∨ script = [])

namespace Leads

variable {s : SegmentStream} {script : List MarkedMove}

theorem start : ({} : SegmentStream).Leads [] := by
  intro box r pen hnotes hpen
  rw [Pen.performScript_nil, Except.ok.injEq] at hpen
  subst hpen
  refine ⟨r.pen, .nil r, ?_, .inr rfl⟩
  have hzero : ({} : SegmentStream).notes &&& 0x3f = r.pen.notes := hnotes.symm
  rw [hzero]
  exact Pen.startAt_withNotes r.pen r.corner r.pen.notes

theorem mark (h : s.Leads script) (notes : SegmentNotes) : (s.mark notes).Leads script := by
  rw [SegmentStream.mark]
  split
  · exact h
  · intro box r pen hnotes hpen
    obtain ⟨pen', hreplays, hstart, hbegun⟩ := h box r pen hnotes hpen
    refine ⟨{ pen' with notes := notes &&& 0x3f }, ?_, ?_, hbegun⟩
    · have := hreplays.append (.single (replays_notes notes))
      simpa [push] using this
    · simp [hstart]

@[simp]
theorem mark_notes (s : SegmentStream) (notes : SegmentNotes) : (s.mark notes).notes = notes := by
  rw [SegmentStream.mark]
  split
  · next heq => exact heq.symm
  · rfl

/-- One more segment, all of whose moves carry the marks set last. -/
theorem segment (h : s.Leads script) {op : SegmentOp} {offsets : List Fixed}
    (hlength : offsets.length = op.arity) (hfits : ∀ d ∈ offsets, Word.fits32 d = true)
    {moves : List MarkedMove} (hmoves : moves.map MarkedMove.move = op.penMoves offsets)
    (hcarries : ∀ m ∈ moves, m.Carries (s.notes &&& 0x3f)) :
    (s.push (Command.segment op offsets)).Leads (script ++ moves) := by
  intro box r pen hnotes hpen
  obtain ⟨pen₁, hpen₁, hlast⟩ := Pen.performScript_append_ok.mp hpen
  obtain ⟨pen', hreplays, hstart, -⟩ := h box r pen₁ hnotes hpen₁
  have hall := Pen.performAll_of_script hcarries hlast
  rw [hmoves, ← hstart] at hall
  have hdrawing : pen.drawing = true := by
    rw [Pen.performScript_drawing hpen]
    exact Pen.drawing_startAt r.pen r.corner
  refine ⟨{ pen with notes := s.notes &&& 0x3f }, ?_, ?_, .inl hdrawing⟩
  · have hlast : Replays box (Command.segment op offsets) { r with pen := pen' } [] _ :=
      replays_segment hlength hfits hall
    simpa [push] using hreplays.append (.single hlast)
  · rw [Pen.startAt_withNotes, Pen.startAt_drawing hdrawing]
    rfl

theorem add (h : s.Leads script) {op : SegmentOp} {offsets : List Fixed}
    (hlength : offsets.length = op.arity) (hfits : ∀ d ∈ offsets, Word.fits32 d = true)
    {notes : SegmentNotes} {moves : List MarkedMove}
    (hmoves : moves.map MarkedMove.move = op.penMoves offsets)
    (hcarries : ∀ m ∈ moves, m.Carries (notes &&& 0x3f)) :
    (s.add op offsets notes).Leads (script ++ moves) :=
  (h.mark notes).segment hlength hfits hmoves (by rwa [mark_notes])

end Leads

/-- The commands and what is waiting lead a pen through the script. -/
structure Sends (s : SegmentStream) (script : List MarkedMove) : Prop where
  exists_sent : ∃ sent, script = sent ++ s.waiting.script ∧ s.Leads sent
  fits : ∀ d ∈ s.waiting.offsets, Word.fits32 d = true

theorem Leads.sends {s : SegmentStream} {script : List MarkedMove} (h : s.Leads script)
    (hwaiting : s.waiting = .none) : s.Sends script where
  exists_sent := ⟨script, by rw [hwaiting]; exact (List.append_nil script).symm, h⟩
  fits := by
    rw [hwaiting]
    exact fun d hd => absurd hd List.not_mem_nil

@[simp] theorem add_waiting (s : SegmentStream) (op : SegmentOp) (offsets : List Fixed)
    (notes : SegmentNotes) : (s.add op offsets notes).waiting = s.waiting := by
  show (s.mark notes).waiting = s.waiting
  rw [mark]
  split <;> rfl

@[simp] theorem flush_waiting (s : SegmentStream) : s.flush.waiting = .none := by
  rw [flush]
  split
  · rfl
  · rfl
  · exact add_waiting ..
  · exact add_waiting ..

namespace Sends

variable {s : SegmentStream} {script : List MarkedMove}

theorem start : ({} : SegmentStream).Sends [] := Leads.start.sends rfl

/-- Afterwards nothing is waiting. -/
theorem flush (h : s.Sends script) : s.flush.Leads script := by
  obtain ⟨⟨sent, rfl, hsent⟩, hfits⟩ := h
  have hrest : ({ s with waiting := .none } : SegmentStream).Leads sent := hsent
  rw [SegmentStream.flush]
  cases hwaiting : s.waiting with
  | none =>
    rw [WaitingLines.script, List.append_nil]
    exact hrest
  | move dx dy =>
    rw [hwaiting] at hfits
    refine Leads.segment hrest ?_ hfits ?_ ?_
    · rfl
    · rfl
    · simp [WaitingLines.script, MarkedMove.Carries, PenMove.draws]
  | one dx dy dx1 dy1 notes =>
    rw [hwaiting] at hfits
    refine Leads.add hrest ?_ hfits ?_ ?_
    · rfl
    · rfl
    · simp [WaitingLines.script, MarkedMove.Carries, PenMove.draws]
  | two dx dy dx1 dy1 dx2 dy2 notes =>
    rw [hwaiting] at hfits
    refine Leads.add hrest ?_ hfits ?_ ?_
    · rfl
    · rfl
    · simp [WaitingLines.script, MarkedMove.Carries, PenMove.draws]

theorem flush_sends (h : s.Sends script) : s.flush.Sends script :=
  h.flush.sends (flush_waiting s)

theorem move (h : s.Sends script) {dx dy : Fixed} (hx : Word.fits32 dx = true)
    (hy : Word.fits32 dy = true) : (s.move dx dy).Sends (script ++ [⟨.move dx dy, 0⟩]) where
  exists_sent := ⟨script, rfl, h.flush⟩
  fits d hd := by
    rcases List.mem_pair.mp hd with rfl | rfl
    · exact hx
    · exact hy

theorem addAfterFlush (h : s.Sends script) {op : SegmentOp} {offsets : List Fixed}
    (hlength : offsets.length = op.arity) (hfits : ∀ d ∈ offsets, Word.fits32 d = true)
    {notes : SegmentNotes} {move : PenMove} (hmoves : [move] = op.penMoves offsets) :
    (s.flush.add op offsets notes).Sends (script ++ [⟨move, notes &&& 0x3f⟩]) := by
  have hmoves' : [(⟨move, notes &&& 0x3f⟩ : MarkedMove)].map MarkedMove.move =
      op.penMoves offsets := hmoves
  have hcarries : ∀ m ∈ [(⟨move, notes &&& 0x3f⟩ : MarkedMove)], m.Carries (notes &&& 0x3f) := by
    simp [MarkedMove.Carries]
  have hleads := h.flush.add hlength hfits hmoves' hcarries
  exact hleads.sends ((add_waiting ..).trans (flush_waiting s))

theorem lineAlone (h : s.Sends script) {dx dy : Fixed} (hx : Word.fits32 dx = true)
    (hy : Word.fits32 dy = true) (notes : SegmentNotes) :
    (s.lineAlone dx dy notes).Sends (script ++ [⟨.line dx dy, notes &&& 0x3f⟩]) := by
  rw [SegmentStream.lineAlone]
  by_cases hdx : dx = 0
  · rw [if_pos hdx, hdx]
    exact h.addAfterFlush rfl (by simpa using hy) rfl
  rw [if_neg hdx]
  by_cases hdy : dy = 0
  · rw [if_pos hdy, hdy]
    exact h.addAfterFlush rfl (by simpa using hx) rfl
  · rw [if_neg hdy]
    exact h.addAfterFlush rfl (by simpa using ⟨hx, hy⟩) rfl

theorem line (h : s.Sends script) {dx dy : Fixed} (hx : Word.fits32 dx = true)
    (hy : Word.fits32 dy = true) (notes : SegmentNotes) :
    (s.line dx dy notes).Sends (script ++ [⟨.line dx dy, notes &&& 0x3f⟩]) := by
  have halone := h.lineAlone hx hy notes
  obtain ⟨⟨sent, heq, hsent⟩, hfits⟩ := h
  have hrest : ∀ waiting, ({ s with waiting } : SegmentStream).Leads sent := fun _ => hsent
  simp only [SegmentStream.line]
  cases hwaiting : s.waiting with
  | none => exact halone
  | move mx my =>
    rw [hwaiting] at heq hfits
    dsimp only
    split
    · refine ⟨⟨sent, ?_, hrest _⟩, ?_⟩
      · rw [heq, List.append_assoc]
        rfl
      · simp only [WaitingLines.offsets, List.mem_cons, List.not_mem_nil, or_false, forall_eq_or_imp,
          forall_eq] at hfits ⊢
        exact ⟨hfits.1, hfits.2, hx, hy⟩
    · exact halone
  | one mx my dx1 dy1 n =>
    rw [hwaiting] at heq hfits
    dsimp only
    split
    · next hjoin =>
      simp only [Bool.and_eq_true, decide_eq_true_eq] at hjoin
      obtain ⟨⟨rfl, -⟩, -⟩ := hjoin
      refine ⟨⟨sent, ?_, hrest _⟩, ?_⟩
      · rw [heq, List.append_assoc]
        rfl
      · simp only [WaitingLines.offsets, List.mem_cons, List.not_mem_nil, or_false, forall_eq_or_imp,
          forall_eq] at hfits ⊢
        obtain ⟨hmx, hmy, hx1, hy1⟩ := hfits
        exact ⟨hmx, hmy, hx1, hy1, hx, hy⟩
    · exact halone
  | two mx my dx1 dy1 dx2 dy2 n =>
    rw [hwaiting] at heq hfits
    dsimp only
    split
    · next hjoin =>
      simp only [Bool.and_eq_true, decide_eq_true_eq] at hjoin
      obtain ⟨⟨rfl, rfl⟩, rfl⟩ := hjoin
      rw [heq, List.append_assoc]
      refine ((hrest .none).add rfl hfits rfl ?_).sends (add_waiting ..)
      simp [WaitingLines.script, MarkedMove.Carries, PenMove.draws]
    · exact halone

theorem curve (h : s.Sends script) {p c1 c2 stop : Point}
    (hfits : ∀ d ∈ [c1.x - p.x, c1.y - p.y, c2.x - c1.x, c2.y - c1.y, stop.x - c2.x, stop.y - c2.y],
      Word.fits32 d = true) (notes : SegmentNotes) :
    (s.curve p c1 c2 stop notes).Sends (script ++
      [⟨.curve (c1.x - p.x) (c1.y - p.y) (c2.x - p.x) (c2.y - p.y) (stop.x - p.x) (stop.y - p.y),
        notes &&& 0x3f⟩]) := by
  refine h.addAfterFlush (curveForm_length ..) (fun d hd => hfits d (mem_curveForm _ _ _ _ _ _ d hd)) ?_
  rw [penMoves_curveForm]
  have hjoin : ∀ a b c : Int, b - a + (c - b) = c - a := by
    intro a b c
    omega
  rw [hjoin, hjoin, hjoin, hjoin]

theorem close (h : s.Sends script) : s.close.Sends (script ++ [⟨.close, 0⟩]) := by
  have hcarries : ∀ m ∈ [(⟨.close, 0⟩ : MarkedMove)], m.Carries (s.flush.notes &&& 0x3f) := by
    simp [MarkedMove.Carries, PenMove.draws]
  have hfits : ∀ d ∈ ([] : List Fixed), Word.fits32 d = true := fun d hd => absurd hd List.not_mem_nil
  have hleads := h.flush.segment (show ([] : List Fixed).length = SegmentOp.close.arity from rfl)
    hfits rfl hcarries
  exact hleads.sends (flush_waiting s)

end Sends

end SegmentStream

end BandedPage
