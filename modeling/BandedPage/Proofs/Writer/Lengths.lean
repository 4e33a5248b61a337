import Mathlib
import BandedPage.Config
import BandedPage.Proofs.Operand.Color
import BandedPage.Proofs.Word
import BandedPage.Writer.Draft

/-!
# The lengths of commands

Every valid configuration has room for the commands that set up a band and draw rectangles, so they
are never refused for their length.
-/

namespace BandedPage

namespace Command

@[simp] theorem length_lopSwitch (on : Bool) : (lopSwitch on).length = 1 := rfl

theorem length_lop_le (op : LogicalOp) : (lop op).length ≤ 7 := by
  have hhigh : (op >>> 6).toNat < 4294967296 := (op >>> 6).toNat_lt
  have := Varint.length_encode_le_five hhigh
  simp only [lop, List.length_cons]
  omega

theorem length_color_le {depth : Nat} (hdepth : depth ∈ Config.depths) (slot : ColorSlot)
    (color last : Color) : (Command.color slot color last depth).length ≤ 5 := by
  have hbytes : ColorCommand.bytesAt depth ≤ 4 := by
    revert depth
    decide
  simp only [Command.color, ColorCommand.encode]
  split
  · simp
  split
  · simp
  split
  · split
    · simp
    · split
      · simp
      · simp
        omega
  · split
    · simp
      omega
    · split <;> simp

theorem length_rect_le (base : UInt8) (rect last : SizedRect) :
    (RectCommand.encode base rect last).length ≤ 21 := by
  have hx := Varint.length_encodeInt_le rect.x
  have hy := Varint.length_encodeInt_le rect.y
  have hw := Varint.length_encodeInt_le rect.width
  have hh := Varint.length_encodeInt_le rect.height
  simp only [RectCommand.encode]
  split
  · simp
  split
  · simp
  split
  · split <;> simp
  split
  · simp
    omega
  · simp
    omega

end Command

namespace BandDraft

def Short (n : Nat) (d : BandDraft) : Prop := ∀ c ∈ d.commands.toList, c.length ≤ n

namespace Short

variable {n : Nat} {d : BandDraft}

theorem start (n band : Nat) (state : BandState) : Short n { band, state } :=
  fun _ hc => absurd hc List.not_mem_nil

theorem emit (h : d.Short n) {c : Command} (hc : c.length ≤ n) (b : BandState) :
    Short n { d.emit c with state := b } := by
  intro c' hc'
  have hmem : c' ∈ d.commands.toList ++ [c] := by simpa [BandDraft.emit] using hc'
  rcases List.mem_append.mp hmem with hmem | hmem
  · exact h c' hmem
  · rw [List.mem_singleton.mp hmem]
    exact hc

theorem switchClip (h : d.Short n) (hn : 1 ≤ n) (on : Bool) : (d.switchClip on).Short n := by
  rw [BandDraft.switchClip]
  split
  · exact h
  · exact h.emit (c := Command.clipSwitch on) hn _

theorem useLop (h : d.Short n) (hn : 7 ≤ n) (lop : LogicalOp) (forRects : Bool) :
    (d.useLop lop forRects).Short n := by
  simp only [BandDraft.useLop]
  have htold : Short n (if d.state.lop = lop then d
      else { d.emit (Command.lop lop) with state := { d.state with lop } }) := by
    split
    · exact h
    · exact h.emit ((Command.length_lop_le lop).trans hn) _
  generalize (if d.state.lop = lop then d
    else { d.emit (Command.lop lop) with state := { d.state with lop } }) = d₁ at htold
  split
  · exact htold
  · exact htold.emit ((Command.length_lopSwitch _).trans_le (Nat.le_trans (by decide) hn)) _

theorem useColor (h : d.Short n) (hn : 5 ≤ n) {depth : Nat} (hdepth : depth ∈ Config.depths)
    (slot : ColorSlot) (color : Color) : (d.useColor depth slot color).Short n := by
  simp only [BandDraft.useColor]
  split
  · exact h
  · exact h.emit ((Command.length_color_le hdepth ..).trans hn) _

theorem rect (h : d.Short n) (hn : 21 ≤ n) (base : UInt8) (r : Rect) : (d.rect base r).Short n :=
  h.emit ((Command.length_rect_le ..).trans hn) _

end Short

end BandDraft

end BandedPage
