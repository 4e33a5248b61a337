import Mathlib
import BandedPage.Operand.Rect
import BandedPage.Proofs.Operand.Number

/-!
# Reading rectangles back

A rectangle is read back from its difference to the band's last one, as long as its numbers and
the differences are 32-bit values. Every form has a code of its own within its family, and the first
way to give the rectangle is taken of those that can: what a way can give is told by what its
decoder can answer at all.
-/

namespace BandedPage

namespace SizedRect

/-- All numbers are 32-bit values. -/
structure Fits (r : SizedRect) : Prop where
  x : Word.fits32 r.x = true
  y : Word.fits32 r.y = true
  width : Word.fits32 r.width = true
  height : Word.fits32 r.height = true

instance (r : SizedRect) : Decidable r.Fits :=
  decidable_of_iff (Word.fits32 r.x = true ∧ Word.fits32 r.y = true ∧ Word.fits32 r.width = true ∧
      Word.fits32 r.height = true)
    ⟨fun ⟨hx, hy, hw, hh⟩ => ⟨hx, hy, hw, hh⟩, fun ⟨hx, hy, hw, hh⟩ => ⟨hx, hy, hw, hh⟩⟩

/-- The differences of all numbers. -/
def minus (r last : SizedRect) : SizedRect :=
  ⟨r.x - last.x, r.y - last.y, r.width - last.width, r.height - last.height⟩

end SizedRect

/-- Where the codes of a form begin within their family. -/
def RectForm.base : RectForm → UInt8
  | .full => 0
  | .short => 0x10
  | .tiny => 0x20

/-- A family of rectangle commands. -/
inductive RectFamily where
  | fill
  | tile
  deriving DecidableEq, Repr

namespace RectFamily

/-- The code of the full form. -/
def base : RectFamily → UInt8
  | fill => Opcode.fillRect
  | tile => Opcode.tileRect

/-- What a code of the family says. -/
def op : RectFamily → RectForm → UInt8 → Op
  | fill => .fillRect
  | tile => .tileRect

end RectFamily

/-- The families of rectangle commands do not overlap with anything else. -/
@[simp] theorem Op.ofByte?_rect (family : RectFamily) (form : RectForm) {n : UInt8} (h : n < 16) :
    Op.ofByte? (family.base + form.base + n) = some (family.op form n) :=
  Word.forall_byte_lt
    (P := fun n => Op.ofByte? (family.base + form.base + n) = some (family.op form n))
    (by cases family <;> cases form <;> decide) h

theorem Word.toNat_byte {v : Int} (h0 : 0 ≤ v) (h : v < 256) : ((Word.byte v).toNat : Int) = v := by
  have hpattern : Word.pattern 8 v = v.toNat := by
    simp only [Word.pattern, Nat.one_shiftLeft]
    norm_num
    omega
  rw [Word.byte, hpattern, UInt8.toNat_ofNat']
  omega

theorem Word.byte_add (a b : Int) : Word.byte (a + b) = Word.byte a + Word.byte b := by
  have hpattern : ∀ v, Word.pattern 8 v = (v % 256).toNat := fun v => by
    simp only [Word.pattern, Nat.one_shiftLeft]
    rfl
  refine UInt8.toNat_inj.mp ?_
  simp only [Word.byte, hpattern, UInt8.toNat_add, UInt8.toNat_ofNat']
  omega

namespace RectCommand

@[simp] theorem within_iff {lo hi v : Int} : within lo hi v = true ↔ lo ≤ v ∧ v ≤ hi := by
  simp [within]

theorem moved_eq {v d w : Int} (h : v + d = w) (hv : Word.fits32 w = true) :
    moved v d = .ok w := by
  subst h
  rw [moved, if_pos hv]

/-- The ways to give a rectangle. -/
inductive Way where
  | tiny
  | short
  /-- Row and height by their differences, the rest as it is. -/
  | differences
  /-- Everything as it is. -/
  | absolute
  deriving DecidableEq, Repr

namespace Way

/-- The way a code takes, by its form and its low half. -/
def of : RectForm → UInt8 → Way
  | .tiny, _ => tiny
  | .short, _ => short
  | .full, n => if n = 0 then absolute else differences

/-- The place of a way in the order in which they are tried. -/
def place : Way → Nat
  | tiny => 0
  | short => 1
  | differences => 2
  | absolute => 3

/-- Some command that takes this way stands for `rect` after `last`. -/
def CanGive (way : Way) (rect last : SizedRect) : Prop :=
  ∃ form n operands c, n < 16 ∧ of form n = way ∧
    decode form n last (Cursor.ofList operands) = .ok rect c

/-- The way has room for the differences between the rectangles. -/
def Suits (rect last : SizedRect) : Way → Prop
  | tiny => rect.height = last.height ∧ within (-4) 3 (rect.width - last.width) = true ∧
      ((rect.x = last.x + last.width ∧ rect.y = last.y) ∨
        (within (-8) 7 (rect.x - last.x) = true ∧ within (-8) 7 (rect.y - last.y) = true))
  | short => within (-128) 127 (rect.x - last.x) = true ∧
      within (-128) 127 (rect.y - last.y) = true ∧
      within (-128) 127 (rect.width - last.width) = true ∧
      within (-128) 127 (rect.height - last.height) = true
  | differences => within (-2) 1 (rect.y - last.y) = true ∧
      within (-2) 1 (rect.height - last.height) = true ∧
      rect.y - last.y + (rect.height - last.height) ≠ -4
  | absolute => True

/-- No way that is tried before this one has room for the differences. -/
def IsFirst (way : Way) (rect last : SizedRect) : Prop :=
  ∀ way' : Way, way'.place < way.place → ¬ way'.Suits rect last

theorem isFirst_tiny (rect last : SizedRect) : tiny.IsFirst rect last :=
  fun _ hlt => absurd hlt (Nat.not_lt_zero _)

theorem isFirst_short {rect last : SizedRect} (htiny : ¬ tiny.Suits rect last) :
    short.IsFirst rect last := by
  intro way hlt
  cases way with
  | tiny => exact htiny
  | short => exact absurd hlt (by decide)
  | differences => exact absurd hlt (by decide)
  | absolute => exact absurd hlt (by decide)

theorem isFirst_differences {rect last : SizedRect} (htiny : ¬ tiny.Suits rect last)
    (hshort : ¬ short.Suits rect last) : differences.IsFirst rect last := by
  intro way hlt
  cases way with
  | tiny => exact htiny
  | short => exact hshort
  | differences => exact absurd hlt (by decide)
  | absolute => exact absurd hlt (by decide)

theorem isFirst_absolute {rect last : SizedRect} (htiny : ¬ tiny.Suits rect last)
    (hshort : ¬ short.Suits rect last) (hdifferences : ¬ differences.Suits rect last) :
    absolute.IsFirst rect last := by
  intro way hlt
  cases way with
  | tiny => exact htiny
  | short => exact hshort
  | differences => exact hdifferences
  | absolute => exact absurd hlt (by decide)

end Way

section

variable {σ : Type} [ByteSource σ] {s s' : σ}

omit [ByteSource σ] in
theorem eq_of_moved {v d w : Int} (h : (liftM (moved v d) : Decoder σ Int) s = .ok w s') :
    w = v + d := by
  rw [moved] at h
  split at h
  · cases h
    rfl
  · cases h

theorem within_of_movedByByte {v w : Int} (h : movedByByte v s = .ok w s') :
    within (-128) 127 (w - v) = true := by
  obtain ⟨b, s₁, -, h⟩ := bind_eq_ok_iff.mp h
  have := eq_of_moved h
  have := b.toNat_lt
  exact within_iff.mpr (by omega)

/-- What a command answers, its way has room for. -/
theorem suits_of_decode {form : RectForm} {n : UInt8} {rect last : SizedRect} (hn : n < 16)
    (h : decode form n last s = .ok rect s') : (Way.of form n).Suits rect last := by
  have hlt : n.toNat < 16 := UInt8.lt_iff_toNat_lt.mp hn
  cases form with
  | full =>
    obtain ⟨x, s₁, -, h⟩ := bind_eq_ok_iff.mp h
    by_cases hzero : n = 0
    · rw [Way.of, if_pos hzero]
      trivial
    · have hne : (n.toNat : Int) ≠ 0 := fun heq => hzero (UInt8.toNat_inj.mp (by simpa using heq))
      rw [if_neg hne] at h
      obtain ⟨y, s₂, hy, h⟩ := bind_eq_ok_iff.mp h
      obtain ⟨width, s₃, -, h⟩ := bind_eq_ok_iff.mp h
      obtain ⟨height, s₄, hheight, h⟩ := bind_eq_ok_iff.mp h
      cases h
      have := eq_of_moved hy
      have := eq_of_moved hheight
      rw [Way.of, if_neg hzero]
      simp only [Way.Suits, within_iff]
      omega
  | short =>
    obtain ⟨x, s₁, hx, h⟩ := bind_eq_ok_iff.mp h
    obtain ⟨width, s₂, hwidth, h⟩ := bind_eq_ok_iff.mp h
    have hx := within_of_movedByByte hx
    have hwidth := within_of_movedByByte hwidth
    by_cases hrow : (n.toNat : Int) ≠ 0
    · rw [if_pos hrow] at h
      obtain ⟨height, s₃, hheight, h⟩ := bind_eq_ok_iff.mp h
      cases h
      have := eq_of_moved hheight
      simp only [Way.of, Way.Suits, within_iff] at hx hwidth ⊢
      omega
    · rw [if_neg hrow] at h
      obtain ⟨y, s₃, hy, h⟩ := bind_eq_ok_iff.mp h
      obtain ⟨height, s₄, hheight, h⟩ := bind_eq_ok_iff.mp h
      cases h
      exact ⟨hx, within_of_movedByByte hy, hwidth, within_of_movedByByte hheight⟩
  | tiny =>
    simp only [decode] at h
    by_cases hchained : 8 ≤ (n.toNat : Int)
    · rw [if_pos hchained] at h
      obtain ⟨x, s₁, hx, h⟩ := bind_eq_ok_iff.mp h
      obtain ⟨width, s₂, hwidth, h⟩ := bind_eq_ok_iff.mp h
      cases h
      have := eq_of_moved hx
      have := eq_of_moved hwidth
      simp only [Way.of, Way.Suits, within_iff, true_and, and_true]
      omega
    · rw [if_neg hchained] at h
      obtain ⟨b, s₁, -, h⟩ := bind_eq_ok_iff.mp h
      obtain ⟨x, s₂, hx, h⟩ := bind_eq_ok_iff.mp h
      obtain ⟨y, s₃, hy, h⟩ := bind_eq_ok_iff.mp h
      obtain ⟨width, s₄, hwidth, h⟩ := bind_eq_ok_iff.mp h
      cases h
      have := b.toNat_lt
      have := eq_of_moved hx
      have := eq_of_moved hy
      have := eq_of_moved hwidth
      simp only [Way.of, Way.Suits, within_iff, true_and]
      omega

end

theorem Way.CanGive.suits {way : Way} {rect last : SizedRect} (h : way.CanGive rect last) :
    way.Suits rect last := by
  obtain ⟨form, n, operands, c, hn, rfl, hdecode⟩ := h
  exact suits_of_decode hn hdecode

variable {σ : Type} [ByteSource σ] [LawfulSource σ]

theorem decodes_movedByByte {v d w : Int} (h : v + d = w) (hv : Word.fits32 w = true)
    (hd : within (-128) 127 d = true) :
    Decodes (movedByByte v : Decoder σ Int) [Word.byte (d + 128)] w := by
  obtain ⟨hlo, hhi⟩ := within_iff.mp hd
  have hbyte := Word.toNat_byte (v := d + 128) (by omega) (by omega)
  refine (Decodes.nextByte (Word.byte (d + 128))).bind (l := []) ?_
  rw [hbyte]
  exact Decodes.lift (moved_eq (by omega) hv)

/-- The low half of a code that begins with a small number. -/
theorem exists_nibble {v : Int} (h0 : 0 ≤ v) (h : v < 16) :
    ∃ n : UInt8, Word.byte v = n ∧ n < 16 ∧ (n.toNat : Int) = v := by
  have hbyte := Word.toNat_byte h0 (by omega)
  refine ⟨Word.byte v, rfl, ?_, hbyte⟩
  rw [UInt8.lt_iff_toNat_lt]
  simp only [UInt8.reduceToNat]
  omega

section

variable {rect last : SizedRect} {n : UInt8}

/-- A rectangle that begins where the last one ended. -/
theorem decodes_chained (h : rect.Fits) (hx : rect.x = last.x + last.width) (hy : rect.y = last.y)
    (hh : rect.height = last.height) (hn : (n.toNat : Int) = rect.width - last.width + 12)
    (hn' : 8 ≤ (n.toNat : Int)) (hlt : (n.toNat : Int) < 16) :
    Decodes (decode .tiny n last : Decoder σ SizedRect) [] rect := by
  simp only [decode]
  rw [if_pos hn']
  refine Decodes.lift_bind (moved_eq hx.symm h.x) ?_
  refine Decodes.lift_bind (moved_eq (w := rect.width) (by omega) h.width) ?_
  rw [← hy, ← hh]
  exact Decodes.pure rect

theorem decodes_tiny (h : rect.Fits) (hh : rect.height = last.height)
    (hn : (n.toNat : Int) = rect.width - last.width + 4) (hn' : (n.toNat : Int) < 8)
    (hx : within (-8) 7 (rect.x - last.x) = true) (hy : within (-8) 7 (rect.y - last.y) = true) :
    Decodes (decode .tiny n last : Decoder σ SizedRect)
      [Word.byte ((rect.x - last.x + 8) * 16 + (rect.y - last.y + 8))] rect := by
  obtain ⟨hxlo, hxhi⟩ := within_iff.mp hx
  obtain ⟨hylo, hyhi⟩ := within_iff.mp hy
  have hbyte := Word.toNat_byte (v := (rect.x - last.x + 8) * 16 + (rect.y - last.y + 8))
    (by omega) (by omega)
  simp only [decode]
  rw [if_neg (by omega)]
  refine (Decodes.nextByte _).bind (l := []) ?_
  rw [hbyte]
  refine Decodes.lift_bind (moved_eq (w := rect.x) (by omega) h.x) ?_
  refine Decodes.lift_bind (moved_eq (w := rect.y) (by omega) h.y) ?_
  refine Decodes.lift_bind (moved_eq (w := rect.width) (by omega) h.width) ?_
  rw [← hh]
  exact Decodes.pure rect

/-- A rectangle of the same row whose height changes by little. -/
theorem decodes_short_row (h : rect.Fits) (hy : rect.y = last.y)
    (hn : (n.toNat : Int) = rect.height - last.height + 8) (hn' : (n.toNat : Int) ≠ 0)
    (hx : within (-128) 127 (rect.x - last.x) = true)
    (hw : within (-128) 127 (rect.width - last.width) = true) :
    Decodes (decode .short n last : Decoder σ SizedRect)
      [Word.byte (rect.x - last.x + 128), Word.byte (rect.width - last.width + 128)] rect := by
  simp only [decode]
  refine (decodes_movedByByte (by omega) h.x hx).bind
    (l := [Word.byte (rect.width - last.width + 128)]) ?_
  refine (decodes_movedByByte (by omega) h.width hw).bind (l := []) ?_
  rw [if_pos hn']
  refine Decodes.lift_bind (moved_eq (w := rect.height) (by omega) h.height) ?_
  rw [← hy]
  exact Decodes.pure rect

theorem decodes_short (h : rect.Fits) (hn : (n.toNat : Int) = 0)
    (hx : within (-128) 127 (rect.x - last.x) = true)
    (hy : within (-128) 127 (rect.y - last.y) = true)
    (hw : within (-128) 127 (rect.width - last.width) = true)
    (hh : within (-128) 127 (rect.height - last.height) = true) :
    Decodes (decode .short n last : Decoder σ SizedRect)
      [Word.byte (rect.x - last.x + 128), Word.byte (rect.width - last.width + 128),
        Word.byte (rect.y - last.y + 128), Word.byte (rect.height - last.height + 128)] rect := by
  simp only [decode]
  refine (decodes_movedByByte (by omega) h.x hx).bind
    (l := [Word.byte (rect.width - last.width + 128), Word.byte (rect.y - last.y + 128),
      Word.byte (rect.height - last.height + 128)]) ?_
  refine (decodes_movedByByte (by omega) h.width hw).bind
    (l := [Word.byte (rect.y - last.y + 128),
      Word.byte (rect.height - last.height + 128)]) ?_
  rw [if_neg (by simpa using hn)]
  refine (decodes_movedByByte (by omega) h.y hy).bind
    (l := [Word.byte (rect.height - last.height + 128)]) ?_
  refine (decodes_movedByByte (by omega) h.height hh).bind (l := []) ?_
  exact Decodes.pure rect

theorem decodes_near (h : rect.Fits)
    (hn : (n.toNat : Int) = (rect.y - last.y + 2) * 4 + (rect.height - last.height + 2))
    (hn' : (n.toNat : Int) ≠ 0) (hy : within (-2) 1 (rect.y - last.y) = true)
    (hh : within (-2) 1 (rect.height - last.height) = true) :
    Decodes (decode .full n last : Decoder σ SizedRect)
      (Varint.encodeInt rect.x ++ Varint.encodeInt rect.width) rect := by
  obtain ⟨hylo, hyhi⟩ := within_iff.mp hy
  obtain ⟨hhlo, hhhi⟩ := within_iff.mp hh
  simp only [decode]
  refine (Varint.decodes_int_of_fits32 h.x).bind (l := Varint.encodeInt rect.width) ?_
  rw [if_neg hn']
  refine Decodes.lift_bind (moved_eq (w := rect.y) (by omega) h.y) ?_
  refine (Decodes.bind (l := []) (Varint.decodes_int_of_fits32 h.width) ?_).of_eq (by simp)
  refine Decodes.lift_bind (moved_eq (w := rect.height) (by omega) h.height) ?_
  exact Decodes.pure rect

theorem decodes_full (h : rect.Fits) (hn : (n.toNat : Int) = 0) :
    Decodes (decode .full n last : Decoder σ SizedRect)
      (Varint.encodeInt rect.x ++ Varint.encodeInt rect.y ++ Varint.encodeInt rect.width ++
        Varint.encodeInt rect.height) rect := by
  simp only [decode, List.append_assoc]
  refine (Varint.decodes_int_of_fits32 h.x).bind ?_
  rw [if_pos hn]
  refine (Varint.decodes_int_of_fits32 h.y).bind ?_
  refine (Varint.decodes_int_of_fits32 h.width).bind ?_
  exact (Varint.decodes_int_of_fits32 h.height).bind_pure
    (f := fun height => (⟨rect.x, rect.y, rect.width, height⟩ : SizedRect))

end

/-- These are the bytes of a command that takes this way, and the rectangle is read back from
them. -/
def Way.Writes (way : Way) (base : UInt8) (rect last : SizedRect) (bytes : List UInt8) : Prop :=
  ∃ form n operands, bytes = (base + RectForm.base form + n) :: operands ∧ n < 16 ∧
    Way.of form n = way ∧ ∀ {σ : Type} [ByteSource σ] [LawfulSource σ],
      Decodes (decode form n last : Decoder σ SizedRect) operands rect

section

variable {rect last : SizedRect} (h : rect.Fits) (base : UInt8)

include h

theorem writes_chained (hx : rect.x = last.x + last.width) (hy : rect.y = last.y)
    (hw : within (-4) 3 (rect.width - last.width) = true) (hh : rect.height = last.height) :
    Way.tiny.Writes base rect last [base + 0x28 + Word.byte (rect.width - last.width + 4)] := by
  obtain ⟨hlo, hhi⟩ := within_iff.mp hw
  obtain ⟨n, hn, hlt, hval⟩ :=
    exists_nibble (v := rect.width - last.width + 12) (by omega) (by omega)
  have hcode : Word.byte (rect.width - last.width + 12) =
      8 + Word.byte (rect.width - last.width + 4) := by
    rw [show rect.width - last.width + 12 = 8 + (rect.width - last.width + 4) by omega,
      Word.byte_add]
    rfl
  have hbase : base + RectForm.base .tiny + 8 = base + 0x28 := by
    rw [UInt8.add_assoc]
    rfl
  refine ⟨.tiny, n, [], ?_, hlt, rfl, fun {σ} _ _ =>
    decodes_chained h hx hy hh hval (by omega) (by omega)⟩
  rw [← hn, hcode, ← UInt8.add_assoc, hbase]

theorem writes_tiny (hx : within (-8) 7 (rect.x - last.x) = true)
    (hy : within (-8) 7 (rect.y - last.y) = true)
    (hw : within (-4) 3 (rect.width - last.width) = true) (hh : rect.height = last.height) :
    Way.tiny.Writes base rect last [base + 0x20 + Word.byte (rect.width - last.width + 4),
      Word.byte ((rect.x - last.x + 8) * 16 + (rect.y - last.y + 8))] := by
  obtain ⟨hlo, hhi⟩ := within_iff.mp hw
  obtain ⟨n, hn, hlt, hval⟩ :=
    exists_nibble (v := rect.width - last.width + 4) (by omega) (by omega)
  refine ⟨.tiny, n, _, ?_, hlt, rfl, fun {σ} _ _ => decodes_tiny h hh hval (by omega) hx hy⟩
  rw [hn]
  rfl

theorem writes_short_row (hx : within (-128) 127 (rect.x - last.x) = true)
    (hy : rect.y = last.y) (hw : within (-128) 127 (rect.width - last.width) = true)
    (hh : within 1 15 (rect.height - last.height + 8) = true) :
    Way.short.Writes base rect last [base + 0x10 + Word.byte (rect.height - last.height + 8),
      Word.byte (rect.x - last.x + 128), Word.byte (rect.width - last.width + 128)] := by
  obtain ⟨hlo, hhi⟩ := within_iff.mp hh
  obtain ⟨n, hn, hlt, hval⟩ :=
    exists_nibble (v := rect.height - last.height + 8) (by omega) (by omega)
  refine ⟨.short, n, _, ?_, hlt, rfl, fun {σ} _ _ =>
    decodes_short_row h hy hval (by omega) hx hw⟩
  rw [hn]
  rfl

theorem writes_short (hx : within (-128) 127 (rect.x - last.x) = true)
    (hy : within (-128) 127 (rect.y - last.y) = true)
    (hw : within (-128) 127 (rect.width - last.width) = true)
    (hh : within (-128) 127 (rect.height - last.height) = true) :
    Way.short.Writes base rect last [base + 0x10, Word.byte (rect.x - last.x + 128),
      Word.byte (rect.width - last.width + 128), Word.byte (rect.y - last.y + 128),
      Word.byte (rect.height - last.height + 128)] := by
  refine ⟨.short, 0, _, ?_, by decide, rfl, fun {σ} _ _ => decodes_short h rfl hx hy hw hh⟩
  rw [UInt8.add_zero]
  rfl

theorem writes_differences (hy : within (-2) 1 (rect.y - last.y) = true)
    (hh : within (-2) 1 (rect.height - last.height) = true)
    (hne : rect.y - last.y + (rect.height - last.height) ≠ -4) :
    Way.differences.Writes base rect last
      ((base + Word.byte ((rect.y - last.y + 2) * 4 + (rect.height - last.height + 2))) ::
        (Varint.encodeInt rect.x ++ Varint.encodeInt rect.width)) := by
  obtain ⟨hylo, hyhi⟩ := within_iff.mp hy
  obtain ⟨hhlo, hhhi⟩ := within_iff.mp hh
  obtain ⟨n, hn, hlt, hval⟩ := exists_nibble
    (v := (rect.y - last.y + 2) * 4 + (rect.height - last.height + 2)) (by omega) (by omega)
  -- The one pair of differences that would have the code of the full form is left out.
  have hpos : (n.toNat : Int) ≠ 0 := by omega
  have hway : Way.of .full n = .differences := by
    refine if_neg fun hzero => hpos ?_
    rw [hzero]
    rfl
  refine ⟨.full, n, _, ?_, hlt, hway, fun {σ} _ _ => decodes_near h hval hpos hy hh⟩
  rw [hn, RectForm.base, UInt8.add_zero]

theorem writes_absolute :
    Way.absolute.Writes base rect last
      (base :: (Varint.encodeInt rect.x ++ Varint.encodeInt rect.y ++
        Varint.encodeInt rect.width ++ Varint.encodeInt rect.height)) := by
  refine ⟨.full, 0, _, ?_, by decide, rfl, fun {σ} _ _ => decodes_full h rfl⟩
  rw [RectForm.base, UInt8.add_zero, UInt8.add_zero]

end

/-- A rectangle is written in the first way that has room for the differences. -/
theorem exists_way (base : UInt8) {rect last : SizedRect} (h : rect.Fits)
    (hd : (rect.minus last).Fits) :
    ∃ way : Way, way.IsFirst rect last ∧ way.Writes base rect last (encode base rect last) := by
  have hwx := Word.wrap32_of_fits32 hd.x
  have hwy := Word.wrap32_of_fits32 hd.y
  have hww := Word.wrap32_of_fits32 hd.width
  have hwh := Word.wrap32_of_fits32 hd.height
  simp only [SizedRect.minus] at hwx hwy hww hwh
  simp only [encode, hwx, hwy, hww, hwh]
  split
  · next hchain =>
    simp only [Bool.and_eq_true, beq_iff_eq] at hchain
    obtain ⟨⟨⟨hdh, hdw⟩, hdx⟩, hdy⟩ := hchain
    exact ⟨.tiny, Way.isFirst_tiny rect last,
      writes_chained h base (by omega) (by omega) hdw (by omega)⟩
  next hchain =>
  split
  · next hmove =>
    simp only [Bool.and_eq_true, beq_iff_eq] at hmove
    obtain ⟨⟨⟨hdh, hdw⟩, hdx⟩, hdy⟩ := hmove
    exact ⟨.tiny, Way.isFirst_tiny rect last, writes_tiny h base hdx hdy hdw (by omega)⟩
  next hmove =>
  have htiny : ¬ Way.tiny.Suits rect last := by
    simp only [Bool.and_eq_true, beq_iff_eq, within_iff] at hchain hmove
    simp only [Way.Suits, within_iff]
    omega
  split
  · next hshort =>
    simp only [List.all_cons, List.all_nil, Bool.and_true, Bool.and_eq_true] at hshort
    obtain ⟨hdx, hdy, hdw, hdh⟩ := hshort
    refine ⟨.short, Way.isFirst_short htiny, ?_⟩
    split
    · next hrow =>
      simp only [Bool.and_eq_true, beq_iff_eq] at hrow
      exact writes_short_row h base hdx (by omega) hdw hrow.1
    · exact writes_short h base hdx hdy hdw hdh
  next hfar =>
  have hshort : ¬ Way.short.Suits rect last := by
    simpa only [Way.Suits, List.all_cons, List.all_nil, Bool.and_true, Bool.and_eq_true] using hfar
  split
  · next hnear =>
    simp only [Bool.and_eq_true, bne_iff_ne, ne_eq] at hnear
    exact ⟨.differences, Way.isFirst_differences htiny hshort,
      writes_differences h base hnear.1.1 hnear.1.2 hnear.2⟩
  · next hnear =>
    simp only [Bool.and_eq_true, bne_iff_ne, and_assoc] at hnear
    exact ⟨.absolute, Way.isFirst_absolute htiny hshort hnear, writes_absolute h base⟩

/-- The code of a rectangle names a form, and what follows is read back in this form. -/
theorem exists_form (base : UInt8) {rect last : SizedRect} (h : rect.Fits)
    (hd : (rect.minus last).Fits) :
    ∃ form n operands, encode base rect last = (base + RectForm.base form + n) :: operands ∧
      n < 16 ∧ ∀ {σ : Type} [ByteSource σ] [LawfulSource σ],
        Decodes (decode form n last : Decoder σ SizedRect) operands rect := by
  obtain ⟨way, -, form, n, operands, hcode, hn, -, hread⟩ := exists_way base h hd
  exact ⟨form, n, operands, hcode, hn, hread⟩

theorem Way.Writes.canGive {way : Way} {base : UInt8} {rect last : SizedRect} {bytes : List UInt8}
    (h : way.Writes base rect last bytes) : way.CanGive rect last := by
  obtain ⟨form, n, operands, -, hn, hway, hread⟩ := h
  obtain ⟨c, hc, -⟩ := hread (σ := Cursor) (Cursor.ofList operands) [] (List.append_nil operands).symm
  exact ⟨form, n, operands, c, hn, hway, hc⟩

/-- The command for a rectangle is one of its family and is read back, whatever follows it. It takes
the first way in which any command can give the rectangle. -/
theorem rectangle_is_read_back (family : RectFamily) {rect last : SizedRect} (h : rect.Fits)
    (hd : (rect.minus last).Fits) :
    ∃ code operands form n, encode family.base rect last = code :: operands ∧
      (∀ offset, Op.decode code offset = .ok (family.op form n)) ∧
      Decodes (decode form n last : Decoder σ SizedRect) operands rect ∧
      (Way.of form n).CanGive rect last ∧
      ∀ way : Way, way.place < (Way.of form n).place → ¬ way.CanGive rect last := by
  obtain ⟨way, hfirst, hwrites⟩ := exists_way family.base h hd
  have hgives := hwrites.canGive
  obtain ⟨form, n, operands, hcode, hn, rfl, hread⟩ := hwrites
  refine ⟨_, operands, form, n, hcode, fun offset => ?_, hread, hgives,
    fun way hlt hgive => hfirst way hlt hgive.suits⟩
  rw [Op.decode, Op.ofByte?_rect family form hn]

/-- Row and height change by the one pair of differences that has no code. -/
theorem excluded_differences_are_read_back :
    SizedRect.Fits ⟨1010, 18, -30, 38⟩ ∧ (SizedRect.minus ⟨1010, 18, -30, 38⟩ ⟨10, 20, 30, 40⟩).Fits ∧
      encode Opcode.tileRect ⟨1010, 18, -30, 38⟩ ⟨10, 20, 30, 40⟩ =
        [0x60, 0xf2, 7, 18, 0xe2, 0xff, 0xff, 0xff, 15, 38] ∧
      (∃ c, decode .full 0 ⟨10, 20, 30, 40⟩
          (Cursor.ofList [0xf2, 7, 18, 0xe2, 0xff, 0xff, 0xff, 15, 38, 255]) =
            .ok ⟨1010, 18, -30, 38⟩ c ∧ c.rest = [255]) ∧
      ¬ Way.differences.CanGive ⟨1010, 18, -30, 38⟩ ⟨10, 20, 30, 40⟩ := by
  have h : SizedRect.Fits ⟨1010, 18, -30, 38⟩ := by decide
  have hd : (SizedRect.minus ⟨1010, 18, -30, 38⟩ ⟨10, 20, 30, 40⟩).Fits := by decide
  have hbytes : encode Opcode.tileRect ⟨1010, 18, -30, 38⟩ ⟨10, 20, 30, 40⟩ =
      [0x60, 0xf2, 7, 18, 0xe2, 0xff, 0xff, 0xff, 15, 38] := by decide +kernel
  refine ⟨h, hd, hbytes, ?_⟩
  obtain ⟨code, operands, form, n, hcode, hop, hread, -, hfirst⟩ :=
    rectangle_is_read_back (σ := Cursor) .tile h hd
  rw [RectFamily.base, hbytes] at hcode
  cases hcode
  cases hop 0
  exact ⟨hread (Cursor.ofList [0xf2, 7, 18, 0xe2, 0xff, 0xff, 0xff, 15, 38, 255]) [255] rfl,
    hfirst .differences (by decide)⟩

end RectCommand

end BandedPage
