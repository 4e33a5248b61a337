import BandedPage.Opcode
import BandedPage.Operand.Number
import BandedPage.Rect

/-!
# Rectangle commands

A rectangle is given by its difference to the band's last one, in the first of these forms that
can hold the difference:

* tiny: the width changes by -4 to 3 and the height not at all, and either the rectangle begins
  where the last one ended, or its corner moves by -8 to 7 each way;
* short: every difference is a signed byte; if the row stays and the height changes by -7 to 7,
  the height difference is in the code;
* full with differences: row and height change by -2 to 1, not both by -2; position across and
  width are given as they are;
* full: everything is given as it is.
-/

namespace BandedPage.RectCommand

def within (lo hi v : Int) : Bool := lo ≤ v && v ≤ hi

/-- The command for `rect` after `last`; `base` is the code of the family. -/
def encode (base : UInt8) (rect last : SizedRect) : List UInt8 :=
  let dx := Word.wrap32 (rect.x - last.x)
  let dy := Word.wrap32 (rect.y - last.y)
  let dw := Word.wrap32 (rect.width - last.width)
  let dh := Word.wrap32 (rect.height - last.height)
  let tiny := dh == 0 && within (-4) 3 dw
  if tiny && dx == last.width && dy == 0 then
    [base + 0x28 + Word.byte (dw + 4)]
  else if tiny && within (-8) 7 dx && within (-8) 7 dy then
    [base + 0x20 + Word.byte (dw + 4), Word.byte ((dx + 8) * 16 + (dy + 8))]
  else if [dx, dy, dw, dh].all (within (-128) 127) then
    if within 1 15 (dh + 8) && dy == 0 then
      [base + 0x10 + Word.byte (dh + 8), Word.byte (dx + 128), Word.byte (dw + 128)]
    else
      [base + 0x10, Word.byte (dx + 128), Word.byte (dw + 128), Word.byte (dy + 128),
        Word.byte (dh + 128)]
  else if within (-2) 1 dy && within (-2) 1 dh && dy + dh != -4 then
    (base + Word.byte ((dy + 2) * 4 + (dh + 2))) ::
      (Varint.encodeInt rect.x ++ Varint.encodeInt rect.width)
  else
    base :: (Varint.encodeInt rect.x ++ Varint.encodeInt rect.y ++ Varint.encodeInt rect.width ++
      Varint.encodeInt rect.height)

/-- `v` moved by `d`, which must stay a 32-bit value. -/
def moved (v d : Int) : Except Error Int :=
  if Word.fits32 (v + d) then .ok (v + d)
  else .error (.malformed s!"rectangle delta {d} from {v} overflows")

variable {σ : Type} [ByteSource σ]

/-- `v` moved by the next byte, taken as -128 to 127. -/
def movedByByte (v : Int) : Decoder σ Int := do
  let d := ((← nextByte).toNat : Int) - 128
  moved v d

/-- The rectangle of a command after `last`, of the given form and with low half `n`. -/
def decode (form : RectForm) (n : UInt8) (last : SizedRect) : Decoder σ SizedRect := do
  let n : Int := n.toNat
  match form with
  | .full =>
    let x ← Varint.decodeInt
    if n = 0 then
      let y ← Varint.decodeInt
      let width ← Varint.decodeInt
      let height ← Varint.decodeInt
      return { x, y, width, height }
    else
      let y ← moved last.y (n / 4 % 4 - 2)
      let width ← Varint.decodeInt
      let height ← moved last.height (n % 4 - 2)
      return { x, y, width, height }
  | .short =>
    let x ← movedByByte last.x
    let width ← movedByByte last.width
    if n ≠ 0 then
      let height ← moved last.height (n - 8)
      return { last with x, width, height }
    else
      let y ← movedByByte last.y
      let height ← movedByByte last.height
      return { x, y, width, height }
  | .tiny =>
    if 8 ≤ n then
      let x ← moved last.x last.width
      let width ← moved last.width (n % 8 - 4)
      return { last with x, width }
    else
      let b : Int := (← nextByte).toNat
      let x ← moved last.x (b / 16 - 8)
      let y ← moved last.y (b % 16 - 8)
      let width ← moved last.width (n % 8 - 4)
      return { last with x, y, width }

end BandedPage.RectCommand
