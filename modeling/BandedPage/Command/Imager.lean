import BandedPage.Command.Basic
import BandedPage.Image
import BandedPage.Imager.Field
import BandedPage.Imager.State
import BandedPage.Operand.ImageHeader
import BandedPage.Operand.Matrix

/-!
# Sending the imager state

One command for each field of the imager state. The clip is no single command and has none here.
The header of an image follows the fields that the image depends on.
-/

namespace BandedPage

namespace Command

def flag (i : Nat) (on : Bool) : UInt8 := if on then UInt8.ofNat (1 <<< i) else 0

def dash (d : Dash) : Command :=
  StateOp.setDash.code ::
    (UInt8.ofNat d.pattern.length ||| flag 7 d.adapt ||| flag 6 d.dotLengthAbsolute) ::
    (d.dotLength.toBytes ++ d.offset.toBytes ++ d.pattern.flatMap Single.toBytes)

def colorSpace (cs : ColorSpace) : Command :=
  StateOp.setColorSpace.code :: cs.code :: match cs.indexing with
    | some ix => Varint.encode ix.highest
    | none => []

/-- A second miscellaneous setting. -/
def option (kind operand : UInt8) : Command := [StateOp.setOptions.code, kind ||| operand]

def notes (n : UInt8) : Command := option Opcode.optionNotes (n &&& 0x3f)

def ofField (s : ImagerState) (cs : ColorSpace) : StateField → Command
  | .flatness => StateOp.setFlatness.code :: s.flatness.toBytes
  | .fillAdjust =>
    StateOp.setFillAdjust.code ::
      (Operand.ofInteger s.fillAdjust.x ++ Operand.ofInteger s.fillAdjust.y)
  | .ctm => StateOp.setCtm.code :: s.ctm.encode
  | .lineWidth => StateOp.setLineWidth.code :: s.lineWidth.toBytes
  | .miterLimit => StateOp.setMiterLimit.code :: s.miterLimit.toBytes
  | .capJoin => option Opcode.optionCapJoin ((s.cap.code <<< 3) ||| s.join.code)
  | .curveOptions =>
    option Opcode.optionCurves
      (flag 2 s.accurateCurves ||| flag 1 s.overprint ||| flag 0 s.strokeAdjust)
  | .dash => dash s.dash
  | .alpha => option Opcode.optionAlpha 0 ++ Word.littleEndian 2 s.alpha.toNat
  | .clip => []
  | .colorSpace => colorSpace cs

def imageBegin (h : ImageHeader) (cs : ColorSpace) : Except Error Command := do
  return StateOp.beginImage.code :: (← h.encode cs)

end Command

end BandedPage
