import BandedPage.Color
import BandedPage.Error

/-!
# Command codes

The high half of a command's first byte selects a family. The low half either selects a command
of the family or is the first operand. Two codes of the segment and path families are unused;
every other byte names a command.
-/

namespace BandedPage

namespace Opcode

def endRun : UInt8 := 0x00
def setTileSize : UInt8 := 0x01
def setTilePhase : UInt8 := 0x02
def setTileBits : UInt8 := 0x03
def setBits : UInt8 := 0x04
def setTileColor : UInt8 := 0x05
def setMisc : UInt8 := 0x06
def enableLop : UInt8 := 0x07
def disableLop : UInt8 := 0x08
def setHalftoneOrder : UInt8 := 0x09
def setHalftoneData : UInt8 := 0x0a
def endPage : UInt8 := 0x0b
def setCopyColor : UInt8 := 0x0e
def setCopyAlpha : UInt8 := 0x0f

def colorDifference : ColorSlot → UInt8
  | .zero => 0x0c
  | .one => 0x0d

/-- The base of the color commands for a slot. -/
def setColor : ColorSlot → UInt8
  | .zero => 0x10
  | .one => 0x20

/-- Low half of a color command that stands for no color. -/
def noColorNibble : UInt8 := 15

/-- Base of the rectangle fills; the short and tiny forms are 0x10 and 0x20 above. -/
def fillRect : UInt8 := 0x30

/-- Base of the tiled rectangles; the short and tiny forms are 0x10 and 0x20 above. -/
def tileRect : UInt8 := 0x60

def copyMono : UInt8 := 0x90
def copyDeep : UInt8 := 0xa0
def tileIndexDifference : UInt8 := 0xb0
def setTileIndex : UInt8 := 0xc0

/-- Flag of a copy: paint the set bits with the current tile and its colors. -/
def copyWithTileColor : UInt8 := 4

def copyFromTile : UInt8 := 8

/-- Kinds of the miscellaneous setting, in the top two bits of the byte after it. -/
def miscLop : UInt8 := 0x00
def miscDataX : UInt8 := 0x40
def miscTransfer : UInt8 := 0x80
def miscHalftone : UInt8 := 0xc0

/-- Kinds of the second miscellaneous setting, in the top two bits of the byte after it. -/
def optionCapJoin : UInt8 := 0x00
def optionCurves : UInt8 := 0x40
def optionNotes : UInt8 := 0x80
def optionAlpha : UInt8 := 0xc0

end Opcode

/-- Control, tile and color commands. -/
inductive ControlOp where
  | endRun
  | setTileSize
  | setTilePhase
  | setTileBits
  | setBits
  | setTileColor
  | setMisc
  | enableLop
  | disableLop
  | setHalftoneOrder
  | setHalftoneData
  | endPage
  | colorDifference (slot : ColorSlot)
  | setCopyColor
  | setCopyAlpha
  deriving DecidableEq, Repr

/-- How the operands of a rectangle command are given. -/
inductive RectForm where
  | full
  | short
  | tiny
  deriving DecidableEq, Repr

/-- Commands that set imager state, clip, image and parameters. -/
inductive StateOp where
  | setFlatness
  | setFillAdjust
  | setCtm
  | setLineWidth
  | setOptions
  | setMiterLimit
  | setDash
  | enableClip
  | disableClip
  | beginClip
  | endClip
  | setColorSpace
  | beginImage
  | imageData
  | setColor
  | putParams
  deriving DecidableEq, Repr

namespace StateOp

/-- The commands in the order of their codes. -/
def all : List StateOp :=
  [setFlatness, setFillAdjust, setCtm, setLineWidth, setOptions, setMiterLimit, setDash,
    enableClip, disableClip, beginClip, endClip, setColorSpace, beginImage, imageData, setColor,
    putParams]

def code (op : StateOp) : UInt8 := 0xd0 + UInt8.ofNat (all.idxOf op)

end StateOp

/-- Commands that append to the path. -/
inductive SegmentOp where
  | move
  | line
  | hline
  | vline
  | moveLine
  | moveLine2
  | moveLine3
  | curve
  | hvCurve
  | vhCurve
  | nrCurve
  | rnCurve
  | vqCurve
  | hqCurve
  | close
  deriving DecidableEq, Repr

namespace SegmentOp

def all : List SegmentOp :=
  [move, line, hline, vline, moveLine, moveLine2, moveLine3, curve, hvCurve, vhCurve, nrCurve,
    rnCurve, vqCurve, hqCurve, close]

def code (op : SegmentOp) : UInt8 := 0xe0 + UInt8.ofNat (all.idxOf op)

/-- The number of fixed-point operands. -/
def arity : SegmentOp → Nat
  | move | line => 2
  | hline | vline => 1
  | moveLine => 4
  | moveLine2 | moveLine3 | curve => 6
  | hvCurve | vhCurve | nrCurve | rnCurve => 4
  | vqCurve | hqCurve => 2
  | close => 0

end SegmentOp

/-- Where the color of a path comes from. -/
inductive ColorSource where
  /-- The band's color one. -/
  | pure
  /-- The current tile and the tile colors. -/
  | halftone
  /-- The last colored halftone. -/
  | colored
  deriving DecidableEq, Repr

/-- Commands that draw the path. -/
inductive PathOp where
  | fill (color : ColorSource)
  | evenOddFill (color : ColorSource)
  | stroke (color : ColorSource)
  deriving DecidableEq, Repr

namespace PathOp

def all : List PathOp :=
  [fill .pure, fill .halftone, fill .colored, evenOddFill .pure, evenOddFill .halftone,
    evenOddFill .colored, stroke .pure, stroke .halftone, stroke .colored]

def code (op : PathOp) : UInt8 := 0xf0 + UInt8.ofNat (all.idxOf op)

end PathOp

/-- What the first byte of a command says; `n` is its low half. -/
inductive Op where
  | control (op : ControlOp)
  | setColor (slot : ColorSlot) (n : UInt8)
  | fillRect (form : RectForm) (n : UInt8)
  | tileRect (form : RectForm) (n : UInt8)
  | copyMono (flags : UInt8)
  | copyDeep (flags : UInt8)
  | tileIndexDifference (n : UInt8)
  | setTileIndex (n : UInt8)
  | state (op : StateOp)
  | segment (op : SegmentOp)
  | path (op : PathOp)
  deriving DecidableEq, Repr

namespace ControlOp

def all : List ControlOp :=
  [endRun, setTileSize, setTilePhase, setTileBits, setBits, setTileColor, setMisc, enableLop,
    disableLop, setHalftoneOrder, setHalftoneData, endPage, colorDifference .zero,
    colorDifference .one, setCopyColor, setCopyAlpha]

end ControlOp

namespace Op

def ofByte? (b : UInt8) : Option Op :=
  let n := b &&& 15
  match (b >>> 4).toNat with
  | 0x0 => ControlOp.all[n.toNat]?.map control
  | 0x1 => some (setColor .zero n)
  | 0x2 => some (setColor .one n)
  | 0x3 => some (fillRect .full n)
  | 0x4 => some (fillRect .short n)
  | 0x5 => some (fillRect .tiny n)
  | 0x6 => some (tileRect .full n)
  | 0x7 => some (tileRect .short n)
  | 0x8 => some (tileRect .tiny n)
  | 0x9 => some (copyMono n)
  | 0xa => some (copyDeep n)
  | 0xb => some (tileIndexDifference n)
  | 0xc => some (setTileIndex n)
  | 0xd => StateOp.all[n.toNat]?.map state
  | 0xe => SegmentOp.all[n.toNat]?.map segment
  | _ => PathOp.all[n.toNat]?.map path

def decode (b : UInt8) (offset : Nat) : Except Error Op :=
  match ofByte? b with
  | some op => .ok op
  | none => .error (.unknownOpcode b offset)

end Op

end BandedPage
