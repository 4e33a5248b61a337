import BandedPage.Opcode
import BandedPage.Operand.Color
import BandedPage.Operand.Number
import BandedPage.Tile.Basic

/-!
# Commands and their operands

The bytes of the commands that set up a band: colors come from `Operand.Color`, rectangles from
`Operand.Rect`, the fields of the imager state from `Command.Imager`.
-/

namespace BandedPage

/-- The bytes of one command. -/
abbrev Command := List UInt8

namespace Command

def lop (op : LogicalOp) : Command :=
  Opcode.setMisc :: (Opcode.miscLop ||| (op &&& 0x3f).toUInt8) :: Varint.encode (op >>> 6).toNat

def lopSwitch (on : Bool) : Command := [if on then Opcode.enableLop else Opcode.disableLop]

/-- Let copies carry coverage, or colors. -/
def copyMode (alpha : Bool) : Command :=
  [if alpha then Opcode.setCopyAlpha else Opcode.setCopyColor]

/-- First pixel of the rows of the next copy, within its byte. -/
def dataX (shift : Nat) : Command := [Opcode.setMisc, Opcode.miscDataX ||| UInt8.ofNat shift]

def tilePhase (phase : Phase) : Command :=
  Opcode.setTilePhase :: (Varint.encodeInt phase.x ++ Varint.encodeInt phase.y)

/-- Select tile `index` where `last` is selected. -/
def tileIndex (index last : Nat) : Command :=
  let difference : Int := index - last
  if -8 ≤ difference && difference < 8 then
    [Opcode.tileIndexDifference + Word.byte (difference + 8)]
  else [Opcode.setTileIndex + UInt8.ofNat (index / 256), UInt8.ofNat index]

/-- A number that is sent only if it is not `usual`. -/
def unlessUsual (n usual : Nat) : List UInt8 := if n = usual then [] else Varint.encode n

/-- Announce the geometry of tiles. Numbers of copies below two are the same as one. -/
def tileSize (s : TileSize) : Command :=
  let xReps := max s.xReps 1
  let yReps := max s.yReps 1
  let flags := (s.depth + 31) % 32 + (if xReps = 1 then 0 else 0x20) +
    (if yReps = 1 then 0 else 0x40) + (if s.repShift = 0 then 0 else 0x80)
  Opcode.setTileSize :: UInt8.ofNat flags :: (Varint.encode s.repWidth ++
    Varint.encode s.repHeight ++ unlessUsual xReps 1 ++ unlessUsual yReps 1 ++
    unlessUsual s.repShift 0)

/-- Store the bits of a tile of the announced geometry. Of the offset the low 32 bits count. -/
def tileBits (index offset : Nat) (bits : List UInt8) : Command :=
  Opcode.setTileBits :: (Varint.encode index ++ Varint.encode (offset % 4294967296) ++ bits)

/-- Begin to collect a clip from the rectangles to come. -/
def beginClip : Command := [StateOp.beginClip.code]

/-- The rectangles since the clip's beginning are what drawing is kept inside or outside of. -/
def endClip (outside : Bool) : Command := [StateOp.endClip.code, outside.toUInt8]

def clipSwitch (on : Bool) : Command :=
  [if on then StateOp.enableClip.code else StateOp.disableClip.code]

def color (slot : ColorSlot) (color last : Color) (depth : Nat) : Command :=
  ColorCommand.encode slot color last depth

def tileColor (slot : ColorSlot) (color last : Color) (depth : Nat) : Command :=
  Opcode.setTileColor :: ColorCommand.encode slot color last depth

/-- A base level takes more than one bit. -/
def hasWideBase (bases : List UInt8) : Bool := bases.any fun b => b &&& 0x1e != 0

/-- Base levels of one bit, in one byte. -/
def narrowBases (bases : List UInt8) : UInt8 := bases.foldl (fun bits b => (bits <<< 1) ||| b) 0

/-- Four base levels. Those of one bit share a byte, larger ones take five bits each. -/
def packedBases (bases : List UInt8) : List UInt8 :=
  if hasWideBase bases then
    let word : Nat := bases.foldl (fun word b => word * 32 + b.toNat % 32) 0
    UInt8.ofNat (0x10 + (word >>> 16)) :: Word.bigEndian 2 word
  else [narrowBases bases]

def colored (bases : List UInt8) (levels : List Nat) : Command :=
  StateOp.setColor.code :: (packedBases bases ++ levels.flatMap Varint.encode)

def params (bytes : List UInt8) : Command :=
  StateOp.putParams.code :: (Word.littleEndian 4 bytes.length ++ bytes)

def path (op : PathOp) : Command := [op.code]

def imageData (rows raster : Nat) (data : List UInt8) : Command :=
  StateOp.imageData.code :: (Varint.encode rows ++ Varint.encode raster ++ data)

def imageEnd : Command := StateOp.imageData.code :: Varint.encode 0

end Command

end BandedPage
