import BandedPage.Bits.Payload
import BandedPage.Command.Basic
import BandedPage.Rect
import BandedPage.Tile.Arena

/-!
# Copy commands

A bitmap is copied from the cache of tiles, where its bits are stored first, or follows the command
that copies it.
-/

namespace BandedPage

/-- What the pixels of a copied bitmap stand for. -/
inductive CopyPaint where
  /-- A bit chooses between two colors. -/
  | mono (colors : ColorPair)
  /-- A pixel is a color. -/
  | deep
  /-- A pixel of so many bits says how much of it `color` covers. -/
  | coverage (color : Color) (depth : Nat)
  /-- A bit lets a tile through. -/
  | halftone (tile : Tile) (colors : ColorPair) (phase : Phase)
  deriving DecidableEq, Repr

namespace CopyPaint

/-- Bits of a pixel on a device of the given depth. -/
def depth (paint : CopyPaint) (deviceDepth : Nat) : Nat :=
  match paint with
  | mono _ | halftone _ _ _ => 1
  | deep => deviceDepth
  | coverage _ depth => depth

/-- The methods that can compress such pixels. -/
def methods (paint : CopyPaint) (allowed : CompressionSet) : CompressionSet :=
  match paint with
  | mono _ | halftone _ _ _ => allowed
  | deep | coverage _ _ => allowed.forDeepPixels

def code : CopyPaint → UInt8
  | mono _ => Opcode.copyMono
  | halftone _ _ _ => Opcode.copyMono ||| Opcode.copyWithTileColor
  | deep | coverage _ _ => Opcode.copyDeep

end CopyPaint

namespace Command

def copyHead (paint : CopyPaint) (flags : UInt8) : List UInt8 :=
  (paint.code ||| flags) :: match paint with
    | .coverage _ depth => [UInt8.ofNat depth]
    | _ => []

/-- Copy the selected tile to `(x, y)`. -/
def copyCached (paint : CopyPaint) (x y : Int) : Command :=
  copyHead paint Opcode.copyFromTile ++ Varint.encodeInt x ++ Varint.encodeInt y

def copyInline (paint : CopyPaint) (r : SizedRect) (payload : Payload) : Command :=
  copyHead paint payload.compression.code ++ Varint.encodeInt r.x ++ Varint.encodeInt r.y ++
    Varint.encodeInt r.width ++ Varint.encodeInt r.height ++ payload.data

/-- Store a bitmap among the tiles and select it. Of the offset the low 32 bits count. -/
def bitmapBits (slot : TileSlot) (index : Nat) (payload : Payload) : Command :=
  Opcode.setBits :: (UInt8.ofNat (slot.size.depth * 4) ||| payload.compression.code) ::
    (Varint.encode slot.size.repWidth ++ Varint.encode slot.size.repHeight ++
      Varint.encode index ++ Varint.encode (slot.offset % 4294967296) ++ payload.data)

end Command

end BandedPage
