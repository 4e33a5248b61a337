import BandedPage.Command.Basic
import BandedPage.Halftone

/-!
# Sending halftones and transfer maps

A halftone is sent in portions: what it consists of, then each order with its levels and bits. The
components' orders come first, the last one before the others, and the default order at the end,
since its completion is what installs the halftone.
-/

namespace BandedPage.Command

/-- Levels in one command. -/
def levelsPortion : Nat := 24

def bitsPortion : Nat := 12

/-- A list in portions of `n`, the last one shorter if need be. -/
def portions {α : Type} (n : Nat) (items : List α) : List (List α) :=
  (List.range ((items.length + n - 1) / n)).map fun i => (items.drop (i * n)).take n

/-- A portion of levels or bits, each given by its bytes. -/
def halftoneData (items : List (List UInt8)) : Command :=
  Opcode.setHalftoneData :: UInt8.ofNat items.length :: items.flatten

def word (n : Nat) : List UInt8 := Word.littleEndian 4 n

def halftoneOrder (index name : Nat) (order : HalftoneOrder) : List Command :=
  let numbers :=
    [order.width, order.height, order.raster, order.shift, order.levelCount, order.bitCount]
  let head := Opcode.setHalftoneOrder :: (Varint.encode index ++
    (if index = 0 then [] else Varint.encode name) ++ numbers.flatMap Varint.encode)
  let levels := (portions levelsPortion order.levels).map fun ls => halftoneData (ls.map word)
  let bits := (portions bitsPortion order.bits).map fun bs =>
    halftoneData (bs.map fun b => word b.offset ++ word b.mask)
  head :: (levels ++ bits)

def halftone (h : Halftone) : List Command :=
  let head := Opcode.setMisc :: (Opcode.miscHalftone ||| UInt8.ofNat (h.kind % 64)) ::
    Varint.encode h.components.length
  let components := h.components.zipIdx.reverse.flatMap fun (c, i) =>
    halftoneOrder (i + 1) c.name c.order
  head :: (components ++ halftoneOrder 0 0 h.order)

def transferMap (index : Nat) : TransferMap → Command
  | some entries =>
    Opcode.setMisc :: (Opcode.miscTransfer ||| 0x20 ||| UInt8.ofNat index) ::
      entries.flatMap (Word.littleEndian 2)
  | none => [Opcode.setMisc, Opcode.miscTransfer ||| UInt8.ofNat index]

end BandedPage.Command
