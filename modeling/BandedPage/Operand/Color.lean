import BandedPage.Opcode
import BandedPage.Operand.Number

/-!
# Color commands

A color is given by its difference to the slot's last one if every component differs by little,
and in full otherwise. To pack a difference, half of the range of each component is added to it,
so that small differences of either sign become small numbers, and only the low bits of each
component are kept. A packed difference of twelve bits has its first four in the code, where 0
stands for a color in full and 15 for no color; one of sixteen bits has a code of its own. At 8
bits and below the difference itself is in the code. Nothing is written for a color that is
already set.
-/

namespace BandedPage.ColorCommand

def bytesAt (depth : Nat) : Nat := (depth + 7) / 8

/-- Bits kept of each component of a difference, last component first. -/
abbrev Packing := List Nat

namespace Packing

/-- Four components in twelve bits, and in sixteen. -/
def near4 : Packing := [3, 3, 3, 3]
def wide4 : Packing := [4, 4, 4, 4]

/-- Three components in twelve bits, and in sixteen. -/
def near3 : Packing := [4, 4, 4]
def wide3 : Packing := [5, 6, 5]

/-- Half of the range of each component. -/
def bias : Packing → Nat
  | [] => 0
  | w :: ws => (1 <<< (w - 1)) + 256 * bias ws

/-- The kept bits of a color, if it has no others. -/
def pack? : Packing → Nat → Option Nat
  | [], v => if v = 0 then some 0 else none
  | w :: ws, v =>
    if v % 256 < (1 <<< w) then (pack? ws (v / 256)).map fun n => (n <<< w) + v % 256 else none

def unpack : Packing → Nat → Nat
  | [], _ => 0
  | w :: ws, n => n % (1 <<< w) + 256 * unpack ws (n >>> w)

/-- The packed difference from `last` to `color`, if every component differs by little. -/
def difference? (p : Packing) (color last : Color) : Option Nat :=
  p.pack? (color - last + UInt64.ofNat p.bias).toNat

/-- The color at a packed difference from `last`. -/
def apply (p : Packing) (last : Color) (packed : Nat) : Color :=
  last + UInt64.ofNat (p.unpack packed) - UInt64.ofNat p.bias

end Packing

/-- The packings for colors of `n` bytes, twelve bits and sixteen. -/
def packings (n : Nat) : Option (Packing × Packing) :=
  match n with
  | 4 => some (.near4, .wide4)
  | 3 => some (.near3, .wide3)
  | _ => none

/-- A packed difference that can have its first bits in the code. -/
def fitsCode (packed : Nat) : Bool := packed / 256 != 0 && packed / 256 != 15

/-- The command that changes `slot` from `last` to `color`; none if nothing changes. -/
def encode (slot : ColorSlot) (color last : Color) (depth : Nat) : List UInt8 :=
  let op := Opcode.setColor slot
  let inFull := op :: Word.bigEndian (bytesAt depth) color.toNat
  if color == last then []
  else if color == noColor then [op + Opcode.noColorNibble]
  else match packings (bytesAt depth) with
    | some (near, wide) =>
      match (near.difference? color last).filter fitsCode with
      | some packed => [op + UInt8.ofNat (packed / 256), UInt8.ofNat packed]
      | none =>
        match wide.difference? color last with
        | some packed => Opcode.colorDifference slot :: Word.bigEndian 2 packed
        | none => inFull
    | none =>
      if bytesAt depth = 2 then inFull
      else
        let difference := color - last
        if difference + 7 < 14 then [op + (difference + 8).toUInt8] else [op, color.toUInt8]

variable {σ : Type} [ByteSource σ]

def decodeFull (depth : Nat) : Decoder σ Color := do
  let bytes ← nextBytes (bytesAt depth)
  return UInt64.ofNat (Word.ofBigEndian bytes)

/-- The color of a command with low half `n`, for a slot that held `last`. -/
def decode (n : UInt8) (last : Color) (depth : Nat) : Decoder σ Color := do
  if n = Opcode.noColorNibble then return noColor
  else if n = 0 then decodeFull depth
  else match packings (bytesAt depth) with
    | some (near, _) =>
      let b ← nextByte
      return near.apply last (n.toNat * 256 + b.toNat)
    | none =>
      if bytesAt depth = 2 then decodeFull depth else return last + n.toUInt64 - 8

/-- The color of a two-byte difference, for a slot that held `last`. -/
def decodeDifference (last : Color) (depth : Nat) : Decoder σ Color := do
  let packed := Word.ofBigEndian (← nextBytes 2)
  let wide := if 24 < depth then Packing.wide4 else .wide3
  return wide.apply last packed

end BandedPage.ColorCommand
