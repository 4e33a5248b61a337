import BandedPage.Single
import BandedPage.Source.Basic

/-!
# Numbers in a command stream

Counts travel as variable-length integers, seven bits a byte, low group first, with the high
bit set on every byte but the last. A signed value travels as its 32-bit pattern. Everything
of fixed width is least significant byte first.
-/

namespace BandedPage

namespace Varint

def encode (v : Nat) : List UInt8 :=
  if v < 128 then [UInt8.ofNat v] else UInt8.ofNat (v % 128 + 128) :: encode (v / 128)
termination_by v

def size (v : Nat) : Nat := if v < 128 then 1 else size (v / 128) + 1
termination_by v

def encodeInt (v : Int) : List UInt8 := encode (Word.pattern32 v)

variable {σ : Type} [ByteSource σ]

/-- Up to `groups` more groups, the first weighing `weight`. The value keeps 32 bits. -/
def decodeGroups : Nat → Nat → Nat → Decoder σ Nat
  | 0, _, _ => do
    let _ ← nextByte
    throw (.malformed "variable-length integer longer than 5 bytes")
  | groups + 1, weight, value => do
    let b := (← nextByte).toNat
    let value := value + b % 128 * weight
    if b < 128 then return value % 4294967296
    else decodeGroups groups (weight * 128) value

/-- A variable-length integer of at most five bytes. -/
def decode : Decoder σ Nat := decodeGroups 5 1 0

/-- A signed variable-length integer. -/
def decodeInt : Decoder σ Int := do
  return Word.wrap32 (← decode)

end Varint

namespace Operand

variable {σ : Type} [ByteSource σ]

def natural (n : Nat) : Decoder σ Nat := do
  return Word.ofLittleEndian (← ByteSource.take n)

def integer : Decoder σ Int := do
  return Word.wrap32 (← natural 4)

def single : Decoder σ Single := do
  return Single.ofBytes (← ByteSource.take 4)

/-- `n` operands of one kind. -/
def many {α : Type} (operand : Decoder σ α) : Nat → Decoder σ (List α)
  | 0 => return []
  | n + 1 => do
    let a ← operand
    let rest ← many operand n
    return a :: rest

def ofInteger (v : Int) : List UInt8 := Word.littleEndian 4 (Word.pattern32 v)

end Operand

end BandedPage
