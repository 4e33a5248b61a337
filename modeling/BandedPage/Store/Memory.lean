import BandedPage.Bits.Basic

/-!
# Storage media

A medium holds bytes at positions. Writing past its end fills the gap with zeros. An operation
may fail, with a text that says why; then the medium is as it was.

A medium in memory has its bytes in an array. Any kind of operation can be made to fail there, and
writes can be made to get lost without a word, so that what depends on a medium can be tried with a
broken one.
-/

namespace BandedPage

/-- Something that stores bytes. -/
class Medium (μ : Type) where
  /-- Put bytes at a position. -/
  writeAt : μ → Nat → List UInt8 → Except String μ
  /-- The bytes at a position, at most so many; fewer only at the end. -/
  readAt : μ → Nat → Nat → Except String (List UInt8)
  /-- Discard everything. -/
  truncate : μ → Except String μ
  /-- The number of bytes stored. -/
  size : μ → Nat

/-- What is broken about a medium. -/
structure Faults where
  /-- Every write fails. -/
  write : Bool := false
  /-- Every read fails. -/
  read : Bool := false
  /-- Discarding the content fails. -/
  truncate : Bool := false
  /-- Writes succeed and store nothing. -/
  lose : Bool := false
  deriving DecidableEq, Repr, Inhabited

/-- Bytes in memory. -/
structure MemoryMedium where
  bytes : Bytes := #[]
  faults : Faults := {}
  deriving DecidableEq, Repr, Inhabited

namespace MemoryMedium

/-- The content after a write, the gap before it filled with zeros. -/
def written (bytes : Bytes) (position : Nat) (data : List UInt8) : Bytes :=
  Bits.overwrite (bytes ++ Array.replicate (position + data.length - bytes.size) 0) position data

def writeAt (m : MemoryMedium) (position : Nat) (data : List UInt8) :
    Except String MemoryMedium :=
  if m.faults.write then .error "disk full"
  else if m.faults.lose then .ok m
  else .ok { m with bytes := written m.bytes position data }

def readAt (m : MemoryMedium) (position n : Nat) : Except String (List UInt8) :=
  if m.faults.read then .error "read failed"
  else .ok (m.bytes.extract position (position + n)).toList

def truncate (m : MemoryMedium) : Except String MemoryMedium :=
  if m.faults.truncate then .error "truncate failed" else .ok { m with bytes := #[] }

instance : Medium MemoryMedium where
  writeAt := writeAt
  readAt := readAt
  truncate := truncate
  size m := m.bytes.size

end MemoryMedium

end BandedPage
