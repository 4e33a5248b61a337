import BandedPage.Error
import BandedPage.Tile.Basic

/-!
# The arena of tiles that replay keeps

Tile bits lie at given places of a byte arena and are named by an index. What is stored over a
tile replaces its bits, whatever the index says.
-/

namespace BandedPage

/-- Where a tile lies, and its geometry. -/
structure TileSlot where
  offset : Nat
  size : TileSize
  deriving DecidableEq, Repr

/-- Tile bits addressed by index. -/
structure TileArena where
  heap : Bytes
  table : Array (Option TileSlot)

namespace TileArena

def empty (bytes slots : Nat) : TileArena :=
  { heap := Array.replicate bytes 0, table := Array.replicate slots none }

/-- Forget every tile, though not the bits. -/
def clear (a : TileArena) : TileArena :=
  { a with table := Array.replicate a.table.size none }

/-- Put `bits` at `offset` and name them. -/
def store (a : TileArena) (index offset : Nat) (size : TileSize) (bits : Bytes) :
    Except Error TileArena := do
  if a.table.size ≤ index then throw (.malformed s!"tile index {index} out of range")
  if bits.size < size.dataSize then
    let missing := size.dataSize - bits.size
    throw (.malformed s!"tile bits {missing} bytes short")
  let stop := offset + bits.size
  if a.heap.size < stop then throw (.malformed s!"tile at {offset}..{stop} past the arena")
  return {
    heap := Bits.overwrite a.heap offset bits.toList
    table := a.table.setIfInBounds index (some { offset, size }) }

def slot? (a : TileArena) (index : Nat) : Option TileSlot := a.table[index]?.join

/-- The tile named by `index`, with the bits that now lie at its place. -/
def tile (a : TileArena) (index : Nat) : Except Error Tile :=
  match a.slot? index with
  | none => .error (.malformed s!"tile index {index} used before its bits")
  | some slot =>
    .ok { id := UInt64.ofNat index, size := slot.size
          data := a.heap.extract slot.offset (slot.offset + slot.size.dataSize) }

end TileArena

end BandedPage
