import BandedPage.Band.Range
import BandedPage.Compression
import BandedPage.Rect
import BandedPage.Source.Buffered
import BandedPage.Word

/-!
# Page configuration

A page is cut into horizontal bands of equal height, the last one shorter if the page runs out.
`validate` accepts the configurations under which every command fits the buffers it passes
through.
-/

namespace BandedPage

/-- The page and the memory its writer and its replay work in. -/
structure Config where
  width : Int := 612
  height : Int := 792
  bandHeight : Int := 64
  /-- Bits of a device color. -/
  depth : Nat := 8
  /-- Bytes of commands held before they are stored. -/
  bufferSize : Nat := 32 * 1024
  /-- Bytes replay buffers for commands and bitmaps. -/
  readerSize : Nat := 800
  /-- Bytes for cached tiles and bitmaps. -/
  tileBytes : Nat := 32 * 1024
  /-- Slots for cached tiles and bitmaps, a power of two. -/
  tileSlots : Nat := 256
  compression : CompressionSet := { runLength := true, facsimile := true }
  /-- Carry images as images. -/
  images : Bool := true
  /-- Times a refused write is repeated before the page is flushed. -/
  retryBudget : Nat := 1
  deriving DecidableEq, Repr, Inhabited

namespace Config

/-- Powers of two, among which zero does not count. -/
def isPowerOfTwo (n : Nat) : Bool := n != 0 && n &&& (n - 1) == 0

def depths : List Nat := [1, 2, 4, 8, 16, 24, 32]

/-- Refuse a configuration that cannot carry every command. -/
def validate (c : Config) : Except Error Unit := do
  if c.width ≤ 0 || c.height ≤ 0 then throw (.malformed s!"page size {c.width}x{c.height}")
  if c.bandHeight ≤ 0 then throw (.malformed s!"band height {c.bandHeight}")
  if !depths.contains c.depth then throw (.malformed s!"color depth {c.depth}")
  if !isPowerOfTwo c.tileSlots || 4096 < c.tileSlots then
    throw (.malformed s!"tile hash size {c.tileSlots}")
  if c.readerSize < Buffered.lookahead * 2 then
    throw (.malformed s!"reader buffer {c.readerSize} too small")
  if c.bufferSize < c.readerSize + Buffered.lookahead then
    throw (.malformed
      s!"command buffer {c.bufferSize} too small for reader buffer {c.readerSize}")

/-- Bytes of a bitmap that a command can carry with it. -/
def payloadRoom (c : Config) : Nat := c.readerSize - Buffered.lookahead

/-- The number of bands, by exact arithmetic. -/
def nbands (c : Config) : Nat := ((c.height + c.bandHeight - 1).tdiv c.bandHeight).toNat

/-- The number of bands as it is counted. The height of the page and that of a band are added up in
32 bits, and `validate` does not look at their sum. -/
def countBands (c : Config) : Except Error Nat :=
  if Word.fits32 (c.height + c.bandHeight) then .ok c.nbands else .error .uncountable

@[simp] theorem countBands_of_fits {c : Config} (h : Word.fits32 (c.height + c.bandHeight) = true) :
    c.countBands = .ok c.nbands := if_pos h

@[simp] theorem countBands_of_not_fits {c : Config}
    (h : Word.fits32 (c.height + c.bandHeight) = false) : c.countBands = .error .uncountable :=
  if_neg (by simp [h])

def depthBytes (c : Config) : Nat := (c.depth + 7) / 8

def components (c : Config) : Nat :=
  match c.depth with
  | 32 => 4
  | 16 | 24 => 3
  | _ => 1

/-- The band that holds row `y`, the nearest one if the row is off the page. -/
def bandOf (c : Config) (y : Int) : Nat :=
  ((min (max y 0) (c.height - 1)).tdiv c.bandHeight).toNat

def bandRect (c : Config) (band : Nat) : Rect :=
  let top := Word.wrap32 band * c.bandHeight
  .ofCorners 0 top c.width (min (top + c.bandHeight) c.height)

/-- The bands that meet rows `[y, y + height)` of the page. -/
def bandsFor (c : Config) (y height : Int) : Option BandRange :=
  let first := max y 0
  let stop := min (y + height) c.height
  if stop ≤ first then none else some (.between (c.bandOf first) (c.bandOf (stop - 1)))

def allBands (c : Config) : BandRange := .all c.nbands

def pageRect (c : Config) : Rect := .ofCorners 0 0 c.width c.height

/-- The parts of `r` in the bands it meets, in band order. -/
def bandParts (c : Config) (r : Rect) : List (Nat × Rect) :=
  match c.bandsFor r.y1 r.height with
  | none => []
  | some bands =>
    bands.toList.filterMap fun band => (r.intersect (c.bandRect band)).map (band, ·)

end Config

end BandedPage
