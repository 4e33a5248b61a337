import BandedPage.Band.Range
import BandedPage.Tile.Arena

/-!
# The cache of tiles that the writer keeps

Bitmaps lie in a byte arena like the one replay keeps. An entry is found by the bitmap's name in
an open-addressed table and remembers which bands have been sent its bits. When room runs out
the oldest entries leave first; when the free bytes do not lie together the others slide down,
and an entry that moved is forgotten by every band. Half of the arena is the most one bitmap may
take, and three quarters of the table the most entries there can be. What was done to make room
stays done if there is no place in the table in the end.
-/

namespace BandedPage

/-- A cached bitmap. -/
structure TileEntry where
  id : BitmapId
  slot : TileSlot
  /-- Bands that have been sent the bits at their present place. -/
  bands : BandSet
  deriving DecidableEq, Repr

/-- A place in the table. Searching goes on past an entry that left. -/
inductive CacheCell where
  | free
  | vacated
  | used (entry : TileEntry)
  deriving DecidableEq, Repr

namespace CacheCell

def toEntry : CacheCell → Option TileEntry
  | used e => some e
  | _ => none

/-- Change the entry, if there is one. -/
def mapEntry (f : TileEntry → TileEntry) : CacheCell → CacheCell
  | used e => used (f e)
  | c => c

end CacheCell

/-- Where a bitmap was found, or put. -/
inductive CacheLookup where
  | found (index : Nat)
  | added (index : Nat)
  deriving DecidableEq, Repr

namespace CacheLookup

def index : CacheLookup → Nat
  | found i | added i => i

end CacheLookup

/-- The writer's tiles. -/
structure TileCache where
  table : Array CacheCell
  heap : Bytes
  /-- First byte above every entry. -/
  top : Nat := 0
  /-- Number of entries. -/
  count : Nat := 0
  /-- Indices of the entries, oldest first. -/
  queue : List Nat := []
  /-- Bands of the page. -/
  nbands : Nat

namespace TileCache

/-- Distance between the places where a name is looked for. It is odd, so that in a table whose
size is a power of two every place is reached. -/
def probeStep : Nat := 413

def empty (bytes slots nbands : Nat) : TileCache :=
  { table := Array.replicate slots .free, heap := Array.replicate bytes 0, nbands }

def reset (c : TileCache) : TileCache :=
  { c with table := Array.replicate c.table.size .free, top := 0, count := 0, queue := [] }

/-- The most bytes one bitmap may take. -/
def maxTileSize (c : TileCache) : Nat := c.heap.size / 2

/-- The bits of a number that make a place in the table. -/
def mask (c : TileCache) : Nat := c.table.size - 1

/-- The place to look for `id` in step `k`. -/
def probe (c : TileCache) (id : BitmapId) (k : Nat) : Nat :=
  ((id.toNat &&& c.mask) + k * probeStep) &&& c.mask

def entryAt (c : TileCache) (index : Nat) : Option TileEntry := c.table[index]?.bind (·.toEntry)

/-- Look for `id` in the last `n` steps. -/
def findFrom (c : TileCache) (id : BitmapId) : Nat → Option Nat
  | 0 => none
  | n + 1 =>
    let i := c.probe id (c.table.size - (n + 1))
    match c.table[i]? with
    | some .free => none
    | some (.used e) => if e.id = id then some i else findFrom c id n
    | _ => findFrom c id n

def find? (c : TileCache) (id : BitmapId) : Option Nat := c.findFrom id c.table.size

def bits? (c : TileCache) (index : Nat) : Option Bytes :=
  (c.entryAt index).map fun e =>
    c.heap.extract e.slot.offset (e.slot.offset + e.slot.size.dataSize)

/-- The band has been sent the bits of the entry at `index`. -/
def bandHas (c : TileCache) (index band : Nat) : Bool :=
  match c.entryAt index with
  | some e => e.bands.contains band
  | none => false

def modifyEntry (c : TileCache) (index : Nat) (f : TileEntry → TileEntry) : TileCache :=
  { c with table := c.table.modify index (·.mapEntry f) }

/-- Remember that the band has been sent the bits of the entry at `index`. -/
def markBand (c : TileCache) (index band : Nat) : TileCache :=
  c.modifyEntry index fun e => { e with bands := e.bands.insert band }

/-- Forget what the bands have been sent. -/
def forgetBands (c : TileCache) : TileCache :=
  { c with table := c.table.map (·.mapEntry fun e => { e with bands := e.bands.clear }) }

def entries (c : TileCache) : List (Nat × TileEntry) :=
  c.table.toList.zipIdx.filterMap fun (cell, i) => cell.toEntry.map (i, ·)

def liveBytes (c : TileCache) : Nat :=
  c.entries.foldl (fun n (_, e) => n + e.slot.size.dataSize) 0

def freeBytes (c : TileCache) : Nat := c.heap.size - c.liveBytes

def evict (c : TileCache) (index : Nat) : TileCache :=
  match c.entryAt index with
  | some _ => { c with table := c.table.setIfInBounds index .vacated, count := c.count - 1 }
  | none => c

/-- There is room for one more entry, of `need` bytes. -/
def hasRoom (c : TileCache) (need : Nat) : Bool :=
  c.count + 1 ≤ c.table.size * 3 / 4 && need ≤ c.freeBytes

/-- Remove entries in the order of `queue` until there is room for `need` bytes; what is left of
`queue` stays. -/
def makeRoomFrom (need : Nat) : List Nat → TileCache → TileCache
  | [], c => { c with queue := [] }
  | i :: queue, c =>
    if c.hasRoom need then { c with queue := i :: queue } else makeRoomFrom need queue (c.evict i)

/-- Remove the oldest entries until there is room for `need` bytes. -/
def makeRoom (c : TileCache) (need : Nat) : TileCache := makeRoomFrom need c.queue c

/-- Move the entry at `index` down to `c.top`, unless it is there; the flag says that it moved. -/
def slideDown (c : TileCache) (index : Nat) : TileCache × Bool :=
  match c.entryAt index with
  | none => (c, false)
  | some e =>
    let n := e.slot.size.dataSize
    if e.slot.offset = c.top then ({ c with top := c.top + n }, false)
    else
      let bits := (c.heap.extract e.slot.offset (e.slot.offset + n)).toList
      let moved := c.modifyEntry index fun e =>
        { e with slot := { e.slot with offset := c.top }, bands := e.bands.clear }
      ({ moved with heap := Bits.overwrite c.heap c.top bits, top := c.top + n }, true)

/-- Slide all entries down, lowest first, and count those that moved. -/
def compact (c : TileCache) : TileCache × Nat :=
  let live := c.entries.mergeSort fun (_, a) (_, b) => a.slot.offset ≤ b.slot.offset
  live.foldl (fun (c, count) (i, _) =>
    let (c, moved) := c.slideDown i
    (c, if moved then count + 1 else count)) ({ c with top := 0 }, 0)

/-- The first place in the last `n` steps without an entry. -/
def vacancyFrom (c : TileCache) (id : BitmapId) : Nat → Option Nat
  | 0 => none
  | n + 1 =>
    let i := c.probe id (c.table.size - (n + 1))
    match c.entryAt i with
    | some _ => vacancyFrom c id n
    | none => some i

/-- Let the bytes above every entry lie together if they are less than `need`. -/
def gather (c : TileCache) (need : Nat) : TileCache :=
  if c.heap.size < c.top + need then c.compact.1 else c

/-- Put bytes above every entry. -/
def place (c : TileCache) (bits : Bytes) : TileCache :=
  { c with heap := Bits.overwrite c.heap c.top bits.toList, top := c.top + bits.size }

/-- Give the entry at `index` to a bitmap, which no band has been sent. -/
def enter (c : TileCache) (index : Nat) (id : BitmapId) (slot : TileSlot) : TileCache :=
  { c with
    table := c.table.setIfInBounds index (.used { id, slot, bands := .empty c.nbands })
    count := c.count + 1
    queue := c.queue ++ [index] }

/-- Find the bitmap named `id`, or add `bits` under that name. -/
def lookupOrAdd (id : BitmapId) (size : TileSize) (bits : Bytes) :
    EStateM Error TileCache CacheLookup := do
  let c ← get
  match c.find? id with
  | some i => return .found i
  | none =>
    let need := size.dataSize
    if c.maxTileSize < need || bits.size < need then throw (.bitmapTooLarge need c.maxTileSize)
    modify (·.makeRoom need)
    let c ← get
    if !c.hasRoom need then throw (.bitmapTooLarge need c.freeBytes)
    let c := c.gather need
    let offset := c.top
    let c := c.place (bits.extract 0 need)
    set c
    match c.vacancyFrom id c.table.size with
    | none => throw (.malformed "tile index table full")
    | some index =>
      set (c.enter index id { offset, size })
      return .added index

end TileCache

end BandedPage
