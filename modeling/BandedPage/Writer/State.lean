import BandedPage.Band.Range
import BandedPage.Band.State
import BandedPage.Clip
import BandedPage.Config
import BandedPage.Drawing
import BandedPage.Halftone
import BandedPage.Image
import BandedPage.Imager.Change
import BandedPage.Tile.Cache
import BandedPage.Writer.Buffer

/-!
# The state of a writer

What the bands have been told, what is to be told to them again after the page had to be emptied,
and the image that is being written. The operations here change what the writer takes for current
and forget what bands know of it.

A writer asks before it holds commands. When it is refused memory it first lets the renderer free
some, and then has the partial page rendered, so that its store can be emptied.
-/

namespace BandedPage

/-- How a writer gets memory. -/
class MemoryPolicy (μ ν : Type) where
  /-- Ask for room for so many bytes. -/
  reserve (_bytes : Nat) : EStateM Error ν Unit := pure ()
  /-- Wait until memory is freed; the flag says whether any was. -/
  freeUp : ν → Bool × ν := fun memory => (false, memory)
  /-- Render the partial page in a store that is about to be emptied. -/
  renderPartialPage (_store : BandStore μ) : EStateM Error ν Unit := pure ()

/-- Memory without a limit. -/
structure Unlimited where
  deriving DecidableEq, Repr

instance {μ : Type} : MemoryPolicy μ Unlimited where

/-- An image between its beginning and its end. -/
structure OpenImage where
  header : ImageHeader
  space : ColorSpace
  color : DrawingColor
  clip : Option ClipPath
  state : ImagerState
  /-- The bands the image touches; none if it misses the page. -/
  bands : Option BandRange
  /-- Bands in which the image has begun. -/
  started : BandSet
  /-- Rows that all bands have been sent. -/
  rowsSent : Nat := 0

/-- Everything a band operation works on; `ν` is how memory is got. -/
structure WriterState (μ ν : Type) where
  config : Config
  buffer : CommandBuffer μ
  memory : ν
  /-- What each band knows. -/
  bands : Array BandState
  tiles : TileCache
  /-- The geometry of tiles last announced to all bands. -/
  tileSize : Option TileSize := none
  /-- The imager state that bands are sent. -/
  imager : ImagerState := {}
  /-- The clip that bands are sent. -/
  clipId : Option UInt64 := none
  colorSpace : ColorSpace := {}
  /-- Parameters, halftone and transfer maps are sent again to an emptied page. -/
  params : Option (List UInt8) := none
  halftone : Option Halftone := none
  transfers : Array (Option TransferMap) := Array.replicate transferMapCount none
  image : Option OpenImage := none

/-- A band operation. What it did before it failed stays done. -/
abbrev WriteM (μ ν α : Type) := EStateM Error (WriterState μ ν) α

namespace WriterState

variable {μ ν : Type}

def fresh (config : Config) (store : BandStore μ) (memory : ν) : WriterState μ ν :=
  { config, memory
    buffer := .empty store config.bufferSize config.nbands
    bands := Array.replicate config.nbands {}
    tiles := .empty config.tileBytes config.tileSlots config.nbands }

def onBuffer {α : Type} (m : BufferM μ α) : WriteM μ ν α := fun s =>
  match m s.buffer with
  | .ok a buffer => .ok a { s with buffer }
  | .error e buffer => .error e { s with buffer }

def onMemory {α : Type} (m : EStateM Error ν α) : WriteM μ ν α := fun s =>
  match m s.memory with
  | .ok a memory => .ok a { s with memory }
  | .error e memory => .error e { s with memory }

def onTiles {α : Type} (m : EStateM Error TileCache α) : WriteM μ ν α := fun s =>
  match m s.tiles with
  | .ok a tiles => .ok a { s with tiles }
  | .error e tiles => .error e { s with tiles }

/-- What a band knows. -/
def band (s : WriterState μ ν) (band : Nat) : BandState := s.bands.getD band {}

def forget (s : WriterState μ ν) (fields : FieldSet) : WriterState μ ν :=
  { s with bands := s.bands.map (·.forget fields) }

/-- Forget what bands know, and the tiles. -/
def resetPage (s : WriterState μ ν) : WriterState μ ν :=
  { s with
    bands := s.bands.map fun _ => {}
    buffer := s.buffer.discard
    tiles := s.tiles.reset
    tileSize := none
    clipId := none
    image := s.image.map fun im => { im with started := im.started.clear } }

def useClip (s : WriterState μ ν) (clip : Option ClipPath) : WriterState μ ν :=
  match clip with
  | none => s
  | some c =>
    if s.clipId = some c.id then s else { s with clipId := some c.id }.forget (.singleton .clip)

def useColorSpace (s : WriterState μ ν) (cs : ColorSpace) : WriterState μ ν :=
  if s.colorSpace = cs then s else { s with colorSpace := cs }.forget (.singleton .colorSpace)

/-- Refuse a dash pattern that no command carries. -/
def checkDash (d : Dash) : Except Error Unit := do
  let n := d.pattern.length
  if Dash.maxLength < n then
    throw (.malformed s!"dash pattern of {n} elements, at most {Dash.maxLength}")

/-- Take those of some fields over that differ; the answer is which did. -/
def adoptFields (new : ImagerState) : List StateField → WriteM μ ν FieldSet
  | [] => return ∅
  | f :: fields => do
    if (← get).imager.differs new f then
      if f = .dash then checkDash new.dash
      modify fun s => { s with imager := s.imager.withField new f }
      return (← adoptFields new fields).insert f
    else adoptFields new fields

/-- Make the selected fields of an imager state current, and its logical operation. Bands forget
what changed; after a dash pattern that is too long they forget nothing. -/
def updateImager (new : ImagerState) (selected : FieldSet) : WriteM μ ν Unit := do
  let changed ← adoptFields new (StateField.all.filter selected.contains)
  modify fun s => { s with imager := { s.imager with logOp := new.logOp } }.forget changed

variable [Medium μ] [MemoryPolicy μ ν]

/-- Hold commands for somebody, if there is memory for them. -/
def putBatch (whom : Addressee) (batch : List Command) : WriteM μ ν Unit := do
  if !batch.isEmpty then
    onMemory (MemoryPolicy.reserve μ batch.flatten.length)
    onBuffer (CommandBuffer.append whom batch)

def putAllBands (batch : List Command) : WriteM μ ν Unit := do
  putBatch (.range (← get).config.allBands) batch

end WriterState

end BandedPage
