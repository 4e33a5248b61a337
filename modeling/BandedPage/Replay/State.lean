import BandedPage.Band.State
import BandedPage.Config
import BandedPage.Replay.Pen
import BandedPage.Target.Basic
import BandedPage.Tile.Arena

/-!
# The state of a replay

Every band is replayed from a fresh state, on a source of command bytes and a target. The three
are kept side by side, so that a step names the part it works on: decoding works on the source,
drawing on the target.
-/

namespace BandedPage

/-- A halftone whose orders are still arriving. -/
structure HalftoneAssembly where
  halftone : Halftone
  /-- The order that data belongs to. -/
  index : Nat := 0
  deriving DecidableEq, Repr

/-- What the commands of a band have set up. -/
structure ReplayState where
  config : Config
  band : BandState := {}
  imager : ImagerState := {}
  colorSpace : ColorSpace := {}
  tiles : TileArena
  /-- The geometry of the tiles to come. -/
  tileSize : TileSize := {}
  /-- The last colored halftone. -/
  colored : Option DrawingColor := none
  /-- First pixel of the rows of the next copy. -/
  dataX : Nat := 0
  halftone : Option HalftoneAssembly := none
  /-- The clip, unless it leaves the whole band visible. -/
  clip : Option ClipRegion := none
  /-- Rectangles are being collected for a clip. -/
  collector : Option ClipCollector := none
  image : Option (ImageHeader × ColorSpace) := none
  pen : Pen := {}

namespace ReplayState

def fresh (config : Config) : ReplayState :=
  { config, tiles := .empty config.tileBytes config.tileSlots }

def activeClip (s : ReplayState) : Option ClipRegion := if s.band.clipEnabled then s.clip else none

/-- The visible parts of `r` within `box`. -/
def visible (s : ReplayState) (box r : Rect) : List Rect :=
  match r.intersect box with
  | none => []
  | some r =>
    match s.activeClip with
    | some clip => clip.intersections r
    | none => [r]

def tile (s : ReplayState) : Except Error Tile := s.tiles.tile s.band.tileIndex

def halftoneColor (s : ReplayState) : Except Error DrawingColor := do
  return .halftone (← s.tile) s.band.tileColors s.band.tilePhase

/-- The band has been told the field. -/
def learn (s : ReplayState) (field : StateField) : ReplayState :=
  { s with band := { s.band with known := s.band.known.insert field } }

end ReplayState

/-- A band being replayed from a source onto a target. -/
structure Playback (σ τ : Type) where
  source : σ
  target : τ
  state : ReplayState

/-- A step of a replay. What it did before it failed stays done. -/
abbrev ReplayM (σ τ α : Type) := EStateM Error (Playback σ τ) α

namespace Replay

variable {σ τ : Type}

def read {α : Type} (decoder : Decoder σ α) : ReplayM σ τ α := fun ⟨source, target, state⟩ =>
  match decoder source with
  | .ok a source => .ok a ⟨source, target, state⟩
  | .error e source => .error e ⟨source, target, state⟩

def draw (call : DrawM τ Unit) : ReplayM σ τ Unit := fun ⟨source, target, state⟩ =>
  match call target with
  | .ok _ target => .ok () ⟨source, target, state⟩
  | .error e target => .error e ⟨source, target, state⟩

def getState : ReplayM σ τ ReplayState := fun p => .ok p.state p

def modifyState (f : ReplayState → ReplayState) : ReplayM σ τ Unit :=
  modify fun p => { p with state := f p.state }

def modifyBand (f : BandState → BandState) : ReplayM σ τ Unit :=
  modifyState fun s => { s with band := f s.band }

/-- The area that may be drawn in. -/
def clipBox [Target τ] : ReplayM σ τ Rect := fun p => .ok (Target.clipBox p.target) p

end Replay

end BandedPage
