import BandedPage.Replay.Command
import BandedPage.Store.Feed

/-!
# Replaying pages

A replayer draws bands on a target, from a band store or from commands in memory. It remembers how
the last band ended and what the band had been told.
-/

namespace BandedPage

/-- How the last replay ended. -/
inductive ReplayProgress where
  /-- Nothing was replayed. -/
  | fresh
  | endOfPage
  /-- The replay stopped before the end of the page. -/
  | stopped
  deriving DecidableEq, Repr, Inhabited

/-- Replays the bands of pages. -/
structure Replayer (τ : Type) where
  config : Config
  target : τ
  progress : ReplayProgress := .fresh
  /-- What the last band was told of the imager state. -/
  known : FieldSet := ∅

/-- An operation of a replayer. What it drew before it failed stays drawn. -/
abbrev ReplayerM (τ α : Type) := EStateM Error (Replayer τ) α

namespace Replayer

variable {τ : Type}

def ofConfig (config : Config) (target : τ) : Except Error (Replayer τ) := do
  config.validate
  return { config, target }

variable [Target τ]

def play {σ : Type} [ByteSource σ] (band : Nat) (source : σ) : ReplayerM τ Unit := fun r =>
  match Target.beginBand band (r.config.bandRect band) r.target with
  | .error e target => .error e { r with target }
  | .ok () target =>
    match Replay.run { source, target, state := .fresh r.config } with
    | .ok () p =>
      .ok () { r with target := p.target, progress := .endOfPage, known := p.state.band.known }
    | .error e p =>
      .error e { r with target := p.target, progress := .stopped, known := p.state.band.known }

def buffered {ρ : Type} (config : Config) (feed : ρ) : Buffered ρ :=
  { feed, capacity := config.readerSize }

def playCommands (band : Nat) (commands : List UInt8) : ReplayerM τ Unit := do
  let config := (← get).config
  play band (buffered config ({ rest := commands } : Portions))

variable {μ : Type} [Medium μ]

/-- Replay what a store holds for one of `nbands` bands. -/
def playStored (store : BandStore μ) (nbands band : Nat) : ReplayerM τ Unit := do
  let config := (← get).config
  if nbands ≤ band then throw (.malformed s!"band {band} of {nbands}")
  play band (buffered config (store.bandFeed band))

def playBand (store : BandStore μ) (band : Nat) : ReplayerM τ Unit := do
  let nbands ← (← get).config.countBands
  playStored store nbands band

@[simp] theorem playBand_of_fits {r : Replayer τ}
    (h : Word.fits32 (r.config.height + r.config.bandHeight) = true) (store : BandStore μ)
    (band : Nat) : playBand store band r = playStored store r.config.nbands band r := by
  show (liftM r.config.countBands >>= fun nbands => playStored store nbands band) r = _
  rw [Config.countBands_of_fits h]
  rfl

def playPage (store : BandStore μ) : ReplayerM τ Unit := do
  let nbands ← (← get).config.countBands
  (List.range nbands).forM (playBand store)

@[simp] theorem playPage_of_fits {r : Replayer τ}
    (h : Word.fits32 (r.config.height + r.config.bandHeight) = true) (store : BandStore μ) :
    playPage store r = (List.range r.config.nbands).forM (playBand store) r := by
  show (liftM r.config.countBands >>= fun nbands => (List.range nbands).forM (playBand store)) r = _
  rw [Config.countBands_of_fits h]
  rfl

end Replayer

end BandedPage
