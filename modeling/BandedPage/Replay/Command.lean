import BandedPage.Operand.Rect
import BandedPage.Replay.Painting
import BandedPage.Replay.Setting

/-!
# Replaying commands

A replay reads command after command until the one that ends the page. A run that ends is followed
by the next one, so its end means nothing here.
-/

namespace BandedPage.Replay

variable {σ τ : Type} [ByteSource σ] [Target τ]

def performControl : ControlOp → ReplayM σ τ Unit
  | .endRun | .endPage => return
  | .setTileSize => setTileSize
  | .setTilePhase => do
    let x ← read Varint.decodeInt
    let y ← read Varint.decodeInt
    modifyBand fun band => { band with tilePhase := ⟨x, y⟩ }
  | .setTileBits => setTileBits
  | .setBits => setBits
  | .setTileColor => setTileColor
  | .setMisc => setMisc
  | .enableLop => modifyBand fun band => { band with lopEnabled := true }
  | .disableLop => modifyBand fun band => { band with lopEnabled := false }
  | .setHalftoneOrder => setHalftoneOrder
  | .setHalftoneData => setHalftoneData
  | .colorDifference slot => do
    let s ← getState
    let last := s.band.colors.get slot
    let color ← read (ColorCommand.decodeDifference last s.config.depth)
    modifyBand fun band => { band with colors := band.colors.set slot color }
  | .setCopyColor => modifyBand fun band => { band with copiesAlpha := false }
  | .setCopyAlpha => modifyBand fun band => { band with copiesAlpha := true }

/-- Carry out a command that sets imager state, clip, image or parameters. -/
def performState : StateOp → ReplayM σ τ Unit
  | .setFlatness => do
    let flatness ← read Operand.single
    setField .flatness ({ · with flatness })
  | .setFillAdjust => do
    let x ← read Operand.integer
    let y ← read Operand.integer
    setField .fillAdjust ({ · with fillAdjust := ⟨x, y⟩ })
  | .setCtm => do
    let ctm ← read Matrix.decode
    setField .ctm ({ · with ctm })
  | .setLineWidth => do
    let lineWidth ← read Operand.single
    setField .lineWidth ({ · with lineWidth })
  | .setOptions => setOptions
  | .setMiterLimit => do
    let miterLimit ← read Operand.single
    setField .miterLimit ({ · with miterLimit })
  | .setDash => setDash
  | .enableClip => modifyBand fun band => { band with clipEnabled := true }
  | .disableClip => modifyBand fun band => { band with clipEnabled := false }
  | .beginClip => beginClip
  | .endClip => endClip
  | .setColorSpace => setColorSpace
  | .beginImage => beginImage
  | .imageData => imageData
  | .setColor => setColored
  | .putParams => putParams

def setRect (form : RectForm) (n : UInt8) : ReplayM σ τ Unit := do
  let last := (← getState).band.rect
  let rect ← read (RectCommand.decode form n last)
  modifyBand fun band => { band with rect }

def perform : Op → ReplayM σ τ Unit
  | .control op => performControl op
  | .setColor slot n => do
    let s ← getState
    let color ← read (ColorCommand.decode n (s.band.colors.get slot) s.config.depth)
    modifyBand fun band => { band with colors := band.colors.set slot color }
  | .fillRect form n => do
    setRect form n
    fillRect
  | .tileRect form n => do
    setRect form n
    tileRect
  | .copyMono flags => copyMono flags
  | .copyDeep flags => copyDeep flags
  | .tileIndexDifference n => do
    let index : Int := (← getState).band.tileIndex + n.toNat - 8
    if index < 0 then throw (.malformed s!"tile index {index}")
    modifyBand fun band => { band with tileIndex := Word.pattern 16 index }
  | .setTileIndex n => do
    let low ← read nextByte
    modifyBand fun band => { band with tileIndex := n.toNat * 256 + low.toNat }
  | .state op => performState op
  | .segment op => extendPath op
  | .path op => drawPath op

def nextOp : ReplayM σ τ Op := do
  read ByteSource.prepare
  let offset ← read currentOffset
  let b ← read nextByte
  Op.decode b offset

def runCommands : Nat → ReplayM σ τ Unit
  | 0 => return
  | n + 1 => do
    match ← nextOp with
    | .control .endPage => return
    | op =>
      perform op
      runCommands n

/-- Replay commands to the end of the page. Each command takes at least one byte, and reading one
where none is left fails, so one command more than there are bytes is never reached. -/
def run : ReplayM σ τ Unit := do
  let p ← get
  runCommands (ByteSource.unread p.source + 1)

end BandedPage.Replay
