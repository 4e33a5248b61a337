import BandedPage.Writer.Image
import BandedPage.Writer.Path
import BandedPage.Writer.Rectangle

/-!
# A session with a writer

A writer is opened for a configuration, takes requests page by page, and stores what it holds when
it is asked to or has to. What belongs to the page as a whole is remembered for the pages to come.
-/

namespace BandedPage.Writer

variable {μ ν : Type}

def ofConfig (config : Config) (store : BandStore μ) (memory : ν) : Except Error (Writer μ ν) := do
  config.validate
  let _ ← config.countBands
  return { state := .fresh config store memory }

/-- A writer can be made for a valid configuration whose bands can be counted, and for no other. -/
theorem ofConfig_eq_ok_iff {config : Config} {store : BandStore μ} {memory : ν} {w : Writer μ ν} :
    ofConfig config store memory = .ok w ↔ config.validate = .ok () ∧
      Word.fits32 (config.height + config.bandHeight) = true ∧
      w = { state := .fresh config store memory } := by
  have hrun : ofConfig config store memory = (config.validate >>= fun _ =>
    config.countBands >>= fun _ => pure { state := .fresh config store memory }) := rfl
  rw [hrun]
  cases config.validate with
  | error e => simp [bind, Except.bind]
  | ok u =>
    by_cases hsum : Word.fits32 (config.height + config.bandHeight) = true
    · simp [bind, Except.bind, pure, Except.pure, hsum, eq_comm]
    · simp [bind, Except.bind, hsum]

def setColorSpace (cs : ColorSpace) : WriterM μ ν Unit := update (·.useColorSpace cs)

def setLogicalOp (op : LogicalOp) : WriterM μ ν Unit :=
  update fun s => { s with imager := { s.imager with logOp := op } }

variable [Medium μ] [MemoryPolicy μ ν]

/-- Send a command to a band, or to a range of them. -/
def putCommand (bands : BandRange) (command : Command) : WriterM μ ν Unit := do
  if (← get).state.config.nbands ≤ bands.max then
    throw (.malformed s!"band {bands.max} past the page")
  let whom := if bands.isSingle then .band bands.min else .range bands
  withRecovery (WriterState.putBatch whom ([command].filter (!·.isEmpty)))

/-- Store what is held. -/
def flush : WriterM μ ν Unit := do
  check
  critical (onState (WriterState.onBuffer (CommandBuffer.flush Opcode.endRun)))

def endPage : WriterM μ ν Unit := do
  check
  if (← get).state.image.isSome then endImage
  critical (onState (WriterState.onBuffer CommandBuffer.closePage))
  update (·.resetPage)

def beginPage : WriterM μ ν Unit := do
  check
  onState (WriterState.onBuffer (CommandBuffer.onStore BandStore.truncate))
  update (·.resetPage)
  critical (onState WriterState.putPageState)

def putParams (params : List UInt8) : WriterM μ ν Unit := do
  withRecovery (WriterState.putParams params)
  update fun s => { s with params := some params }

/-- Send a halftone other than the last one. -/
def setHalftone (halftone : Halftone) : WriterM μ ν Unit := do
  if (← get).state.halftone ≠ some halftone then
    update fun s => { s with halftone := some halftone }
    withRecovery (WriterState.putHalftone halftone)

/-- Send a transfer map other than the last one. -/
def setTransferMap (index : Nat) (map : TransferMap) : WriterM μ ν Unit := do
  if transferMapCount ≤ index then throw (.malformed s!"transfer map index {index}")
  if let some entries := map then
    if entries.length ≠ transferMapSize then
      throw (.malformed s!"transfer map of {entries.length} entries")
  let known := (← get).state.transfers[index]?.join
  if known ≠ some map then
    update fun s => { s with transfers := s.transfers.setIfInBounds index (some map) }
    withRecovery (WriterState.putTransfer index map)

end BandedPage.Writer
