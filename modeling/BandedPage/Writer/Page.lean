import BandedPage.Command.Halftone
import BandedPage.Writer.State

/-!
# What belongs to a page as a whole

Parameters, the halftone and the transfer maps go to all bands. They are kept, so that a page that
had to be emptied can be told again.
-/

namespace BandedPage.WriterState

variable {μ ν : Type} [Medium μ] [MemoryPolicy μ ν]

def putParams (params : List UInt8) : WriteM μ ν Unit := putAllBands [Command.params params]

def putHalftone (halftone : Halftone) : WriteM μ ν Unit := putAllBands (Command.halftone halftone)

def putTransfer (index : Nat) (map : TransferMap) : WriteM μ ν Unit :=
  putAllBands [Command.transferMap index map]

/-- Send everything to a page that starts empty. -/
def putPageState : WriteM μ ν Unit := do
  let s ← get
  s.params.forM putParams
  s.halftone.forM putHalftone
  s.transfers.toList.zipIdx.forM fun (map, index) => map.forM (putTransfer index)

/-- Close the page, have it rendered and empty the store. -/
def renderPartialPage : WriteM μ ν Unit := do
  onBuffer CommandBuffer.closePage
  let store := (← get).buffer.store
  onMemory (MemoryPolicy.renderPartialPage store)
  onBuffer (CommandBuffer.onStore BandStore.truncate)

end BandedPage.WriterState
