import BandedPage.Replay.Replayer
import BandedPage.Target.CallLog
import BandedPage.Writer.State

/-!
# Memory by a schedule

Which requests are refused and how often memory can be freed is laid down in advance. Partial pages
are rendered into a log.
-/

namespace BandedPage

/-- Memory that is refused by a schedule. -/
structure RationedMemory where
  config : Config
  /-- The requests that are refused, counted from 1, each range with both ends. -/
  refused : List (Nat × Nat) := []
  /-- Times memory can be freed. -/
  frees : Nat := 0
  /-- Rendering a partial page fails. -/
  renderFails : Bool := false
  /-- Requests so far. -/
  requests : Nat := 0
  /-- Partial pages so far. -/
  partialPages : Nat := 0
  /-- Everything drawn on partial pages. -/
  rendered : Array DrawingCall := #[]

namespace RationedMemory

def refuses (m : RationedMemory) (n : Nat) : Bool := m.refused.any fun (a, b) => a ≤ n && n ≤ b

def reserve (bytes : Nat) : EStateM Error RationedMemory Unit := do
  modify fun m => { m with requests := m.requests + 1 }
  let m ← get
  if m.refuses m.requests then throw (.outOfMemory bytes 0)

def freeUp (m : RationedMemory) : Bool × RationedMemory :=
  if m.frees = 0 then (false, m) else (true, { m with frees := m.frees - 1 })

variable {μ : Type} [Medium μ]

def callsOf (config : Config) (store : BandStore μ) : Except Error (Array DrawingCall) := do
  let replayer ← Replayer.ofConfig config ({ clipBox := config.pageRect } : CallLog)
  match Replayer.playPage store replayer with
  | .ok _ r => return r.target.calls
  | .error e _ => throw e

def renderPartialPage (store : BandStore μ) : EStateM Error RationedMemory Unit := do
  modify fun m => { m with partialPages := m.partialPages + 1 }
  let m ← get
  if m.renderFails then throw (.target "render failed")
  let calls ← callsOf m.config store
  modify fun m => { m with rendered := m.rendered ++ calls }

instance : MemoryPolicy μ RationedMemory where
  reserve := reserve
  freeUp := freeUp
  renderPartialPage := renderPartialPage

end RationedMemory

end BandedPage
