import BandedPage.Writer.Page

/-!
# Recovery from a lack of memory

A band operation that is refused memory is tried again as long as memory is freed, at most as often
as the configuration says. When that does not help, the page so far is rendered, which empties the
store, and the operation is tried again in the same way on a page that knows nothing. Nothing else
is tried again. A storage failure switches the writer off, and so does any failure to start an
empty page; from then on every request is refused.
-/

namespace BandedPage

/-- A writer of a page; `ν` is how memory is got. -/
structure Writer (μ ν : Type) where
  state : WriterState μ ν
  /-- The writer was switched off. -/
  disabled : Bool := false

/-- A request to a writer. -/
abbrev WriterM (μ ν α : Type) := EStateM Error (Writer μ ν) α

namespace Writer

variable {μ ν α : Type}

def onState (m : WriteM μ ν α) : WriterM μ ν α := fun w =>
  match m w.state with
  | .ok a state => .ok a { w with state }
  | .error e state => .error e { w with state }

def update (f : WriterState μ ν → WriterState μ ν) : WriterM μ ν Unit := onState (modify f)

def check : WriterM μ ν Unit := do
  if (← get).disabled then throw .writerDisabled

/-- Switch the writer off if `m` fails in a way that `p` names. -/
def disablingIf (p : Error → Bool) (m : WriterM μ ν α) : WriterM μ ν α := fun w =>
  match m w with
  | .ok a w => .ok a w
  | .error e w => .error e { w with disabled := w.disabled || p e }

/-- Switch the writer off if `m` fails. -/
def critical (m : WriterM μ ν α) : WriterM μ ν α := disablingIf (fun _ => true) m

variable [Medium μ] [MemoryPolicy μ ν]

/-- Wait until memory is freed after a failure that this can help. -/
def freeUpAfter (e : Error) (w : Writer μ ν) : Bool × Writer μ ν :=
  if e.isRetryable then
    let (freed, memory) := MemoryPolicy.freeUp μ w.state.memory
    (freed, { w with state := { w.state with memory } })
  else (false, w)

/-- Try `op`, and up to `n` times again whenever memory was freed. -/
def attempt (op : WriteM μ ν α) : Nat → WriterM μ ν α
  | 0 => disablingIf Error.isIo (onState op)
  | n + 1 => fun w =>
    match disablingIf Error.isIo (onState op) w with
    | .ok a w => .ok a w
    | .error e w =>
      let (freed, w) := freeUpAfter e w
      match Recovery.after e freed with
      | .retry => attempt op n w
      | .flushAndRetry | .fatal => .error e w

def flushRecovery : WriterM μ ν Unit := do
  critical (onState WriterState.renderPartialPage)
  update (·.resetPage)
  critical (onState WriterState.putPageState)

/-- Do `op`, in spite of a lack of memory if possible. -/
def withRecovery (op : WriteM μ ν α) : WriterM μ ν α := do
  check
  let budget := (← get).state.config.retryBudget
  fun w =>
    match attempt op budget w with
    | .ok a w => .ok a w
    | .error e w =>
      match Recovery.after e false with
      | .flushAndRetry => (do flushRecovery; attempt op budget) w
      | .retry | .fatal => .error e w

end Writer

end BandedPage
