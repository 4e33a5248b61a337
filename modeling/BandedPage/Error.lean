import BandedPage.Hex

/-!
# Failures and what they mean for a page

Every operation of the library fails with an `Error`, a cause and the numbers that belong to it.
The wording is in `Error.message` alone, so that two operations which fail for the same cause
say the same thing. Only memory exhaustion may be tried again; a stream that decodes to
nothing sensible ends the replay of its page.
-/

namespace BandedPage

/-- Why writing, storing or replaying a page stopped. -/
inductive Error where
  /-- The stream ends `needed` bytes before the operand that starts or continues at `offset`. -/
  | truncated (offset needed : Nat)
  /-- The byte `op` at `offset` names no command. -/
  | unknownOpcode (op : UInt8) (offset : Nat)
  /-- Memory for a batch of commands was refused. -/
  | outOfMemory (requested available : Nat)
  /-- A bitmap cannot be held by the buffer it has to pass through. -/
  | bitmapTooLarge (size limit : Nat)
  /-- One command is longer than the whole command buffer. -/
  | commandTooLarge (size limit : Nat)
  /-- The drawing target refused a call. -/
  | target (text : String)
  /-- The writer was switched off by an earlier failure. -/
  | writerDisabled
  /-- A known command, or a request, with an operand that cannot be meant. -/
  | malformed (detail : String)
  /-- The configuration does not carry images as images. -/
  | imagesDisabled
  /-- The storage medium failed. -/
  | io (text : String)
  /-- The bands of a page cannot be counted in 32 bits. Nothing goes on from there. -/
  | uncountable
  deriving DecidableEq, Repr

namespace Error

def message : Error → String
  | truncated offset needed =>
    s!"truncated command stream: {needed} more byte(s) needed at offset {offset}"
  | unknownOpcode op offset =>
    let code := Hex.encode [op]
    s!"unrecognized opcode 0x{code} at offset {offset}"
  | outOfMemory requested available =>
    s!"out of memory: {requested} byte(s) requested, {available} available"
  | bitmapTooLarge size limit => s!"bitmap too large for the command buffer: {size} > {limit}"
  | commandTooLarge size limit => s!"command of {size} bytes exceeds buffer capacity {limit}"
  | target text => s!"target device error: {text}"
  | writerDisabled => "command list writer disabled by an earlier error"
  | malformed detail => s!"malformed command: {detail}"
  | imagesDisabled => "high-level images are disabled"
  | io text => s!"I/O error: {text}"
  | uncountable => "capacity overflow"

def name : Error → String
  | truncated _ _ => "TruncatedInput"
  | unknownOpcode _ _ => "UnrecognizedOpcode"
  | outOfMemory _ _ => "OutOfMemory"
  | bitmapTooLarge _ _ => "BitmapTooLarge"
  | commandTooLarge _ _ => "CommandTooLarge"
  | target _ => "TargetDevice"
  | writerDisabled => "PermanentError"
  | malformed _ => "Malformed"
  | imagesDisabled => "ImagesDisabled"
  | io _ => "Io"
  | uncountable => "Panic"

/-- Only an operation that ran out of memory may be repeated. -/
def isRetryable : Error → Bool
  | outOfMemory _ _ => true
  | _ => false

/-- Failures of the stream's structure, after which nothing that follows can be trusted. -/
def isFatalForPage : Error → Bool
  | truncated _ _ | unknownOpcode _ _ | malformed _ => true
  | _ => false

/-- A storage failure, which switches a writer off. -/
def isIo : Error → Bool
  | io _ => true
  | _ => false

end Error

/-- A computation without a state runs beside any state and leaves it alone. -/
instance {σ : Type} : MonadLift (Except Error) (EStateM Error σ) where
  monadLift
    | .ok a => fun s => .ok a s
    | .error e => fun s => .error e s

/-- What to do after a write was refused memory. -/
inductive Recovery where
  /-- Wait until memory is released and write again. -/
  | retry
  /-- Close the partial page, forget what the bands know, and write again. -/
  | flushAndRetry
  /-- Give up. -/
  | fatal
  deriving DecidableEq, Repr

instance : Inhabited Recovery := ⟨.fatal⟩

/-- What to do after a failure. Only lack of memory can be helped: by waiting if any was freed,
by an empty page if not. -/
def Recovery.after (e : Error) (freed : Bool) : Recovery :=
  if e.isRetryable then if freed then .retry else .flushAndRetry else .fatal

end BandedPage
