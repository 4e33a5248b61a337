import BandedPage.Error

/-!
# Sources of command bytes

A decoder is written once, for any `ByteSource`, and runs on a byte list in memory (`Cursor`) as
well as on a band's stored stream read through a buffer. It carries the source along also when
it fails, because the position after a failed read can be asked for.
-/

namespace BandedPage

/-- Decoding from a source of type `σ`; a failure keeps the source where the failure left it. -/
abbrev Decoder (σ α : Type) := EStateM Error σ α

/-- Something command bytes can be pulled from. -/
class ByteSource (σ : Type) where
  /-- The next byte, or `Error.truncated` at the end. -/
  nextByte : Decoder σ UInt8
  /-- The next `n` bytes together, or `Error.truncated` with the number of bytes missing. -/
  take (n : Nat) : Decoder σ (List UInt8)
  /-- Get ready for the next command. -/
  prepare : Decoder σ Unit := pure ()
  /-- Position of the next byte in the stream. -/
  offset : σ → Nat
  /-- A bound on the number of bytes that can still be read. -/
  unread : σ → Nat

export ByteSource (nextByte)

def nextBytes {σ : Type} [ByteSource σ] : Nat → Decoder σ (List UInt8)
  | 0 => return []
  | n + 1 => do
    let b ← nextByte
    let bs ← nextBytes n
    return b :: bs

/-- Position of the next byte in the stream. -/
def currentOffset {σ : Type} [ByteSource σ] : Decoder σ Nat := do
  return ByteSource.offset (← get)

/-- The bytes of a command list held in memory that are still to be read. -/
structure Cursor where
  rest : List UInt8
  offset : Nat := 0
  deriving Repr

namespace Cursor

def ofList (bytes : List UInt8) : Cursor := { rest := bytes }

def nextByte : Decoder Cursor UInt8 := fun c =>
  match c.rest with
  | [] => .error (.truncated c.offset 1) c
  | b :: rest => .ok b { rest, offset := c.offset + 1 }

/-- The next `n` bytes. Nothing is consumed unless all of them are there. -/
def take (n : Nat) : Decoder Cursor (List UInt8) := fun c =>
  let (taken, rest) := c.rest.splitAt n
  if taken.length < n then .error (.truncated c.offset (n - taken.length)) c
  else .ok taken { rest, offset := c.offset + n }

instance : ByteSource Cursor where
  nextByte := nextByte
  take := take
  offset := Cursor.offset
  unread c := c.rest.length

@[simp] theorem nextByte_cons (b : UInt8) (rest : List UInt8) (offset : Nat) :
    nextByte ⟨b :: rest, offset⟩ = .ok b ⟨rest, offset + 1⟩ := rfl

@[simp] theorem nextByte_nil (offset : Nat) :
    nextByte ⟨[], offset⟩ = .error (.truncated offset 1) ⟨[], offset⟩ := rfl

@[simp] theorem take_append (taken rest : List UInt8) (offset : Nat) :
    take taken.length ⟨taken ++ rest, offset⟩ = .ok taken ⟨rest, offset + taken.length⟩ := by
  simp [take]

end Cursor

end BandedPage
