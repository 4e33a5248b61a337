import BandedPage.Source.Basic

/-!
# Reading through a buffer

A `ByteFeed` hands out bytes in portions of its own choosing. `Buffered` collects them in a
buffer of fixed capacity and serves a decoder from there. The buffer is filled as far as the
feed goes whenever fewer than `lookahead` bytes are left in it, so a failing feed is noticed
before the commands already buffered have run out.
-/

namespace BandedPage

/-- Bytes handed out in portions. -/
class ByteFeed (ρ : Type) where
  /-- At least one and at most `n` bytes while there are any, none at the end. -/
  read : ρ → Nat → Except Error (List UInt8 × ρ)
  /-- A bound on the number of bytes still to come. -/
  remaining : ρ → Nat

/-- Bytes in memory, handed out at most `portion` at a time if there is such a limit. -/
structure Portions where
  rest : List UInt8
  portion : Option Nat := none

instance : ByteFeed Portions where
  read p n :=
    let n := match p.portion with
      | some k => min n k
      | none => n
    let (taken, rest) := p.rest.splitAt n
    .ok (taken, { p with rest })
  remaining p := p.rest.length

/-- A feed read through a buffer. -/
structure Buffered (ρ : Type) where
  feed : ρ
  capacity : Nat
  /-- Bytes read from the feed and not yet decoded. -/
  buffered : List UInt8 := []
  /-- Stream position of the first buffered byte. -/
  offset : Nat := 0
  /-- The feed has reported its end. -/
  ended : Bool := false

namespace Buffered

variable {ρ : Type}

/-- Room the buffer keeps filled for any command that does not announce its length. -/
def lookahead : Nat := 128

/-- Fewer bytes than `lookahead` are buffered and more may come. -/
def isLow (s : Buffered ρ) : Bool := s.buffered.length < lookahead && !s.ended

variable [ByteFeed ρ]

/-- Read portions until the buffer is full or the feed ends, at most `n` of them. -/
def fill : Nat → Decoder (Buffered ρ) Unit
  | 0 => return
  | n + 1 => do
    let s ← get
    let room := s.capacity - s.buffered.length
    if room = 0 then return
    match ByteFeed.read s.feed room with
    | .error e => throw e
    | .ok ([], feed) => set { s with feed, ended := true }
    | .ok (bytes, feed) =>
      set { s with feed, buffered := s.buffered ++ bytes }
      fill n

/-- Fill the buffer if it has run low. Each portion is at least one byte, so as many
portions as there is room suffice. -/
def topUp : Decoder (Buffered ρ) Unit := do
  let s ← get
  if s.isLow then fill (s.capacity - s.buffered.length)

/-- Fill an exhausted buffer; `missing` bytes are wanted. -/
def refill (missing : Nat) : Decoder (Buffered ρ) Unit := do
  if (← get).buffered.isEmpty then
    topUp
    let s ← get
    if s.buffered.isEmpty then throw (.truncated s.offset missing)

def nextByte : Decoder (Buffered ρ) UInt8 := do
  refill 1
  let s ← get
  match s.buffered with
  | [] => throw (.truncated s.offset 1)
  | b :: buffered =>
    set { s with buffered, offset := s.offset + 1 }
    return b

/-- The next `missing` bytes in at most `n` buffer loads. What was there of a block that is cut
short is consumed. -/
def takeLoads : Nat → Nat → Decoder (Buffered ρ) (List UInt8)
  | _, 0 => return []
  | 0, _ + 1 => return []
  | n + 1, missing => do
    refill missing
    let s ← get
    let (taken, buffered) := s.buffered.splitAt missing
    set { s with buffered, offset := s.offset + taken.length }
    let rest ← takeLoads n (missing - taken.length)
    return taken ++ rest

def take (n : Nat) : Decoder (Buffered ρ) (List UInt8) := takeLoads n n

instance : ByteSource (Buffered ρ) where
  nextByte := nextByte
  take := take
  prepare := topUp
  offset := Buffered.offset
  unread s := s.buffered.length + ByteFeed.remaining s.feed

end Buffered

end BandedPage
