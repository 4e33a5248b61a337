import BandedPage.Source.Buffered
import BandedPage.Store.Basic

/-!
# Reading one band back

The commands of a band are the runs whose records apply to it, in index order, up to the first
sentinel, or to the end of the index if the page was never closed. They are handed out in
portions of which none spans two runs.
-/

namespace BandedPage

namespace ByteFeed

variable {ρ : Type} [ByteFeed ρ]

/-- All bytes still to come, in at most `n` portions. -/
def readPortions : Nat → ρ → Except Error (List UInt8)
  | 0, _ => .ok []
  | n + 1, feed => do
    match ← read feed (remaining feed + 1) with
    | ([], _) => return []
    | (bytes, feed) => return bytes ++ (← readPortions n feed)

/-- All bytes still to come. Each portion has at least one. -/
def readAll (feed : ρ) : Except Error (List UInt8) := readPortions (remaining feed + 1) feed

end ByteFeed

/-- A forward scan over the runs of a band. -/
structure BandFeed (μ : Type) where
  store : BandStore μ
  band : Nat
  /-- The record to look at next. -/
  next : Nat := 0
  /-- The next byte of the present run. -/
  position : Nat := 0
  /-- Where the present run ends. -/
  stop : Nat := 0
  /-- There is no further run. -/
  done : Bool := false

namespace BandFeed

variable {μ : Type} [Medium μ]

/-- Look at up to `n` records for the next run of the band that has bytes left. -/
def advance : Nat → BandFeed μ → Except Error (BandFeed μ)
  | 0, f => .ok f
  | n + 1, f => do
    if f.done || f.position < f.stop then return f
    match ← f.store.record? f.next with
    | none => return { f with done := true }
    | some r =>
      let f := { f with next := f.next + 1 }
      if r.isSentinel then return { f with done := true }
      else if r.appliesTo f.band then
        let stop ← f.store.runEnd f.next
        advance n { f with position := r.position, stop }
      else advance n f

/-- The next portion of the band's commands, at most `n` bytes. -/
def read (f : BandFeed μ) (n : Nat) : Except Error (List UInt8 × BandFeed μ) := do
  if n = 0 then return ([], f)
  let f ← advance (f.store.recordCount - f.next + 2) f
  if f.position < f.stop then
    let bytes ←
      BandStore.ofMedium (Medium.readAt f.store.commands f.position (min n (f.stop - f.position)))
    if bytes.isEmpty then throw (.io "command stream shorter than its index")
    return (bytes, { f with position := f.position + bytes.length })
  else return ([], f)

instance : ByteFeed (BandFeed μ) where
  read := read
  remaining f :=
    f.stop - f.position + (f.store.recordCount - f.next) * Medium.size f.store.commands

end BandFeed

namespace BandStore

variable {μ : Type} [Medium μ]

def bandFeed (s : BandStore μ) (band : Nat) : BandFeed μ := { store := s, band }

def bandBytes (s : BandStore μ) (band : Nat) : Except Error (List UInt8) :=
  ByteFeed.readAll (s.bandFeed band)

end BandStore

end BandedPage
