import BandedPage.Command.Basic
import BandedPage.Store.Basic

/-!
# The command buffer

Commands are held in a list for each band and in one list for a range of bands, until their bytes
would exceed the buffer or somebody asks for them to be stored. The commands for a range are stored
first; so before one is added, everything that is held and not for the same range is stored. A run
in the store therefore never holds part of a command, and each band finds its commands in the order
in which they were added.
-/

namespace BandedPage

/-- Whom commands are for. -/
inductive Addressee where
  | band (band : Nat)
  | range (bands : BandRange)
  deriving DecidableEq, Repr

/-- The commands that are held, and the store they go to. -/
structure CommandBuffer (μ : Type) where
  store : BandStore μ
  /-- Bytes that may be held. -/
  capacity : Nat
  /-- Commands for single bands. -/
  bands : Array (Array Command)
  /-- Commands for a range of bands. -/
  shared : Array Command := #[]
  /-- The range that `shared` is for. -/
  range : BandRange
  /-- Whom the last command that is held is for. -/
  last : Option Addressee := none
  /-- Bytes that are held. -/
  pending : Nat := 0

/-- An operation on a command buffer. What it did before it failed stays done. -/
abbrev BufferM (μ α : Type) := EStateM Error (CommandBuffer μ) α

namespace CommandBuffer

variable {μ : Type}

def empty (store : BandStore μ) (capacity nbands : Nat) : CommandBuffer μ :=
  { store, capacity, bands := Array.replicate nbands #[], range := .all nbands }

def discard (b : CommandBuffer μ) : CommandBuffer μ :=
  { b with bands := b.bands.map fun _ => #[], shared := #[], last := none, pending := 0 }

def onStore {α : Type} (m : StoreM μ α) : BufferM μ α := fun b =>
  match m b.store with
  | .ok a store => .ok a { b with store }
  | .error e store => .error e { b with store }

def hold (b : CommandBuffer μ) (whom : Addressee) (c : Command) : CommandBuffer μ :=
  let b := { b with last := some whom, pending := b.pending + c.length }
  match whom with
  | .band band => { b with bands := b.bands.modify band (·.push c) }
  | .range _ => { b with shared := b.shared.push c }

variable [Medium μ]

def flushShared : BufferM μ Unit := do
  let b ← get
  if !b.shared.isEmpty then
    onStore (BandStore.writeRun b.range b.shared.toList.flatten Opcode.endRun)
    modify fun b => { b with shared := #[] }

/-- Store the commands for one band as a run that ends with `last`. A run without commands is
stored only if its end says more than that it ended. -/
def flushBand (last : UInt8) (band : Nat) : BufferM μ Unit := do
  let commands := (← get).bands.getD band #[]
  if !commands.isEmpty || last != Opcode.endRun then
    onStore (BandStore.writeRun (.single band) commands.toList.flatten last)
    modify fun b => { b with bands := b.bands.setIfInBounds band #[] }

def flush (last : UInt8) : BufferM μ Unit := do
  flushShared
  (List.range (← get).bands.size).forM (flushBand last)
  modify fun b => { b with pending := 0, last := none }

/-- Make sure that a command for a range comes after everything that is held. -/
def turnTo : Addressee → BufferM μ Unit
  | .band _ => return
  | .range bands => do
    let b ← get
    if b.last.isSome && b.last ≠ some (.range bands) then flush Opcode.endRun
    modify fun b => { b with range := bands }

/-- Hold one command, storing others if need be. -/
def appendOne (whom : Addressee) (c : Command) : BufferM μ Unit := do
  turnTo whom
  let b ← get
  if b.capacity < b.pending + c.length then flush Opcode.endRun
  modify (·.hold whom c)

/-- Hold some commands, all of them or, if one is longer than the buffer, none. -/
def append (whom : Addressee) (batch : List Command) : BufferM μ Unit := do
  let limit := (← get).capacity
  let longest := batch.foldl (fun n c => max n c.length) 0
  if limit < longest then throw (.commandTooLarge longest limit)
  batch.forM (appendOne whom)

def closePage : BufferM μ Unit := do
  flush Opcode.endPage
  onStore BandStore.writeSentinel

end CommandBuffer

end BandedPage
