import BandedPage.Error
import BandedPage.Store.Memory
import BandedPage.Store.Record

/-!
# The band store

Two media that only grow: the command stream holds runs of commands one after another, the block
index a record for each run. A run ends where the next record's begins, or where the stream ends.
-/

namespace BandedPage

/-- A command stream and its block index. -/
structure BandStore (μ : Type) where
  commands : μ
  index : μ
  /-- Bytes in the command stream. -/
  commandLength : Nat := 0
  /-- Records in the block index. -/
  recordCount : Nat := 0

/-- An operation on a store. What it did before it failed stays done. -/
abbrev StoreM (μ α : Type) := EStateM Error (BandStore μ) α

namespace BandStore

variable {μ : Type}

/-- A medium's answer, its failure being a storage failure. -/
def ofMedium {α : Type} (answer : Except String α) : Except Error α := answer.mapError .io

def mapMedia (f : μ → μ) (s : BandStore μ) : BandStore μ :=
  { s with commands := f s.commands, index := f s.index }

variable [Medium μ]

def putRecord (r : BlockRecord) : StoreM μ Unit := do
  let s ← get
  let index ← ofMedium (Medium.writeAt s.index (s.recordCount * BlockRecord.size) r.toBytes)
  set { s with index, recordCount := s.recordCount + 1 }

/-- Append a run that ends with the command `last`. -/
def writeRun (bands : BandRange) (run : List UInt8) (last : UInt8) : StoreM μ Unit := do
  let s ← get
  let commands ← ofMedium (Medium.writeAt s.commands s.commandLength (run ++ [last]))
  set { s with commands }
  putRecord (.ofRun bands s.commandLength)
  modify fun s => { s with commandLength := s.commandLength + run.length + 1 }

/-- Close the page. -/
def writeSentinel : StoreM μ Unit := do
  let s ← get
  putRecord (.sentinel s.commandLength)

def truncate : StoreM μ Unit := do
  let s ← get
  let commands ← ofMedium (Medium.truncate s.commands)
  set { s with commands }
  let index ← ofMedium (Medium.truncate s.index)
  set { s with commands, index, commandLength := 0, recordCount := 0 }

def record? (s : BandStore μ) (i : Nat) : Except Error (Option BlockRecord) := do
  if s.recordCount ≤ i then return none
  let bytes ← ofMedium (Medium.readAt s.index (i * BlockRecord.size) BlockRecord.size)
  if bytes.length < BlockRecord.size then throw (.io "failed to fill whole buffer")
  return some (.ofBytes bytes)

def records (s : BandStore μ) : Except Error (List BlockRecord) := do
  let found ← (List.range s.recordCount).mapM s.record?
  return found.filterMap id

/-- Where the run before record `i` ends. -/
def runEnd (s : BandStore μ) (i : Nat) : Except Error Nat := do
  match ← s.record? i with
  | some r => return r.position
  | none => return s.commandLength

end BandStore

end BandedPage
