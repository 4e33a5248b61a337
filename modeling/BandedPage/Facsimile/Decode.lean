import BandedPage.Facsimile.Code
import BandedPage.Facsimile.Line
import BandedPage.Source.Basic

/-!
# Reading facsimile code

The rows are rebuilt as lines of changes. A line stays sorted, since no mode may put a change
left of the last one, and within the row. Runs of length zero do not move to the right, but every
mode and every run takes at least one bit, so reading ends when the bits do.
-/

namespace BandedPage.Facsimile

/-- A source read bit by bit: `left` low bits of `byte` are still to come. -/
structure BitSource (σ : Type) where
  source : σ
  byte : UInt8 := 0
  left : Nat := 0

namespace BitSource

variable {σ : Type} [ByteSource σ]

/-- A bound on the number of bits that can still be read. -/
def unread (s : BitSource σ) : Nat := ByteSource.unread s.source * 8 + s.left

def nextBit : EStateM Error (BitSource σ) Bool := fun s =>
  match s.left with
  | left + 1 => .ok (s.byte.toNat.testBit left) { s with left }
  | 0 =>
    match nextByte s.source with
    | .ok byte source => .ok (byte.toNat.testBit 7) { source, byte, left := 7 }
    | .error e source => .error e { s with source }

/-- The meaning of the next code word, after the bits in `word`; at most `n` bits are added. -/
def readWord {α : Type} (table : List (Codeword × α)) :
    Nat → Codeword → EStateM Error (BitSource σ) α
  | 0, _ => do
    let offset := ByteSource.offset (← get).source
    throw (.malformed s!"invalid CCITT code at offset {offset}")
  | n + 1, word => do
    let bit ← nextBit
    let word : Codeword := ⟨word.code * 2 + bit.toNat, word.length + 1⟩
    match meaning? table word with
    | some v => return v
    | none => readWord table n word

def readMode : EStateM Error (BitSource σ) Mode := readWord modes (longest modes) ⟨0, 0⟩

/-- A run in at most `fuel` code words, after makeup codes for `total`. -/
def readRunFrom (table : List (Codeword × Nat)) (length : Nat) :
    Nat → Nat → EStateM Error (BitSource σ) Nat
  | 0, _ => do
    throw (.truncated (ByteSource.offset (← get).source) 1)
  | fuel + 1, total => do
    let run ← readWord table length ⟨0, 0⟩
    if run < 64 then return total + run else readRunFrom table length fuel (total + run)

def readRun (black : Bool) : EStateM Error (BitSource σ) Nat := do
  let table := runsOf black
  readRunFrom table (longest table) ((← get).unread + 1) 0

/-- The rest of a row in at most `fuel` modes: `line` holds the changes found so far, `a` is the
last one or the place passed to, and `black` the color from there. -/
def readRow (above : List Nat) (columns : Nat) :
    Nat → Array Nat → Int → Bool → EStateM Error (BitSource σ) (List Nat)
  | 0, _, _, _ => do
    throw (.truncated (ByteSource.offset (← get).source) 1)
  | fuel + 1, line, a, black => do
    if (columns : Int) ≤ a then return line.toList
    let (b1, b2) := reference above a black columns
    match ← readMode with
    | .pass => readRow above columns fuel line b2 black
    | .vertical offset =>
      let a1 : Int := b1 + offset
      if a1 ≤ a || (columns : Int) < a1 then
        throw (.malformed s!"CCITT vertical mode to {a1} from {a}")
      let line := if a1 < columns then line.push a1.toNat else line
      readRow above columns fuel line a1 (!black)
    | .horizontal =>
      let run1 ← readRun black
      let run2 ← readRun (!black)
      let a1 := a.toNat + run1
      let a2 := a1 + run2
      if columns < a2 then
        throw (.malformed s!"CCITT runs end at {a2} past {columns} columns")
      let line := if a1 < columns then line.push a1 else line
      let line := if a2 < columns then line.push a2 else line
      readRow above columns fuel line a2 black
    | .endOfLine => throw (.malformed "CCITT data ended early")

/-- Draw `rows` rows of `columns` pixels from bit `start` on, below the line `above`. -/
def readRows (columns : Nat) :
    Nat → Nat → List Nat → Bytes → EStateM Error (BitSource σ) Bytes
  | 0, _, _, data => return data
  | rows + 1, start, above, data => do
    let line ← readRow above columns ((← get).unread + 1) #[] (-1) false
    readRows columns rows (start + columns) line (draw data start columns line)

/-- Half of the end mark. -/
def readEnd : EStateM Error (BitSource σ) Unit := do
  if (← readMode) ≠ .endOfLine then throw (.malformed "CCITT data missing EOFB")

end BitSource

variable {σ : Type} [ByteSource σ]

def decode (raster height : Nat) : Decoder σ Bytes := fun source =>
  let read : EStateM Error (BitSource σ) Bytes := do
    let data ← BitSource.readRows (raster * 8) height 0 [] (Array.replicate (raster * height) 0)
    BitSource.readEnd
    BitSource.readEnd
    return data
  match read { source } with
  | .ok data s => .ok data s.source
  | .error e s => .error e s.source

end BandedPage.Facsimile
