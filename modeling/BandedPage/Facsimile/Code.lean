/-!
# Facsimile code words

The code words of two-dimensional facsimile coding. A run is written as makeup codes, each a
multiple of 64, and one terminating code below 64; white and black runs have codes of their own,
and share those from 1792 on. A mode says how the next change of color is given. No code word
begins another of its table.
-/

namespace BandedPage.Facsimile

/-- A code word: its bits as a number, and how many there are. -/
structure Codeword where
  code : Nat
  length : Nat
  deriving DecidableEq, Repr

namespace Codeword

/-- The bits, first one first. -/
def bits (w : Codeword) : List Bool :=
  (List.range w.length).map fun i => w.code.testBit (w.length - 1 - i)

end Codeword

/-- Code words from pairs of bits and length. -/
def codewords (pairs : List (Nat × Nat)) : List Codeword :=
  pairs.map fun (code, length) => { code, length }

/-- White runs of 0 to 63. -/
def whiteTerminating : List Codeword := codewords
   [(0x35, 8), (0x07, 6), (0x07, 4), (0x08, 4), (0x0b, 4), (0x0c, 4), (0x0e, 4), (0x0f, 4),
    (0x13, 5), (0x14, 5), (0x07, 5), (0x08, 5), (0x08, 6), (0x03, 6), (0x34, 6), (0x35, 6),
    (0x2a, 6), (0x2b, 6), (0x27, 7), (0x0c, 7), (0x08, 7), (0x17, 7), (0x03, 7), (0x04, 7),
    (0x28, 7), (0x2b, 7), (0x13, 7), (0x24, 7), (0x18, 7), (0x02, 8), (0x03, 8), (0x1a, 8),
    (0x1b, 8), (0x12, 8), (0x13, 8), (0x14, 8), (0x15, 8), (0x16, 8), (0x17, 8), (0x28, 8),
    (0x29, 8), (0x2a, 8), (0x2b, 8), (0x2c, 8), (0x2d, 8), (0x04, 8), (0x05, 8), (0x0a, 8),
    (0x0b, 8), (0x52, 8), (0x53, 8), (0x54, 8), (0x55, 8), (0x24, 8), (0x25, 8), (0x58, 8),
    (0x59, 8), (0x5a, 8), (0x5b, 8), (0x4a, 8), (0x4b, 8), (0x32, 8), (0x33, 8), (0x34, 8)]

/-- White runs of 64, 128, up to 1728. -/
def whiteMakeup : List Codeword := codewords
   [(0x1b, 5), (0x12, 5), (0x17, 6), (0x37, 7), (0x36, 8), (0x37, 8), (0x64, 8), (0x65, 8),
    (0x68, 8), (0x67, 8), (0xcc, 9), (0xcd, 9), (0xd2, 9), (0xd3, 9), (0xd4, 9), (0xd5, 9),
    (0xd6, 9), (0xd7, 9), (0xd8, 9), (0xd9, 9), (0xda, 9), (0xdb, 9), (0x98, 9), (0x99, 9),
    (0x9a, 9), (0x18, 6), (0x9b, 9)]

/-- Black runs of 0 to 63. -/
def blackTerminating : List Codeword := codewords
   [(0x37, 10), (0x02, 3), (0x03, 2), (0x02, 2), (0x03, 3), (0x03, 4), (0x02, 4), (0x03, 5),
    (0x05, 6), (0x04, 6), (0x04, 7), (0x05, 7), (0x07, 7), (0x04, 8), (0x07, 8), (0x18, 9),
    (0x17, 10), (0x18, 10), (0x08, 10), (0x67, 11), (0x68, 11), (0x6c, 11), (0x37, 11),
    (0x28, 11), (0x17, 11), (0x18, 11), (0xca, 12), (0xcb, 12), (0xcc, 12), (0xcd, 12),
    (0x68, 12), (0x69, 12), (0x6a, 12), (0x6b, 12), (0xd2, 12), (0xd3, 12), (0xd4, 12),
    (0xd5, 12), (0xd6, 12), (0xd7, 12), (0x6c, 12), (0x6d, 12), (0xda, 12), (0xdb, 12),
    (0x54, 12), (0x55, 12), (0x56, 12), (0x57, 12), (0x64, 12), (0x65, 12), (0x52, 12),
    (0x53, 12), (0x24, 12), (0x37, 12), (0x38, 12), (0x27, 12), (0x28, 12), (0x58, 12),
    (0x59, 12), (0x2b, 12), (0x2c, 12), (0x5a, 12), (0x66, 12), (0x67, 12)]

/-- Black runs of 64, 128, up to 1728. -/
def blackMakeup : List Codeword := codewords
   [(0x0f, 10), (0xc8, 12), (0xc9, 12), (0x5b, 12), (0x33, 12), (0x34, 12), (0x35, 12),
    (0x6c, 13), (0x6d, 13), (0x4a, 13), (0x4b, 13), (0x4c, 13), (0x4d, 13), (0x72, 13),
    (0x73, 13), (0x74, 13), (0x75, 13), (0x76, 13), (0x77, 13), (0x52, 13), (0x53, 13),
    (0x54, 13), (0x55, 13), (0x5a, 13), (0x5b, 13), (0x64, 13), (0x65, 13)]

/-- Runs of 1792, 1856, up to 2560 of either color. -/
def sharedMakeup : List Codeword := codewords
   [(0x08, 11), (0x0c, 11), (0x0d, 11), (0x12, 12), (0x13, 12), (0x14, 12), (0x15, 12),
    (0x16, 12), (0x17, 12), (0x1c, 12), (0x1d, 12), (0x1e, 12), (0x1f, 12)]

/-- How the next change of color is given. -/
inductive Mode where
  /-- The pixels up to the second reference change keep their color. -/
  | pass
  /-- Two runs follow. -/
  | horizontal
  /-- The change is this far right of the first reference change. -/
  | vertical (offset : Int)
  /-- Half of the end mark. -/
  | endOfLine
  deriving DecidableEq, Repr

def modes : List (Codeword × Mode) :=
  [(⟨0x1, 4⟩, .pass), (⟨0x1, 3⟩, .horizontal),
    (⟨0x02, 7⟩, .vertical (-3)), (⟨0x02, 6⟩, .vertical (-2)), (⟨0x02, 3⟩, .vertical (-1)),
    (⟨0x1, 1⟩, .vertical 0), (⟨0x03, 3⟩, .vertical 1), (⟨0x03, 6⟩, .vertical 2),
    (⟨0x03, 7⟩, .vertical 3), (⟨0x1, 12⟩, .endOfLine)]

/-- The code words of runs of one color, with the runs they stand for. -/
def runs (terminating makeup : List Codeword) : List (Codeword × Nat) :=
  terminating.zipIdx ++ makeup.zipIdx.map (fun (w, i) => (w, (i + 1) * 64)) ++
    sharedMakeup.zipIdx.map fun (w, i) => (w, 1792 + i * 64)

def whiteRuns : List (Codeword × Nat) := runs whiteTerminating whiteMakeup

def blackRuns : List (Codeword × Nat) := runs blackTerminating blackMakeup

def runsOf (black : Bool) : List (Codeword × Nat) := if black then blackRuns else whiteRuns

def bitsFor {α : Type} [DecidableEq α] (table : List (Codeword × α)) (v : α) : List Bool :=
  match table.find? (·.2 = v) with
  | some (w, _) => w.bits
  | none => []

def meaning? {α : Type} (table : List (Codeword × α)) (w : Codeword) : Option α :=
  (table.find? (·.1 = w)).map (·.2)

def longest {α : Type} (table : List (Codeword × α)) : Nat :=
  table.foldl (fun n (w, _) => max n w.length) 0

end BandedPage.Facsimile
