import BandedPage.Source.Basic

/-!
# Run lengths

A length byte `n` up to 127 is followed by `n + 1` bytes to copy, one from 129 up by a single
byte to repeat `257 - n` times. The byte 128 would end the data; it is never written, since the
reader knows how many bytes to expect.
-/

namespace BandedPage.RunLength

/-- The longest run of either kind. -/
def maxRun : Nat := 128

/-- How many times `b` stands at the start of the list, at most `n` times. -/
def repeats (b : UInt8) : Nat → List UInt8 → Nat
  | n + 1, c :: rest => if c = b then repeats b n rest + 1 else 0
  | _, _ => 0

/-- The bytes before the first of two equal neighbours, at most `n`. -/
def literal : Nat → List UInt8 → List UInt8
  | n + 1, b :: rest => if rest.head? = some b then [] else b :: literal n rest
  | _, _ => []

/-- The coded runs of `data`, at most `fuel` of them. -/
def encodeRuns : Nat → List UInt8 → List UInt8
  | _, [] => []
  | 0, _ => []
  | fuel + 1, b :: rest =>
    let more := repeats b (maxRun - 1) rest
    if more ≠ 0 then
      UInt8.ofNat (256 - more) :: b :: encodeRuns fuel (rest.drop more)
    else
      let run := literal maxRun (b :: rest)
      UInt8.ofNat (run.length - 1) :: (run ++ encodeRuns fuel ((b :: rest).drop run.length))

/-- The coded form of `data`. Each run takes at least one byte. -/
def encode (data : List UInt8) : List UInt8 := encodeRuns data.length data

variable {σ : Type} [ByteSource σ]

/-- Decode until `left` bytes are complete, in at most `fuel` runs. -/
def decodeRuns : Nat → Nat → Decoder σ (List (List UInt8))
  | _, 0 => return []
  | 0, _ => return []
  | fuel + 1, left => do
    let n := (← nextByte).toNat
    if n < 128 then
      if left < n + 1 then
        let excess := n + 1 - left
        throw (.malformed s!"run-length literal of {n + 1} overruns by {excess}")
      let run ← ByteSource.take (n + 1)
      let rest ← decodeRuns fuel (left - (n + 1))
      return run :: rest
    else if n = 128 then
      throw (.malformed s!"run-length data ended {left} bytes short")
    else
      let count := 257 - n
      if left < count then
        let excess := count - left
        throw (.malformed s!"run-length repeat of {count} overruns by {excess}")
      let b ← nextByte
      let rest ← decodeRuns fuel (left - count)
      return List.replicate count b :: rest

/-- Decode exactly `size` bytes. Each run gives at least one. -/
def decode (size : Nat) : Decoder σ (List UInt8) := do
  let runs ← decodeRuns size size
  return runs.flatten

end BandedPage.RunLength
