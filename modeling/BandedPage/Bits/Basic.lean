import BandedPage.Error

/-!
# Rows of bits

A bitmap is a sequence of bytes, bits counted from the high end of each. A row begins at a byte;
its short raster is the number of bytes it needs. Bits outside the bytes read as zero and cannot
be set.
-/

namespace BandedPage

/-- The bytes of a bitmap. -/
abbrev Bytes := Array UInt8

namespace Bits

def shortRaster (width : Nat) : Nat := (width + 7) / 8

def maskOf (i : Nat) : UInt8 := 0x80 >>> UInt8.ofNat (i % 8)

def get (data : Bytes) (i : Nat) : Bool := data[i / 8]?.getD 0 &&& maskOf i != 0

/-- Bit `i` set to `on`. -/
def set (data : Bytes) (i : Nat) (on : Bool) : Bytes :=
  data.modify (i / 8) fun b => if on then b ||| maskOf i else b &&& ~~~maskOf i

/-- The number whose bits are the `n` ones from `start` on, the first one highest. -/
def value (data : Bytes) (start : Nat) : Nat → Nat
  | 0 => 0
  | n + 1 => value data start n * 2 + (get data (start + n)).toNat

def overwrite (data : Bytes) : Nat → List UInt8 → Bytes
  | _, [] => data
  | start, b :: bytes => overwrite (data.setIfInBounds start b) (start + 1) bytes

/-- Copy `n` bits of `src` from bit `s` on, one by one, to `dst` from bit `d` on. -/
def copyEach (src : Bytes) (s : Nat) (dst : Bytes) (d : Nat) : Nat → Bytes
  | 0 => dst
  | n + 1 => copyEach src (s + 1) (set dst d (get src s)) (d + 1) n

/-- Copy `n` bits of `src` from bit `s` on to `dst` from bit `d` on; whole bytes are moved as
such. -/
def copy (src : Bytes) (s : Nat) (dst : Bytes) (d n : Nat) : Bytes :=
  if s % 8 = 0 && d % 8 = 0 && n % 8 = 0 then
    overwrite dst (d / 8) (src.extract (s / 8) (s / 8 + n / 8)).toList
  else copyEach src s dst d n

/-- The bytes a bitmap needs so that `rows` rows of `width` bits from bit `x` on are there. -/
def extent (raster x width rows : Nat) : Nat :=
  if rows = 0 then 0 else (rows - 1) * raster + shortRaster (x + width)

/-- `rows` rows of `width` bits from bit `x` of each source row on, at their short raster. -/
def extract (data : Bytes) (raster x width rows : Nat) : Except Error Bytes :=
  if data.size < extent raster x width rows then
    .error (.malformed
      s!"bitmap of {data.size} bytes too short for {rows} rows of raster {raster}")
  else
    let short := shortRaster width
    .ok (if short = 0 then #[]
      else (List.range rows).foldl
        (fun out y => copy data (y * raster * 8 + x) out (y * short * 8) width)
        (Array.replicate (short * rows) 0))

/-- A pattern of `height` rows of `width` bits, `across` times side by side and `down` times on
top of each other. -/
def replicate (rows : Bytes) (width height across down : Nat) : Bytes :=
  let short := shortRaster width
  let raster := shortRaster (width * across)
  if raster = 0 then #[]
  else
    (List.range height).foldl (fun out y =>
      (List.range down).foldl (fun out copyDown =>
        (List.range across).foldl (fun out copyAcross =>
          copy rows (y * short * 8) out ((copyDown * height + y) * raster * 8 + copyAcross * width)
            width) out) out)
      (Array.replicate (raster * height * down) 0)

end Bits

end BandedPage
