/-!
# Fixed-width integers and their bytes

Coordinates are integers; where a stream or a difference keeps only 32 bits of one, the
reduction is written out. `wrap32` is the representative of a residue modulo `2 ^ 32` in
`[-2 ^ 31, 2 ^ 31)`, `pattern32` the one in `[0, 2 ^ 32)`. The byte orders are given on natural
numbers, of which they keep the low bytes.
-/

namespace BandedPage.Word

/-- `x` needs at most `width` bits in two's complement. -/
def fits (width : Nat) (x : Int) : Bool :=
  let half : Int := (1 <<< (width - 1) : Nat)
  x < half && -half ≤ x

/-- The signed value of the low `width` bits of `x`, which is `x` itself if it needs no more. -/
def signed (width : Nat) (x : Int) : Int := if fits width x then x else x.bmod (1 <<< width)

/-- The signed value of the low 32 bits. -/
def wrap32 (x : Int) : Int := signed 32 x

/-- The low `width` bits as a natural number. -/
def pattern (width : Nat) (x : Int) : Nat := (x % (1 <<< width : Nat)).toNat

/-- The low 32 bits as a natural number. -/
def pattern32 (x : Int) : Nat := pattern 32 x

/-- Values a signed 32-bit integer can hold. -/
def fits32 (x : Int) : Bool := -2147483648 ≤ x && x < 2147483648

def byte (x : Int) : UInt8 := UInt8.ofNat (pattern 8 x)

theorem wrap32_eq_bmod (x : Int) : wrap32 x = x.bmod 4294967296 := by
  simp only [wrap32, signed, fits, Bool.and_eq_true, decide_eq_true_eq, Int.bmod_def,
    Nat.one_shiftLeft]
  omega

@[simp] theorem wrap32_of_fits32 {x : Int} (h : fits32 x = true) : wrap32 x = x := by
  simp only [fits32, Bool.and_eq_true, decide_eq_true_eq] at h
  simp only [wrap32_eq_bmod, Int.bmod_def]
  omega

/-- The low `n` bytes, most significant first. -/
def bigEndian : Nat → Nat → List UInt8
  | 0, _ => []
  | n + 1, v => UInt8.ofNat (v >>> (8 * n)) :: bigEndian n v

def littleEndian : Nat → Nat → List UInt8
  | 0, _ => []
  | n + 1, v => UInt8.ofNat v :: littleEndian n (v / 256)

/-- The number whose bytes these are, most significant first. -/
def ofBigEndian (bs : List UInt8) : Nat := bs.foldl (fun v b => v * 256 + b.toNat) 0

/-- The number whose bytes these are, least significant first. -/
def ofLittleEndian : List UInt8 → Nat
  | [] => 0
  | b :: bs => b.toNat + 256 * ofLittleEndian bs

@[simp] theorem length_bigEndian (n v : Nat) : (bigEndian n v).length = n := by
  induction n with
  | zero => rfl
  | succ n ih => simp [bigEndian, ih]

@[simp] theorem length_littleEndian (n v : Nat) : (littleEndian n v).length = n := by
  induction n generalizing v with
  | zero => rfl
  | succ n ih => simp [littleEndian, ih]

end BandedPage.Word
