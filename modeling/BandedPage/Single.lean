import BandedPage.Word

/-!
# Single-precision numbers as bit patterns

A number of the imaging model travels as its 32 bits, and what the library decides about it
(is it zero, are two equal, what is its negation) is decided on the bits. `==` is the
comparison of IEEE 754: the two zeros are equal, and a NaN equals nothing, not even itself.
Arithmetic goes through the machine's single precision, one rounding an operation. Numbers are
rounded to integers by their significands.
-/

namespace BandedPage

/-- A single-precision number, given by its bits. -/
structure Single where
  bits : UInt32
  deriving Repr

namespace Single

def zero : Single := ⟨0⟩
def one : Single := ⟨0x3f800000⟩

instance : Inhabited Single := ⟨zero⟩

def magnitude (a : Single) : UInt32 := a.bits &&& 0x7fffffff

def isNegative (a : Single) : Bool := 0x80000000 ≤ a.bits

def isNaN (a : Single) : Bool := 0x7f800000 < a.magnitude

def isFinite (a : Single) : Bool := a.magnitude < 0x7f800000

def isZero (a : Single) : Bool := a.magnitude == 0

/-- Equality of numbers, not of patterns. -/
def ieeeEq (a b : Single) : Bool :=
  !a.isNaN && !b.isNaN && (a.bits == b.bits || (a.isZero && b.isZero))

instance : BEq Single := ⟨ieeeEq⟩

/-- Negation flips the sign bit, also of zeros and NaNs. -/
def neg (a : Single) : Single := ⟨a.bits ^^^ 0x80000000⟩

instance : Neg Single := ⟨neg⟩

/-- The bytes of the pattern, least significant first. -/
def toBytes (a : Single) : List UInt8 := Word.littleEndian 4 a.bits.toNat

def ofBytes (bs : List UInt8) : Single := ⟨UInt32.ofNat (Word.ofLittleEndian bs)⟩

def toFloat32 (a : Single) : Float32 := Float32.ofBits a.bits

def ofFloat32 (x : Float32) : Single := ⟨x.toBits⟩

instance : Add Single := ⟨fun a b => ofFloat32 (a.toFloat32 + b.toFloat32)⟩
instance : Sub Single := ⟨fun a b => ofFloat32 (a.toFloat32 - b.toFloat32)⟩
instance : Mul Single := ⟨fun a b => ofFloat32 (a.toFloat32 * b.toFloat32)⟩
instance : Div Single := ⟨fun a b => ofFloat32 (a.toFloat32 / b.toFloat32)⟩

def ofNat (n : Nat) : Single := ofFloat32 (Float32.ofNat n)

def lt (a b : Single) : Bool := a.toFloat32 < b.toFloat32

/-- The smaller of two numbers; a NaN gives way to the other operand. -/
def min (a b : Single) : Single := if a.isNaN then b else if b.lt a then b else a

/-- The larger of two numbers; a NaN gives way to the other operand. -/
def max (a b : Single) : Single := if a.isNaN then b else if a.lt b then b else a

def infinity : Single := ⟨0x7f800000⟩
def negInfinity : Single := ⟨0xff800000⟩

/-- The unit of the last place is `2 ^ place` times the smallest subnormal number. -/
def place (a : Single) : Nat := a.magnitude.toNat / 0x800000 - 1

/-- The significand, as a multiple of the unit of the last place. -/
def significand (a : Single) : Int :=
  let m := a.magnitude.toNat
  let s : Int := if m < 0x800000 then m else m % 0x800000 + 0x800000
  if a.isNegative then -s else s

/-- A finite number in units of the smallest subnormal number, `2 ^ -149`. An infinity stands beyond
all of them. -/
def units (a : Single) : Int := a.significand * (1 <<< a.place : Nat)

/-- The nearest 32-bit integer. -/
def clamp32 (v : Int) : Int := Min.min (Max.max v (-2147483648)) 2147483647

/-- The largest 32-bit integer not above `a`, the nearest one if `a` is out of their range. -/
def floorInt (a : Single) : Int := if a.isNaN then 0 else clamp32 (a.units / (1 <<< 149 : Nat))

/-- The smallest 32-bit integer not below `a`, the nearest one if `a` is out of their range. -/
def ceilInt (a : Single) : Int := if a.isNaN then 0 else clamp32 (-(-a.units / (1 <<< 149 : Nat)))

end Single

end BandedPage
