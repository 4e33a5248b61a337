/-!
# Ranges and sets of bands

A range is given by its ends. A set has one bit for each band. Made for a page it has room for the
page's bands in whole words of 64; what lies beyond is never a member.
-/

namespace BandedPage

/-- The bands from `min` to `max`, both included. -/
structure BandRange where
  min : Nat
  max : Nat
  deriving DecidableEq, Repr

namespace BandRange

def between (a b : Nat) : BandRange := { min := Nat.min a b, max := Nat.max a b }

def single (band : Nat) : BandRange := ⟨band, band⟩

def all (nbands : Nat) : BandRange := ⟨0, nbands - 1⟩

def contains (r : BandRange) (band : Nat) : Bool := r.min ≤ band && band ≤ r.max

def isSingle (r : BandRange) : Bool := r.min == r.max

def toList (r : BandRange) : List Nat := List.range' r.min (r.max + 1 - r.min)

@[simp]
theorem mem_toList (r : BandRange) (band : Nat) : band ∈ r.toList ↔ r.contains band = true := by
  simp only [toList, contains, List.mem_range'_1, Bool.and_eq_true, decide_eq_true_eq]
  omega

end BandRange

/-- A set of bands below `capacity`. -/
structure BandSet where
  capacity : Nat
  bits : Nat := 0
  deriving DecidableEq, Repr

namespace BandSet

/-- No band, with room for `nbands` bands. -/
def empty (nbands : Nat) : BandSet := { capacity := (nbands + 63) / 64 * 64 }

def contains (s : BandSet) (band : Nat) : Bool := s.bits.testBit band

/-- Add a band there is room for. -/
def insert (s : BandSet) (band : Nat) : BandSet :=
  if band < s.capacity then { s with bits := s.bits ||| 1 <<< band } else s

def clear (s : BandSet) : BandSet := { s with bits := 0 }

def isEmpty (s : BandSet) : Bool := s.bits == 0

@[simp] theorem contains_empty (nbands band : Nat) : (empty nbands).contains band = false := by
  simp [empty, contains]

@[simp] theorem contains_clear (s : BandSet) (band : Nat) : s.clear.contains band = false := by
  simp [clear, contains]

@[simp] theorem capacity_insert (s : BandSet) (band : Nat) :
    (s.insert band).capacity = s.capacity := by
  rw [insert]
  split <;> rfl

@[simp] theorem contains_insert (s : BandSet) (a b : Nat) (h : a < s.capacity) :
    (s.insert a).contains b = (s.contains b || decide (a = b)) := by
  simp only [insert, h, if_true, contains, Nat.testBit_or, Nat.shiftLeft_eq, Nat.one_mul,
    Nat.testBit_two_pow]

theorem contains_insert_of_ne (s : BandSet) {a b : Nat} (h : a ≠ b) :
    (s.insert a).contains b = s.contains b := by
  rw [insert]
  split
  · simp [contains, Nat.testBit_or, Nat.shiftLeft_eq, h]
  · rfl

end BandSet

end BandedPage
