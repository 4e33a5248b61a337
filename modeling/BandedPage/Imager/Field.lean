/-!
# Fields of the imager state

A band is sent a field of the imager state when a command first depends on it, and again only
after it changed. A `FieldSet` says which fields a command needs or a band has been sent.
-/

namespace BandedPage

/-- What a band can be told about the imager state, in the order it is told. -/
inductive StateField where
  | flatness
  | fillAdjust
  | ctm
  | lineWidth
  | miterLimit
  /-- Line cap and join. -/
  | capJoin
  /-- Accurate curves, overprint and stroke adjustment. -/
  | curveOptions
  | dash
  | alpha
  | clip
  | colorSpace
  deriving DecidableEq, Repr

namespace StateField

def all : List StateField :=
  [flatness, fillAdjust, ctm, lineWidth, miterLimit, capJoin, curveOptions, dash, alpha, clip,
    colorSpace]

/-- The place of a field among the eleven. -/
def index : StateField → Nat
  | flatness => 0
  | fillAdjust => 1
  | ctm => 2
  | lineWidth => 3
  | miterLimit => 4
  | capJoin => 5
  | curveOptions => 6
  | dash => 7
  | alpha => 8
  | clip => 9
  | colorSpace => 10

end StateField

/-- A set of fields, one bit a field. -/
structure FieldSet where
  bits : BitVec 11
  deriving DecidableEq, Repr

namespace FieldSet

def empty : FieldSet := ⟨0⟩

instance : Inhabited FieldSet := ⟨empty⟩
instance : EmptyCollection FieldSet := ⟨empty⟩

def contains (s : FieldSet) (f : StateField) : Bool := s.bits.getLsbD f.index

def singleton (f : StateField) : FieldSet := ⟨BitVec.twoPow 11 f.index⟩

instance : Union FieldSet := ⟨fun a b => ⟨a.bits ||| b.bits⟩⟩
instance : SDiff FieldSet := ⟨fun a b => ⟨a.bits &&& ~~~b.bits⟩⟩

def insert (s : FieldSet) (f : StateField) : FieldSet := s ∪ singleton f

def isEmpty (s : FieldSet) : Bool := s.bits == 0

def ofList (fs : List StateField) : FieldSet := fs.foldl insert ∅

/-- The fields whose bits are set in `n`. -/
def ofNat (n : Nat) : FieldSet := ⟨BitVec.ofNat 11 n⟩

def toNat (s : FieldSet) : Nat := s.bits.toNat

/-- What filling a path depends on. -/
def fill : FieldSet := ofList [.flatness, .fillAdjust, .alpha, .clip]

/-- What stroking a path depends on. -/
def stroke : FieldSet :=
  ofList [.flatness, .fillAdjust, .ctm, .lineWidth, .miterLimit, .capJoin, .curveOptions, .dash,
    .alpha, .clip]

/-- What an image depends on apart from its clip. -/
def image : FieldSet := ofList [.ctm, .alpha, .colorSpace]

@[simp] theorem contains_union (a b : FieldSet) (f : StateField) :
    (a ∪ b).contains f = (a.contains f || b.contains f) := by
  simp [contains, Union.union]

@[simp] theorem contains_sdiff (a b : FieldSet) (f : StateField) :
    (a \ b).contains f = (a.contains f && !b.contains f) := by
  have h : f.index < 11 := by cases f <;> decide
  simp [contains, SDiff.sdiff, h]

@[simp] theorem contains_empty (f : StateField) : (∅ : FieldSet).contains f = false := by
  cases f <;> rfl

@[simp] theorem contains_singleton (f g : StateField) :
    (singleton f).contains g = decide (f = g) := by
  cases f <;> cases g <;> rfl

end FieldSet

end BandedPage
