/-!
# Halftones and transfer maps

A halftone is only carried: the writer sends it to every band in portions, and replay puts it
together again. Its orders are counted from the default order, number 0, through the components'.
-/

namespace BandedPage

/-- One threshold bit of an order. -/
structure ThresholdBit where
  offset : Nat
  mask : Nat
  deriving DecidableEq, Repr

/-- The threshold order of one component, with the levels and bits that have arrived. -/
structure HalftoneOrder where
  width : Nat := 0
  height : Nat := 0
  raster : Nat := 0
  shift : Nat := 0
  /-- The number of levels that belong to the order. -/
  levelCount : Nat := 0
  /-- The number of bits that belong to the order. -/
  bitCount : Nat := 0
  levels : List Nat := []
  bits : List ThresholdBit := []
  deriving DecidableEq, Repr, Inhabited

namespace HalftoneOrder

/-- Every level and bit has arrived. -/
def isComplete (o : HalftoneOrder) : Bool :=
  o.levels.length == o.levelCount && o.bits.length == o.bitCount

end HalftoneOrder

/-- The order of a named color component. -/
structure HalftoneComponent where
  name : Nat := 0
  order : HalftoneOrder := {}
  deriving DecidableEq, Repr, Inhabited

/-- A device halftone. -/
structure Halftone where
  kind : Nat := 0
  order : HalftoneOrder := {}
  components : List HalftoneComponent := []
  deriving DecidableEq, Repr, Inhabited

namespace Halftone

/-- Order `index`; the default order is number 0. -/
def order? (h : Halftone) : Nat → Option HalftoneOrder
  | 0 => some h.order
  | i + 1 => h.components[i]?.map (·.order)

def modifyOrder (h : Halftone) (index : Nat) (f : HalftoneOrder → HalftoneOrder) : Halftone :=
  match index with
  | 0 => { h with order := f h.order }
  | i + 1 =>
    { h with components := h.components.modify i fun c => { c with order := f c.order } }

/-- Name the component of order `index`; the default order has no name. -/
def setName (h : Halftone) (index name : Nat) : Halftone :=
  match index with
  | 0 => h
  | i + 1 => { h with components := h.components.modify i fun c => { c with name } }

end Halftone

def transferMapSize : Nat := 256

/-- A sampled transfer function; the identity when absent. -/
abbrev TransferMap := Option (List Nat)

def transferMapCount : Nat := 32

end BandedPage
