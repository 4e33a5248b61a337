import Mathlib
import BandedPage.Bits.RunLength
import BandedPage.Operand.Color
import BandedPage.Operand.ImageHeader
import BandedPage.Operand.Offset
import BandedPage.Operand.Rect
import BandedPage.Proofs.Source.Ending

/-!
# Operands are read exactly

No operand looks at bytes behind it, and none that is cut short is taken for another one.
-/

namespace BandedPage

variable {σ : Type} [ByteSource σ] [LawfulSource σ] [EndingSource σ]

namespace Varint

theorem exact_decodeGroups (groups weight value : Nat) :
    Exact .alone (decodeGroups groups weight value : Decoder σ Nat) := by
  induction groups generalizing weight value with
  | zero => exact exact_nextByte.bind fun _ => .throw _
  | succ groups ih => exact exact_nextByte.bind fun b => .ite (fun _ => .pure _) fun _ => ih _ _

theorem exact_decode : Exact .alone (decode : Decoder σ Nat) := exact_decodeGroups 5 1 0

theorem exact_decodeInt : Exact .alone (decodeInt : Decoder σ Int) :=
  exact_decode.bind fun _ => .pure _

end Varint

namespace Operand

theorem exact_natural (n : Nat) : Exact .alone (natural n : Decoder σ Nat) :=
  (exact_take n).bind fun _ => .pure _

theorem exact_integer : Exact .alone (integer : Decoder σ Int) :=
  (exact_natural 4).bind fun _ => .pure _

theorem exact_single : Exact .alone (single : Decoder σ Single) :=
  (exact_take 4).bind fun _ => .pure _

end Operand

namespace ColorCommand

theorem exact_decodeFull (depth : Nat) : Exact .alone (decodeFull depth : Decoder σ Color) :=
  (exact_nextBytes _).bind fun _ => .pure _

theorem exact_decode (n : UInt8) (last : Color) (depth : Nat) :
    Exact .alone (decode n last depth : Decoder σ Color) := by
  refine .ite (fun _ => .pure _) fun _ => .ite (fun _ => exact_decodeFull depth) fun _ => ?_
  split
  · exact exact_nextByte.bind fun _ => .pure _
  · exact .ite (fun _ => exact_decodeFull depth) fun _ => .pure _

theorem exact_decodeDifference (last : Color) (depth : Nat) :
    Exact .alone (decodeDifference last depth : Decoder σ Color) :=
  (exact_nextBytes 2).bind fun _ => .pure _

end ColorCommand

namespace RectCommand

theorem exact_movedByByte (v : Int) : Exact .alone (movedByByte v : Decoder σ Int) :=
  exact_nextByte.bind fun _ => .lift _

theorem exact_decode (form : RectForm) (n : UInt8) (last : SizedRect) :
    Exact .alone (decode form n last : Decoder σ SizedRect) := by
  cases form with
  | full =>
    refine Varint.exact_decodeInt.bind fun x => .ite (fun _ => ?_) fun _ => ?_
    · exact Varint.exact_decodeInt.bind fun y => Varint.exact_decodeInt.bind fun width =>
        Varint.exact_decodeInt.bind fun height => .pure _
    · exact (Exact.lift _).bind fun y => Varint.exact_decodeInt.bind fun width =>
        (Exact.lift _).bind fun height => .pure _
  | short =>
    refine (exact_movedByByte _).bind fun x => (exact_movedByByte _).bind fun width =>
      .ite (fun _ => ?_) fun _ => ?_
    · exact (Exact.lift _).bind fun height => .pure _
    · exact (exact_movedByByte _).bind fun y => (exact_movedByByte _).bind fun height => .pure _
  | tiny =>
    refine .ite (fun _ => ?_) fun _ => ?_
    · exact (Exact.lift _).bind fun x => (Exact.lift _).bind fun width => .pure _
    · exact exact_nextByte.bind fun b => (Exact.lift _).bind fun x => (Exact.lift _).bind fun y =>
        (Exact.lift _).bind fun width => .pure _

end RectCommand

namespace Matrix

theorem exact_decodePair (bits : Nat) :
    Exact .alone (decodePair bits : Decoder σ (Single × Single)) := by
  rw [decodePair.eq_def]
  split
  · exact .pure _
  · exact Operand.exact_single.bind fun _ => .pure _
  · exact Operand.exact_single.bind fun _ => .pure _
  · exact Operand.exact_single.bind fun _ => Operand.exact_single.bind fun _ => .pure _

theorem exact_decodeOffset (bit : Nat) : Exact .alone (decodeOffset bit : Decoder σ Single) :=
  .ite (fun _ => .pure _) fun _ => Operand.exact_single

theorem exact_decode : Exact .alone (decode : Decoder σ Matrix) :=
  exact_nextByte.bind fun _ => (exact_decodePair _).bind fun _ => (exact_decodePair _).bind fun _ =>
    (exact_decodeOffset _).bind fun _ => (exact_decodeOffset _).bind fun _ => .pure _

end Matrix

namespace ImageHeader

theorem exact_decodeRanges :
    ∀ (flags : Nat) (usual : List Single),
      Exact .alone (decodeRanges flags usual : Decoder σ (List Single))
  | flags, u :: v :: usual => by
    have hrest : ∀ range, Exact .alone (do
        let rest ← decodeRanges (flags * 4) usual
        return range ++ rest : Decoder σ (List Single)) :=
      fun range => (exact_decodeRanges (flags * 4) usual).bind fun _ => .pure _
    rw [decodeRanges]
    split
    · exact (Exact.pure _).bind hrest
    · exact (Exact.pure _).bind hrest
    · exact Operand.exact_single.bind fun _ => (Exact.pure _).bind hrest
    · exact (exact_many Operand.exact_single 2).bind hrest
  | _, [_] => .pure _
  | _, [] => .pure _

theorem exact_decodeFor (cs : ColorSpace) :
    Exact .alone (decodeFor cs : Decoder σ ImageHeader) := by
  refine exact_nextByte.bind fun b => ?_
  extract_lets flags code
  split
  · extract_lets withLayout
    have hlayout : ∀ layout, Exact .alone (withLayout layout) := by
      refine fun layout => (Exact.lift _).bind fun format => Varint.exact_decode.bind fun width =>
        Varint.exact_decode.bind fun height => ?_
      extract_lets withMatrix
      have hmatrix : ∀ matrix, Exact .alone (withMatrix matrix) := by
        intro matrix
        unfold withMatrix
        extract_lets header withRanges
        have hranges : ∀ decode, Exact .alone (withRanges decode) := by
          intro decode
          unfold withRanges
          extract_lets withRect
          have hrect : ∀ rect, Exact .alone (withRect rect) := fun rect => .pure _
          exact .ite (fun _ => Varint.exact_decodeInt.bind fun _ => Varint.exact_decodeInt.bind
            fun _ => Varint.exact_decodeInt.bind fun _ => Varint.exact_decodeInt.bind fun _ =>
            (Exact.pure _).bind hrect) fun _ => (Exact.pure _).bind hrect
        exact .ite (fun _ => exact_nextByte.bind fun _ => (exact_decodeRanges _ _).bind fun _ =>
          (Exact.pure _).bind hranges) fun _ => (Exact.pure _).bind hranges
      exact .ite (fun _ => Matrix.exact_decode.bind hmatrix) fun _ => (Exact.pure _).bind hmatrix
    exact .ite (fun _ => exact_nextByte.bind hlayout) fun _ => (Exact.pure _).bind hlayout
  · exact .throw _

end ImageHeader

namespace Offset

theorem exact_decodeAlone (b : UInt8) : Exact .alone (decodeAlone b : Decoder σ Fixed) :=
  .ite (fun _ => (exact_nextBytes 2).bind fun _ => .pure _) fun _ =>
    .ite (fun _ => (exact_nextBytes 3).bind fun _ => .pure _) fun _ =>
      .ite (fun _ => (exact_nextBytes 1).bind fun _ => .pure _) fun _ =>
        (exact_take 4).bind fun _ => .pure _

theorem exact_decode (n : Nat) : Exact .alone (decode n : Decoder σ (List Fixed)) := by
  induction n using Nat.strongRecOn with
  | ind n ih =>
    match n with
    | 0 => exact .pure []
    | 1 =>
      refine exact_nextByte.bind fun b => .ite (fun _ => ?_) fun _ => ?_
      · exact (Exact.throw _).bind fun _ => (exact_decodeAlone b).bind fun _ => .pure _
      · exact (exact_decodeAlone b).bind fun _ => .pure _
    | n + 2 =>
      refine exact_nextByte.bind fun b => .ite (fun _ => ?_) fun _ => ?_
      · exact (exact_nextBytes 4).bind fun _ => (ih n (by omega)).bind fun _ => .pure _
      · exact (exact_decodeAlone b).bind fun _ => (ih (n + 1) (by omega)).bind fun _ => .pure _

end Offset

namespace RunLength

theorem exact_decodeRuns (fuel left : Nat) :
    Exact .alone (decodeRuns fuel left : Decoder σ (List (List UInt8))) := by
  induction fuel generalizing left with
  | zero => cases left <;> exact .pure _
  | succ fuel ih =>
    cases left with
    | zero => exact .pure _
    | succ left =>
      refine exact_nextByte.bind fun b => .ite (fun _ => .ite (fun _ => ?_) fun _ => ?_) fun _ =>
        .ite (fun _ => .throw _) fun _ => .ite (fun _ => ?_) fun _ => ?_
      · exact (Exact.throw _).bind fun _ => (exact_take _).bind fun _ =>
          (ih _).bind fun _ => .pure _
      · exact (exact_take _).bind fun _ => (ih _).bind fun _ => .pure _
      · exact (Exact.throw _).bind fun _ => exact_nextByte.bind fun _ =>
          (ih _).bind fun _ => .pure _
      · exact exact_nextByte.bind fun _ => (ih _).bind fun _ => .pure _

theorem exact_decode (size : Nat) : Exact .alone (decode size : Decoder σ (List UInt8)) :=
  (exact_decodeRuns size size).bind fun _ => .pure _

end RunLength

end BandedPage
