/-!
# Cutting intervals

A pattern that repeats is copied in pieces none of which reaches over a repetition, and what is
too large for one command is sent in pieces of equal size. Both cut an interval of coordinates at
equal distances.

`cut` is the list of the pieces. An interval can be far longer than what there is to copy, so the
loops over the pieces find each one only after the one before it was dealt with, and end at the
first failure; `foldlM_eq_cut` says that they are loops over that list.
-/

namespace BandedPage

/-- `length` coordinates from `start` on. -/
structure Span where
  start : Int
  length : Int
  deriving DecidableEq, Repr

namespace Span

/-- The coordinates from `lo` up to `hi`, or to the first that differs from `origin` by a multiple
of `period` after `lo`. -/
def first (period origin lo hi : Int) : Span :=
  ⟨lo, min (period - (lo - origin) % period) (hi - lo)⟩

/-- A step forward leaves a shorter interval. -/
theorem toNat_sub_lt {lo hi n : Int} (h : lo < hi) (hn : 0 < n) :
    (hi - (lo + n)).toNat < (hi - lo).toNat := by omega

/-- The coordinates from `lo` to before `hi`, cut before each that differs from `origin` by a
multiple of `period`. A piece that does not go forward is the last one. -/
def cut (period origin lo hi : Int) : List Span :=
  if lo < hi then
    let s := first period origin lo hi
    if 0 < s.length then s :: cut period origin (lo + s.length) hi else [s]
  else []
termination_by (hi - lo).toNat
decreasing_by exact toNat_sub_lt ‹_› ‹_›

variable {m : Type → Type} {β : Type} [Monad m]

@[specialize]
def foldlM (period origin lo hi : Int) (f : β → Span → m β) (init : β) : m β :=
  if lo < hi then do
    let s := first period origin lo hi
    let b ← f init s
    if 0 < s.length then foldlM period origin (lo + s.length) hi f b else return b
  else return init
termination_by (hi - lo).toNat
decreasing_by exact toNat_sub_lt ‹_› ‹_›

/-- Do something with each piece of an interval. -/
@[inline]
def forM (period origin lo hi : Int) (f : Span → m Unit) : m Unit :=
  foldlM period origin lo hi (fun _ => f) ()

theorem foldlM_eq_cut [LawfulMonad m] (period origin lo hi : Int) (f : β → Span → m β) (init : β) :
    foldlM period origin lo hi f init = (cut period origin lo hi).foldlM f init := by
  fun_induction cut period origin lo hi generalizing init with
  | case1 lo h s hs ih =>
    rw [foldlM, if_pos h, List.foldlM_cons]
    exact bind_congr fun b => by rw [if_pos hs, ih]
  | case2 lo h s hs =>
    rw [foldlM, if_pos h, List.foldlM_cons]
    exact bind_congr fun b => by rw [if_neg hs, List.foldlM_nil]
  | case3 lo h => rw [foldlM, if_neg h, List.foldlM_nil]

end Span

end BandedPage
