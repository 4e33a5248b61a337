import Mathlib
import BandedPage.Imager.Reach
import BandedPage.Proofs.Bands
import BandedPage.Proofs.Page.Paths

/-!
# How far a nib reaches

A line is stroked with a round nib, which the matrix makes an ellipse. Its height is the width of
the nib times the length of the two numbers by which the matrix makes rows. The reach of a stroke
takes the greater number for this length. That is enough for a nib that the matrix does not slant,
and for one that it slants too short by at most the ratio of a square's side to its diagonal.
-/

namespace BandedPage

/-- A nib, in units of `2 ^ -149`: how wide it is, and how many rows a step to the right and a step
down come to. -/
structure Nib where
  width : Nat
  right : Nat
  down : Nat

namespace Nib

/-- A pixel, in units of `2 ^ -298`. -/
def pixel : Nat := 1 <<< 298

/-- The square of the nib's height on the page, in squares of `2 ^ -298` pixels. -/
def height2 (nib : Nib) : Nat := nib.width ^ 2 * (nib.right ^ 2 + nib.down ^ 2)

/-- The nib stays within so many rows of the path. -/
def Within (nib : Nib) (rows : Nat) : Prop := nib.height2 ≤ (2 * rows * pixel) ^ 2

instance (nib : Nib) (rows : Nat) : Decidable (nib.Within rows) :=
  inferInstanceAs (Decidable (_ ≤ _))

/-- The nib would stay within so many rows if only the longer side counted. -/
def SideWithin (nib : Nib) (rows : Nat) : Prop :=
  nib.width * max nib.right nib.down ≤ 2 * rows * pixel

variable {nib : Nib} {rows : Nat}

/-- A nib that the matrix does not slant has no other side. -/
theorem SideWithin.within (h : nib.SideWithin rows) (hupright : nib.right = 0 ∨ nib.down = 0) :
    nib.Within rows := by
  have hside : nib.right ^ 2 + nib.down ^ 2 = max nib.right nib.down ^ 2 := by
    rcases hupright with hzero | hzero <;> simp [hzero]
  rw [Within, height2, hside, ← Nat.mul_pow]
  exact Nat.pow_le_pow_left h 2

/-- No nib reaches further than the diagonal of a square on its longer side. -/
theorem SideWithin.height2_le (h : nib.SideWithin rows) :
    nib.height2 ≤ 2 * (2 * rows * pixel) ^ 2 := by
  have hright : nib.right ^ 2 ≤ max nib.right nib.down ^ 2 :=
    Nat.pow_le_pow_left (le_max_left ..) 2
  have hdown : nib.down ^ 2 ≤ max nib.right nib.down ^ 2 :=
    Nat.pow_le_pow_left (le_max_right ..) 2
  calc nib.height2 ≤ nib.width ^ 2 * (2 * max nib.right nib.down ^ 2) :=
        Nat.mul_le_mul_left _ (by omega)
    _ = 2 * (nib.width * max nib.right nib.down) ^ 2 := by ring
    _ ≤ 2 * (2 * rows * pixel) ^ 2 := Nat.mul_le_mul_left _ (Nat.pow_le_pow_left h 2)

end Nib

namespace ImagerState

/-- Lines are stroked with this nib, and no corner or end reaches further than it does. -/
structure Uses (s : ImagerState) (nib : Nib) : Prop where
  width : Magnitude.ofSingle s.lineWidth = .finite nib.width
  right : Magnitude.ofSingle s.ctm.xy = .finite nib.right
  down : Magnitude.ofSingle s.ctm.yy = .finite nib.down
  join : s.join ≠ .miter
  cap : s.cap ≠ .square

variable {s : ImagerState} {nib : Nib} {reach : Int}

theorem Uses.halfReach (h : s.Uses nib) :
    s.halfReach = (.finite (nib.width * max (max nib.right nib.down) (1 <<< 149)),
      2 * Nib.pixel) := by
  simp only [ImagerState.halfReach, h.width, h.right, h.down, if_neg h.join, if_neg h.cap,
    Magnitude.max, Magnitude.mul, Magnitude.one]
  rfl

/-- A reach is one row more than the longer side of the nib needs. -/
theorem Uses.sideWithin (h : s.Uses nib) (hreach : s.strokeReach = some reach) :
    ∃ rows : Nat, reach = rows + 1 ∧ nib.SideWithin rows := by
  have hpixel : 0 < 2 * Nib.pixel := by decide
  rw [strokeReach, h.halfReach] at hreach
  dsimp only at hreach
  have hside : nib.width * max nib.right nib.down ≤
      nib.width * max (max nib.right nib.down) (1 <<< 149) :=
    Nat.mul_le_mul_left _ (le_max_left ..)
  generalize nib.width * max (max nib.right nib.down) (1 <<< 149) = n at hreach hside
  split at hreach
  · cases hreach
  · refine ⟨n ⌈/⌉ (2 * Nib.pixel), ?_, hside.trans ?_⟩
    · have hcast : ((n + 2 * Nib.pixel - 1 : Nat) : Int) = n + (2 * Nib.pixel : Nat) - 1 := by
        omega
      rw [Nat.ceilDiv_eq_add_pred_div, Int.natCast_ediv, hcast]
      exact (Option.some.inj hreach).symm
    · rw [Nat.mul_right_comm]
      exact le_smul_ceilDiv hpixel

/-- An upright nib stays within the reach of a stroke, with a row to spare. -/
theorem Uses.within (h : s.Uses nib) (hreach : s.strokeReach = some reach)
    (hupright : nib.right = 0 ∨ nib.down = 0) :
    ∃ rows : Nat, reach = rows + 1 ∧ nib.Within rows := by
  obtain ⟨rows, hrows, hside⟩ := h.sideWithin hreach
  exact ⟨rows, hrows, hside.within hupright⟩

/-- Whatever the matrix, the diagonal of a square on the reach is long enough. -/
theorem Uses.height2_le (h : s.Uses nib) (hreach : s.strokeReach = some reach) :
    nib.height2 ≤ 2 * (2 * reach.toNat * Nib.pixel) ^ 2 := by
  obtain ⟨rows, rfl, hside⟩ := h.sideWithin hreach
  refine hside.height2_le.trans (Nat.mul_le_mul_left _ (Nat.pow_le_pow_left ?_ 2))
  exact Nat.mul_le_mul_right _ (Nat.mul_le_mul_left _ (by omega))

end ImagerState

namespace Config

variable {c : Config} {ps : ImagerState} {path : Path} {nib : Nib}

/-- An upright nib leaves out no band: one that has a row no further from the path than the nib
reaches is told the stroke. -/
theorem Valid.mem_strokeBands (hc : c.Valid) (hheight : c.height < 2147483648) (h : ps.Uses nib)
    (hupright : nib.right = 0 ∨ nib.down = 0) {y height row : Int}
    (hspan : path.rowSpan = some (y, height)) {rows : Nat}
    (hrows : ∀ fewer < rows, ¬ nib.Within fewer) (hlo : y - rows ≤ row)
    (hhi : row < y + height + rows) {band : Nat} (hband : band < c.nbands)
    (hrow : (c.bandRect band).HasRow row) : band ∈ c.strokeBands ps path := by
  obtain ⟨hpage, -⟩ := (hc.bandRect_hasRow hheight hband).mp hrow
  cases hreach : ps.strokeReach with
  | none =>
    simp only [strokeBands, hspan, hreach, BandRange.mem_toList, allBands, BandRange.all,
      BandRange.contains, Bool.and_eq_true, decide_eq_true_eq]
    omega
  | some reach =>
    obtain ⟨enough, rfl, hwithin⟩ := h.within hreach hupright
    have hle : rows ≤ enough := by
      by_contra hmore
      exact hrows enough (by omega) hwithin
    simp only [strokeBands, hspan, hreach]
    cases hbands : c.bandsFor (y - (enough + 1)) (height + 2 * (enough + 1)) with
    | none => exact absurd hpage (hc.bandsFor_eq_none_iff.mp hbands row (by omega) (by omega))
    | some bands =>
      refine (BandRange.mem_toList bands band).mpr
        ((hc.contains_bandsFor_iff hheight hbands).mpr ?_)
      exact ⟨hband, row, by omega, by omega, hrow⟩

end Config

/-! ### A slanted nib -/

/-- A broad round nib that the matrix turns by an eighth and makes larger. -/
def slanted : ImagerState where
  lineWidth := ⟨0x42480000⟩
  ctm := { xx := .one, xy := .one, yx := -.one, yy := .one, tx := .zero, ty := .zero }
  join := .round

/-- A line in row 34, of which a slanted nib of 50 pixels also touches row 69. -/
def levelLine : Path := (({} : Path).moveTo ⟨2560, 8704⟩).lineTo ⟨12800, 8704⟩ 0

/-- A slanted nib reaches 36 rows, but a stroke is taken to reach 26, and the second band, which
begins 30 rows below the line, is not told the stroke. -/
theorem slanted_nib_leaves_band_out :
    slanted.Uses ⟨50 <<< 149, 1 <<< 149, 1 <<< 149⟩ ∧ slanted.strokeReach = some 26 ∧
      ¬ Nib.Within ⟨50 <<< 149, 1 <<< 149, 1 <<< 149⟩ 35 ∧
      ({ width := 64, height := 128, bandHeight := 64 } : Config).strokeBands slanted levelLine =
        [0] :=
  ⟨⟨by decide, by decide, by decide, by decide, by decide⟩, by decide, by decide, by decide⟩

end BandedPage
