import Mathlib
import BandedPage.Proofs.Bits.Basic
import BandedPage.Proofs.Span
import BandedPage.Proofs.Word
import BandedPage.Proofs.Writer.Samples
import BandedPage.Proofs.Writer.Selecting
import BandedPage.Writer.Rectangle

/-!
# The pattern of a tile

A tile paints the same pattern in one copy, in several, and piece by piece. The remainder by the size
of several copies tells the copy and the place in it, and none of the copies is told from another. A
piece reaches over no edge of the tile, so its pixels are those of some of the tile's rows and columns.
-/

namespace BandedPage

namespace Bits

/-- The first bytes have their bits. -/
theorem get_extract_zero {data : Bytes} {n i : Nat} (h : i < n * 8) :
    get (data.extract 0 n) i = get data i := by
  rw [get_eq_testBit, get_eq_testBit, Array.getElem?_extract, Nat.zero_add]
  by_cases hin : i / 8 < data.size
  · rw [if_pos (by omega)]
  · rw [if_neg (by omega), Array.getElem?_eq_none (by omega)]

end Bits

/-- The remainder by several copies is that by one, in one of the copies. -/
theorem exists_copy_of_emod (a : Int) {n k : Nat} (hn : 0 < n) (hk : 0 < k) :
    ∃ copy < k, (a % ((n * k : Nat) : Int)).toNat = copy * n + (a % (n : Int)).toNat := by
  have hpos : (0 : Int) < ((n * k : Nat) : Int) := by exact_mod_cast Nat.mul_pos hn hk
  obtain ⟨b, hb⟩ := Int.eq_ofNat_of_zero_le (Int.emod_nonneg a hpos.ne')
  have hlt : b < n * k := by exact_mod_cast hb ▸ Int.emod_lt_of_pos a hpos
  have hmod : a % (n : Int) = ((b % n : Nat) : Int) := by
    rw [Int.natCast_mod, ← hb, Int.emod_emod_of_dvd a (by exact_mod_cast Nat.dvd_mul_right n k)]
  refine ⟨b / n, Nat.div_lt_of_lt_mul hlt, ?_⟩
  rw [hb, hmod, Int.toNat_natCast, Int.toNat_natCast, Nat.div_add_mod']

namespace TileSize

variable {size : TileSize} {across down : Nat}

/-- The rows of all copies together are not too many. -/
theorem copies_le (h : size.replication = some (across, down)) :
    Bits.shortRaster (size.patternBits * across) * size.repHeight * down ≤ 256 := by
  rw [replication] at h
  split at h
  · cases h
  · obtain ⟨hfits, heq⟩ := Option.ite_none_right_eq_some.mp h
    obtain ⟨hacross, hdown⟩ := Prod.mk.injEq .. ▸ Option.some.inj heq
    rw [hdown, hacross] at hfits
    exact hfits

/-- Tiles that shift from row to row are not stacked. -/
theorem down_of_replication (h : size.replication = some (across, down)) :
    down = 1 ∨ size.repShift = 0 := by
  rw [replication] at h
  split at h
  · cases h
  · obtain ⟨-, heq⟩ := Option.ite_none_right_eq_some.mp h
    obtain ⟨-, hdown⟩ := Prod.mk.injEq .. ▸ Option.some.inj heq
    by_cases hshift : size.repShift = 0
    · exact .inr hshift
    · rw [if_pos hshift] at hdown
      exact .inl hdown.symm

/-- Copies are only made of a single copy that has pixels. -/
theorem sides_of_replication (h : size.replication = some (across, down)) :
    0 < size.repWidth ∧ 0 < size.repHeight := by
  rw [replication] at h
  split at h
  · cases h
  · next hsingle =>
    simp only [Bool.or_eq_true, decide_eq_true_eq, not_or] at hsingle
    exact ⟨Nat.pos_of_ne_zero hsingle.1.2, Nat.pos_of_ne_zero hsingle.2⟩

/-- Copies take up little room. Tiles that shift from row to row are not stacked. -/
theorem replication_fits (h : size.replication = some (across, down)) (hdepth : 0 < size.depth) :
    (0 < across ∧ size.repWidth * across ≤ 2048) ∧ (0 < down ∧ size.repHeight * down ≤ 256) ∧
      (down = 1 ∨ size.repShift = 0) := by
  obtain ⟨⟨hacross, -⟩, hdown, -⟩ := replication_bounds h
  obtain ⟨hwidth, hheight⟩ := sides_of_replication h
  have hfilled := copies_le h
  rw [Nat.mul_assoc] at hfilled
  have hbits : size.repWidth ≤ size.patternBits := Nat.le_mul_of_pos_right _ hdepth
  have hrow : size.repWidth * across ≤ Bits.shortRaster (size.patternBits * across) * 8 :=
    (Nat.mul_le_mul_right across hbits).trans (Bits.width_le_shortRaster _)
  refine ⟨⟨hacross, ?_⟩, ⟨hdown, ?_⟩, down_of_replication h⟩
  · have hle := Nat.le_mul_of_pos_right (Bits.shortRaster (size.patternBits * across))
      (Nat.mul_pos hheight hdown)
    omega
  · have hpos : 0 < Bits.shortRaster (size.patternBits * across) := by
      have := Nat.mul_pos hwidth hacross
      omega
    exact (Nat.le_mul_of_pos_left _ hpos).trans hfilled

end TileSize

namespace Tile

variable {t : Tile} {phase : Phase} {x y : Int}

/-- A tile that has pixels, and whose sides are coordinates. -/
structure Sized (t : Tile) : Prop where
  width : 0 < t.width ∧ t.width < 2147483648
  height : 0 < t.height ∧ t.height < 2147483648

namespace Sized

@[simp]
theorem xPeriod_eq (h : t.Sized) : t.size.xPeriod = t.size.width := Word.wrap32_natCast h.width.2

@[simp]
theorem yPeriod_eq (h : t.Sized) : t.size.yPeriod = t.size.height := Word.wrap32_natCast h.height.2

theorem xPeriod_pos (h : t.Sized) : 0 < t.size.xPeriod := by
  rw [h.xPeriod_eq]
  exact_mod_cast h.width.1

theorem yPeriod_pos (h : t.Sized) : 0 < t.size.yPeriod := by
  rw [h.yPeriod_eq]
  exact_mod_cast h.height.1

end Sized

/-- The value at a place of the plane is that at its place in the tile. -/
theorem Sized.pixel_eq (h : t.Sized) (x y : Int) (phase : Phase) :
    t.pixel x y phase = Bits.value t.data ((t.size.rowAt phase y).toNat * t.raster * 8 +
      (t.size.columnAt phase x y).toNat * t.size.depth) t.size.depth % 4294967296 := by
  rw [pixel, if_neg (by simp [h.xPeriod_pos.ne', h.yPeriod_pos.ne'])]

theorem pixel_lt (t : Tile) (x y : Int) (phase : Phase) : t.pixel x y phase < 4294967296 := by
  rw [pixel]
  split
  · exact Nat.zero_lt_succ _
  · exact Nat.mod_lt _ (Nat.zero_lt_succ _)

/-- Where the tile's pixel lies in its rows. -/
theorem Sized.place_lt (h : t.Sized) (phase : Phase) (x y : Int) {i : Nat}
    (hi : i < t.size.depth) :
    (t.size.columnAt phase x y).toNat * t.size.depth + i < t.size.width * t.size.depth ∧
      (t.size.rowAt phase y).toNat < t.size.height := by
  have hx := h.xPeriod_pos
  have hy := h.yPeriod_pos
  rw [h.xPeriod_eq] at hx
  rw [h.yPeriod_eq] at hy
  rw [TileSize.columnAt, TileSize.rowAt, h.xPeriod_eq, h.yPeriod_eq]
  have hcolumn := Int.emod_lt_of_pos (x + t.size.xOffset phase y) hx
  have hrow := Int.emod_lt_of_pos (y + phase.y) hy
  have hcolumn' := Int.emod_nonneg (x + t.size.xOffset phase y) hx.ne'
  have hlt : ((x + t.size.xOffset phase y) % (t.size.width : Int)).toNat + 1 ≤ t.size.width := by omega
  refine ⟨?_, by omega⟩
  have := Nat.mul_le_mul_right t.size.depth hlt
  rw [Nat.add_mul, Nat.one_mul] at this
  omega

/-- Bytes behind the last row do not count. -/
theorem Sized.pixel_take (h : t.Sized) (x y : Int) (phase : Phase) :
    ({ t with data := t.data.extract 0 t.size.dataSize } : Tile).pixel x y phase =
      t.pixel x y phase := by
  have htaken : Sized { t with data := t.data.extract 0 t.size.dataSize } := ⟨h.width, h.height⟩
  rw [h.pixel_eq, htaken.pixel_eq]
  refine congrArg (· % 4294967296) (Bits.value_congr fun i hi => Bits.get_extract_zero ?_)
  obtain ⟨hcolumn, hrow⟩ := h.place_lt phase x y hi
  have hraster : t.size.width * t.size.depth ≤ t.size.raster * 8 := Bits.width_le_shortRaster _
  have hrows : ((t.size.rowAt phase y).toNat + 1) * t.size.raster ≤ t.size.height * t.size.raster :=
    Nat.mul_le_mul_right _ hrow
  rw [Nat.add_mul, Nat.one_mul, Nat.mul_comm t.size.height] at hrows
  show (t.size.rowAt phase y).toNat * t.size.raster * 8 +
    (t.size.columnAt phase x y).toNat * t.size.depth + i < t.size.raster * t.size.height * 8
  omega

/-- A tile of one copy that has all its rows. -/
structure Single (t : Tile) : Prop extends t.Sized where
  xReps : t.size.xReps = 1
  yReps : t.size.yReps = 1
  depth : 0 < t.size.depth
  full : t.size.dataSize ≤ t.data.size

namespace Single

theorem width_eq (h : t.Single) : t.size.width = t.size.repWidth := by
  rw [TileSize.width, h.xReps, Nat.mul_one]

theorem height_eq (h : t.Single) : t.size.height = t.size.repHeight := by
  rw [TileSize.height, h.yReps, Nat.mul_one]

end Single

/-- How a tile is stored in several copies. -/
theorem replicated_eq {across down : Nat} (h : t.size.replication = some (across, down)) :
    t.replicated = { t with
      size := { t.size with xReps := across, yReps := down }
      data := Bits.replicate t.data t.size.patternBits t.size.repHeight across down } := by
  rw [replicated, h]

theorem Single.sized_replicated (h : t.Single) : t.replicated.Sized := by
  cases hreplication : t.size.replication with
  | none =>
    rw [replicated, hreplication]
    exact h.toSized
  | some copies =>
    obtain ⟨across, down⟩ := copies
    obtain ⟨⟨hacross, hwidth⟩, ⟨hdown, hheight⟩, -⟩ :=
      TileSize.replication_fits hreplication h.depth
    have hw : 0 < t.size.repWidth := h.width_eq ▸ h.width.1
    have hh : 0 < t.size.repHeight := h.height_eq ▸ h.height.1
    rw [replicated_eq hreplication]
    exact ⟨⟨Nat.mul_pos hw hacross, hwidth.trans_lt (by decide)⟩,
      Nat.mul_pos hh hdown, hheight.trans_lt (by decide)⟩

/-- A tile that is stored in several copies paints the same pattern. -/
@[simp] theorem Single.pixel_replicated (h : t.Single) (x y : Int) (phase : Phase) :
    t.replicated.pixel x y phase = t.pixel x y phase := by
  cases hreplication : t.size.replication with
  | none => rw [replicated, hreplication]
  | some copies =>
    obtain ⟨across, down⟩ := copies
    obtain ⟨⟨hacross, -⟩, ⟨hdown, -⟩, hshift⟩ := TileSize.replication_fits hreplication h.depth
    have hw : t.size.width = t.size.repWidth := h.width_eq
    have hh : t.size.height = t.size.repHeight := h.height_eq
    have hwpos : 0 < t.size.repWidth := hw ▸ h.width.1
    have hhpos : 0 < t.size.repHeight := hh ▸ h.height.1
    have hstored := replicated_eq hreplication
    have hsized := h.sized_replicated
    have hx : t.replicated.size.xPeriod = ((t.size.repWidth * across : Nat) : Int) := by
      rw [hsized.xPeriod_eq, hstored, TileSize.width]
    have hy : t.replicated.size.yPeriod = ((t.size.repHeight * down : Nat) : Int) := by
      rw [hsized.yPeriod_eq, hstored, TileSize.height]
    have hoffset : t.replicated.size.xOffset phase y = t.size.xOffset phase y := by
      have hshifts : t.replicated.size.repShift = t.size.repShift := by rw [hstored]
      rw [TileSize.xOffset, TileSize.xOffset, hy, h.yPeriod_eq, hshifts, hh]
      rcases hshift with rfl | hzero
      · rw [Nat.mul_one]
      · rw [hzero]
        have hnone : Word.wrap32 ((0 : Nat) : Int) = 0 := rfl
        rw [hnone, Int.mul_zero, Int.mul_zero]
    obtain ⟨v, hv, hrow⟩ := exists_copy_of_emod (y + phase.y) hhpos hdown
    obtain ⟨u, hu, hcolumn⟩ := exists_copy_of_emod (x + t.size.xOffset phase y) hwpos hacross
    have hrowAt : (t.replicated.size.rowAt phase y).toNat =
        v * t.size.repHeight + (t.size.rowAt phase y).toNat := by
      rw [TileSize.rowAt, TileSize.rowAt, hy, hrow, h.yPeriod_eq, hh]
    have hcolumnAt : (t.replicated.size.columnAt phase x y).toNat =
        u * t.size.repWidth + (t.size.columnAt phase x y).toNat := by
      rw [TileSize.columnAt, TileSize.columnAt, hoffset, hx, hcolumn, h.xPeriod_eq, hw]
    have hraster : t.raster = Bits.shortRaster t.size.patternBits := by
      rw [raster, TileSize.raster, hw, TileSize.patternBits]
    have hrasters : t.replicated.raster = Bits.shortRaster (t.size.patternBits * across) := by
      rw [hstored, TileSize.patternBits, Nat.mul_right_comm]
      rfl
    have hdepth : t.replicated.size.depth = t.size.depth := by rw [hstored]
    have hdata : t.replicated.data =
        Bits.replicate t.data t.size.patternBits t.size.repHeight across down := by rw [hstored]
    rw [hsized.pixel_eq, h.pixel_eq, hrowAt, hcolumnAt, hraster, hrasters, hdepth, hdata]
    refine congrArg (· % 4294967296) (Bits.value_congr fun i hi => ?_)
    obtain ⟨hin, hlast⟩ := h.place_lt phase x y hi
    rw [hh] at hlast
    rw [hw] at hin
    have hfull : Bits.shortRaster t.size.patternBits * t.size.repHeight ≤ t.data.size := by
      rw [← hraster, ← hh]
      exact h.full
    have hcopy := Bits.get_replicate hfull hlast hv hu hin
    refine Eq.trans (congrArg (Bits.get _) ?_)
      (hcopy.trans (congrArg (Bits.get _) (Nat.add_assoc ..).symm))
    rw [TileSize.patternBits]
    ring

/-- The rows of a tile that is stored in several copies are there, and few. -/
theorem size_replicated {across down : Nat} (h : t.size.replication = some (across, down)) :
    t.replicated.data.size = t.replicated.size.dataSize ∧ t.replicated.data.size ≤ 256 := by
  have hsize : t.replicated.data.size =
      Bits.shortRaster (t.size.patternBits * across) * t.size.repHeight * down := by
    simp [replicated_eq h]
  refine ⟨?_, hsize.le.trans (TileSize.copies_le h)⟩
  rw [hsize, replicated_eq h, TileSize.patternBits, Nat.mul_right_comm t.size.repWidth, Nat.mul_assoc]
  rfl

/-- A tile of one copy is kept as it is or stored in more copies that take little room, and paints the
same pattern all over the plane. -/
theorem replication_keeps_pattern (t : Tile) (hcopies : t.size.xReps = 1 ∧ t.size.yReps = 1)
    (hsides : 1 ≤ t.width ∧ 1 ≤ t.height) (hdepth : 1 ≤ t.size.depth ∧ t.size.depth ≤ 32)
    (hdata : t.data.size = t.size.dataSize) :
    t.replicated.data.size = t.replicated.size.dataSize ∧
      (t.replicated = t ∨ t.replicated.data.size ≤ 256) ∧
      ∀ (x y : Int) (phase : Phase), t.replicated.pixel x y phase = t.pixel x y phase := by
  cases hreplication : t.size.replication with
  | none =>
    have hsame : t.replicated = t := by rw [replicated, hreplication]
    rw [hsame]
    exact ⟨hdata, .inl rfl, fun x y phase => rfl⟩
  | some copies =>
    obtain ⟨across, down⟩ := copies
    obtain ⟨⟨hacross, hwidth⟩, ⟨hdown, hheight⟩, -⟩ := TileSize.replication_fits hreplication hdepth.1
    have hw : t.width = t.size.repWidth := by rw [width, TileSize.width, hcopies.1, Nat.mul_one]
    have hh : t.height = t.size.repHeight := by rw [height, TileSize.height, hcopies.2, Nat.mul_one]
    -- What is too large for copies is far larger than a coordinate.
    have hwide := Nat.le_mul_of_pos_right t.size.repWidth hacross
    have hhigh := Nat.le_mul_of_pos_right t.size.repHeight hdown
    have hsingle : t.Single := {
      width := ⟨hsides.1, by omega⟩
      height := ⟨hsides.2, by omega⟩
      xReps := hcopies.1
      yReps := hcopies.2
      depth := hdepth.1
      full := hdata.ge }
    obtain ⟨hsize, hsmall⟩ := size_replicated hreplication
    exact ⟨hsize, .inr hsmall, hsingle.pixel_replicated⟩

/-- Rows of nine bits, each tile row shifted against the one above. -/
theorem shifted_replication_keeps_pattern :
    let t : Tile := { id := 9, size := { TileSize.single 3 2 3 with repShift := 2 }
                      data := #[0x53, 0x80, 0xac, 0x00] }
    t.replicated.data.size = t.replicated.size.dataSize ∧
      (t.replicated = t ∨ t.replicated.data.size ≤ 256) ∧
      ∀ (x y : Int) (phase : Phase), t.replicated.pixel x y phase = t.pixel x y phase := by
  intro t
  exact replication_keeps_pattern t ⟨rfl, rfl⟩ (by decide) (by decide) (by decide)

/-- A geometry and bits are those of the tile, in one copy or as it is stored. -/
def ShownBy (t : Tile) (size : TileSize) (bits : Bytes) : Prop :=
  ∃ stored, (stored = t ∨ stored = t.replicated) ∧ size = stored.size ∧
    bits = stored.data.extract 0 stored.size.dataSize

/-- However a tile is shown, its pattern is the same. -/
theorem ShownBy.pixel_eq {size : TileSize} {bits : Bytes} (hshown : t.ShownBy size bits)
    (h : t.Single) (id : BitmapId) (x y : Int) (phase : Phase) :
    ({ id, size, data := bits } : Tile).pixel x y phase = t.pixel x y phase ∧
      size.depth = t.size.depth := by
  obtain ⟨stored, hstored, rfl, rfl⟩ := hshown
  have hsame : ({ id, size := stored.size
                  data := stored.data.extract 0 stored.size.dataSize } : Tile).pixel x y phase =
      ({ stored with data := stored.data.extract 0 stored.size.dataSize } : Tile).pixel x y phase :=
    rfl
  rw [hsame]
  rcases hstored with rfl | rfl
  · exact ⟨h.pixel_take x y phase, rfl⟩
  · rw [h.sized_replicated.pixel_take, h.pixel_replicated]
    refine ⟨rfl, ?_⟩
    rw [replicated]
    split <;> rfl

/-! ### Pieces -/

variable {rows columns : Span} {lo hi lo' hi' : Int}

/-- Within a piece the rows and columns of the tile follow one another. -/
theorem Single.place_of_piece (h : t.Single)
    (hrows : rows ∈ Span.cut t.size.yPeriod (-phase.y) lo hi)
    (hcolumns : columns ∈ Span.cut t.size.xPeriod (-t.size.xOffset phase rows.start) lo' hi')
    (hy : rows.Has y) (hx : columns.Has x) :
    (t.size.rowAt phase y).toNat = (t.size.rowAt phase rows.start).toNat + (y - rows.start).toNat ∧
      (t.size.columnAt phase x y).toNat =
        (t.size.columnAt phase columns.start rows.start).toNat + (x - columns.start).toNat := by
  have hxpos := h.xPeriod_pos
  have hypos := h.yPeriod_pos
  obtain ⟨hdiv, hrow⟩ := Span.divMod_of_mem_cut hypos hrows hy
  obtain ⟨-, hcolumn⟩ := Span.divMod_of_mem_cut hxpos hcolumns hx
  simp only [sub_neg_eq_add] at hdiv hrow hcolumn
  have hoffset : t.size.xOffset phase y = t.size.xOffset phase rows.start := by
    rw [TileSize.xOffset, TileSize.xOffset, hdiv]
  have hfirst := Int.emod_nonneg (rows.start + phase.y) hypos.ne'
  have hfirst' := Int.emod_nonneg (columns.start + t.size.xOffset phase rows.start) hxpos.ne'
  obtain ⟨hy, -⟩ := hy
  obtain ⟨hx, -⟩ := hx
  simp only [TileSize.rowAt, TileSize.columnAt, hoffset, hrow, hcolumn]
  omega

/-- A piece has the pixels of the tile. -/
theorem Single.sample_bitmapAt (h : t.Single) (hdepth : t.size.depth ≤ 32)
    (hrows : rows ∈ Span.cut t.size.yPeriod (-phase.y) lo hi)
    (hcolumns : columns ∈ Span.cut t.size.xPeriod (-t.size.xOffset phase rows.start) lo' hi')
    (hp : (Rect.ofSize columns.start rows.start columns.length rows.length).HasPixel x y) :
    Raster.sample (t.bitmapAt phase columns.start rows.start)
      (.ofSize columns.start rows.start columns.length rows.length) t.size.depth x y =
        UInt64.ofNat (t.pixel x y phase) := by
  obtain ⟨hx, hx', hy, hy'⟩ := hp
  obtain ⟨hrow, hcolumn⟩ := h.place_of_piece hrows hcolumns ⟨hy, hy'⟩ ⟨hx, hx'⟩
  have hvalue : ∀ start, Bits.value t.data start t.size.depth < 4294967296 := fun start =>
    (Bits.value_lt ..).trans_le (Nat.pow_le_pow_right (by decide) hdepth)
  rw [h.pixel_eq, Nat.mod_eq_of_lt (hvalue _), hrow, hcolumn]
  simp only [Raster.sample, bitmapAt, Bitmap.drop, Bits.value_extract_size, Rect.ofSize]
  congr 2
  rw [raster]
  ring

/-- A tile has all rows of a piece. -/
theorem Single.covers_bitmapAt (h : t.Single)
    (hrows : rows ∈ Span.cut t.size.yPeriod (-phase.y) lo hi)
    (hcolumns : columns ∈ Span.cut t.size.xPeriod (-t.size.xOffset phase rows.start) lo' hi') :
    (t.bitmapAt phase columns.start rows.start).Covers
      (.ofSize columns.start rows.start columns.length rows.length) t.size.depth := by
  have hrow := Span.emod_add_length_le h.yPeriod_pos hrows
  have hcolumn := Span.emod_add_length_le h.xPeriod_pos hcolumns
  obtain ⟨-, hpos, -⟩ := Span.of_mem_cut h.yPeriod_pos hrows
  obtain ⟨-, hpos', -⟩ := Span.of_mem_cut h.xPeriod_pos hcolumns
  rw [sub_neg_eq_add, ← TileSize.rowAt, h.yPeriod_eq] at hrow
  rw [sub_neg_eq_add, ← TileSize.columnAt, h.xPeriod_eq] at hcolumn
  have hfirst : 0 ≤ t.size.rowAt phase rows.start := Int.emod_nonneg _ h.yPeriod_pos.ne'
  have hfirst' : 0 ≤ t.size.columnAt phase columns.start rows.start :=
    Int.emod_nonneg _ h.xPeriod_pos.ne'
  have hwidth : (Rect.ofSize columns.start rows.start columns.length rows.length).width =
      columns.length := add_sub_cancel_left ..
  have hheight : (Rect.ofSize columns.start rows.start columns.length rows.length).height =
      rows.length := add_sub_cancel_left ..
  simp only [Bitmap.Covers, bitmapAt, Bitmap.drop, hwidth, hheight, Array.size_extract, Nat.zero_add]
  generalize t.size.rowAt phase rows.start = row at hrow hfirst ⊢
  generalize t.size.columnAt phase columns.start rows.start = column at hcolumn hfirst' ⊢
  have hraster : Bits.shortRaster (column.toNat * t.size.depth + columns.length.toNat * t.size.depth) ≤
      t.raster := by
    rw [← Nat.add_mul]
    exact Bits.shortRaster_mono (Nat.mul_le_mul_right _ (by omega))
  have hrows : (row.toNat + rows.length.toNat) * t.raster ≤ t.size.height * t.raster :=
    Nat.mul_le_mul_right _ (by omega)
  have hfull : t.raster * t.size.height ≤ t.data.size := h.full
  rw [Nat.mul_comm] at hfull
  rw [Nat.add_mul] at hrows
  rw [Bits.extent]
  split
  · omega
  · next hne =>
    have hlast : (rows.length.toNat - 1) * t.raster + t.raster = rows.length.toNat * t.raster := by
      rw [← Nat.succ_mul, Nat.succ_eq_add_one, Nat.sub_add_cancel (Nat.pos_of_ne_zero hne)]
    omega

end Tile

end BandedPage
