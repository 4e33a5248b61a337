import Mathlib
import BandedPage.Proofs.Bits.Basic
import BandedPage.Proofs.Writer.Copies
import BandedPage.Target.Raster

/-!
# The pixels of a bitmap on its way

A bitmap that is cut to a part of its rectangle, packed into the rows of a piece or put into the cache
has the same pixels there as before, as long as it has all rows of its rectangle.
-/

namespace BandedPage

theorem Bits.exists_extract {data : Bytes} {raster x width rows : Nat}
    (h : extent raster x width rows ≤ data.size) : ∃ out, extract data raster x width rows = .ok out := by
  rw [extract, if_neg (by omega)]
  exact ⟨_, rfl⟩

theorem Bits.shortRaster_mono {a b : Nat} (h : a ≤ b) : shortRaster a ≤ shortRaster b := by
  rw [shortRaster, shortRaster]
  omega

/-- The bitmap has all rows of the rectangle, and all pixels of the last one. -/
def Bitmap.Covers (b : Bitmap) (rect : Rect) (depth : Nat) : Prop :=
  Bits.extent b.raster (b.dataX * depth) (rect.width.toNat * depth) rect.height.toNat ≤ b.data.size

/-- A bitmap that has all rows can be painted. -/
theorem Bitmap.Covers.checkRows {b : Bitmap} {rect : Rect} {depth : Nat} (h : b.Covers rect depth) :
    Raster.checkRows b rect depth = .ok () := by
  rw [Covers, Bits.extent, ← Nat.add_mul] at h
  have hok : (decide (0 < rect.height.toNat) && decide (b.data.size < (rect.height.toNat - 1) * b.raster +
      Bits.shortRaster ((b.dataX + rect.width.toNat) * depth))) = false := by
    rw [Bool.and_eq_false_iff, decide_eq_false_iff_not, decide_eq_false_iff_not]
    split at h
    · left
      omega
    · right
      omega
  rw [Raster.checkRows]
  simp only [hok]
  rfl

/-- The part is not larger than the rectangle. -/
structure Rect.Within (part rect : Rect) : Prop where
  x : rect.x1 ≤ part.x1 ∧ part.x2 ≤ rect.x2
  y : rect.y1 ≤ part.y1 ∧ part.y2 ≤ rect.y2

namespace Bitmap

variable {b : Bitmap} {rect part : Rect} {depth : Nat}

/-- What is left of a bitmap for a part has all rows of the part. -/
theorem Covers.drop (h : b.Covers rect depth) (hpart : part.Within rect) (hwidth : part.x1 ≤ part.x2) :
    (b.drop (part.x1 - rect.x1) (part.y1 - rect.y1)).Covers part depth := by
  obtain ⟨⟨hx, hx'⟩, hy, hy'⟩ := hpart
  have hw : part.width = part.x2 - part.x1 := rfl
  have hw' : rect.width = rect.x2 - rect.x1 := rfl
  have hh : part.height = part.y2 - part.y1 := rfl
  have hh' : rect.height = rect.y2 - rect.y1 := rfl
  rw [Covers, Bits.extent, ← Nat.add_mul] at h ⊢
  by_cases hrows : part.height.toNat = 0
  · rw [if_pos hrows]
    exact Nat.zero_le _
  rw [if_neg hrows]
  rw [if_neg (by omega)] at h
  obtain ⟨dx, hdx⟩ : ∃ dx, dx = (part.x1 - rect.x1).toNat := ⟨_, rfl⟩
  obtain ⟨dy, hdy⟩ : ∃ dy, dy = (part.y1 - rect.y1).toNat := ⟨_, rfl⟩
  have hsize : (b.drop (part.x1 - rect.x1) (part.y1 - rect.y1)).data.size =
      b.data.size - dy * b.raster := by
    rw [Bitmap.drop, Array.size_extract, hdy]
    omega
  rw [hsize]
  show (part.height.toNat - 1) * b.raster + Bits.shortRaster
    ((b.dataX + (part.x1 - rect.x1).toNat + part.width.toNat) * depth) ≤ _
  have hlast : Bits.shortRaster ((b.dataX + (part.x1 - rect.x1).toNat + part.width.toNat) * depth) ≤
      Bits.shortRaster ((b.dataX + rect.width.toNat) * depth) :=
    Bits.shortRaster_mono (Nat.mul_le_mul_right depth (by omega))
  have hbefore : (part.height.toNat - 1 + dy) * b.raster ≤ (rect.height.toNat - 1) * b.raster :=
    Nat.mul_le_mul_right _ (by omega)
  rw [Nat.add_mul] at hbefore
  omega

end Bitmap

namespace Raster

variable {b : Bitmap} {rect part : Rect} {depth : Nat} {x y : Int}

/-- What is left of a bitmap for a part has the pixels that it had there. -/
theorem sample_drop (hpart : part.Within rect) (hx : part.x1 ≤ x) (hy : part.y1 ≤ y) :
    sample (b.drop (part.x1 - rect.x1) (part.y1 - rect.y1)) part depth x y =
      sample b rect depth x y := by
  obtain ⟨⟨hleft, -⟩, htop, -⟩ := hpart
  have hrow : (y - rect.y1).toNat = (part.y1 - rect.y1).toNat + (y - part.y1).toNat := by omega
  have hcolumn : (x - rect.x1).toNat = (part.x1 - rect.x1).toNat + (x - part.x1).toNat := by omega
  simp only [sample, Bitmap.drop, Bits.value_extract_size, hrow, hcolumn]
  congr 2
  ring

/-- Rows that were packed from the pixel `shift` before the rectangle on have its pixels. -/
theorem sample_extract {out : Bytes} {first shift width rows : Nat}
    (h : Bits.extract b.data b.raster (first * depth) ((shift + width) * depth) rows = .ok out)
    (hwidth : rect.width.toNat ≤ width) (hrows : rect.height.toNat ≤ rows)
    (hfirst : first + shift = b.dataX) (hp : rect.HasPixel x y) :
    sample { data := out, dataX := shift, raster := Bits.shortRaster ((shift + width) * depth) } rect
      depth x y = sample b rect depth x y := by
  obtain ⟨hx, hx', hy, hy'⟩ := hp
  have hw : rect.width = rect.x2 - rect.x1 := rfl
  have hh : rect.height = rect.y2 - rect.y1 := rfl
  have hcolumn : (shift + (x - rect.x1).toNat) * depth + depth ≤ (shift + width) * depth := by
    have := Nat.mul_le_mul_right depth (show shift + (x - rect.x1).toNat + 1 ≤ shift + width by omega)
    rwa [Nat.add_mul _ 1, Nat.one_mul] at this
  have hvalue := Bits.value_extract h (show (y - rect.y1).toNat < rows by omega) hcolumn
  simp only [sample, hvalue, ← hfirst]
  congr 2
  ring

end Raster

/-- Rows that were packed for a rectangle are all there. -/
theorem Bitmap.covers_of_extract {b : Bitmap} {rect : Rect} {depth : Nat} {out : Bytes}
    {first shift rows : Nat} (h : Bits.extract b.data b.raster first
      ((shift + rect.width.toNat) * depth) rows = .ok out) (hrows : rect.height.toNat ≤ rows) :
    Covers { data := out, dataX := shift
             raster := Bits.shortRaster ((shift + rect.width.toNat) * depth) } rect depth := by
  rw [Covers, Bits.extent, Bits.size_of_extract h, ← Nat.add_mul]
  split
  · exact Nat.zero_le _
  · dsimp only
    generalize Bits.shortRaster ((shift + rect.width.toNat) * depth) = raster
    have := Nat.mul_le_mul_left raster hrows
    obtain ⟨n, hn⟩ : ∃ n, rect.height.toNat = n + 1 := ⟨rect.height.toNat - 1, by omega⟩
    rw [hn, Nat.add_sub_cancel]
    rw [hn, Nat.mul_add, Nat.mul_one] at this
    rw [Nat.mul_comm]
    exact this

namespace BitmapCopy

variable {c : BitmapCopy} {q : Terms} {config : Config} {columns rows : Span}

/-- A piece lies within the rectangle of its copy. -/
structure Holds (c : BitmapCopy) (columns rows : Span) : Prop where
  columns : c.rect.x1 ≤ columns.start ∧ 0 < columns.length ∧ columns.start + columns.length ≤ c.rect.x2
  rows : c.rect.y1 ≤ rows.start ∧ 0 < rows.length ∧ rows.start + rows.length ≤ c.rect.y2

theorem Holds.within (h : c.Holds columns rows) : (pieceRect columns rows).toRect.Within c.rect :=
  ⟨⟨h.columns.1, h.columns.2.2⟩, h.rows.1, h.rows.2.2⟩

theorem shift_le_column (c : BitmapCopy) (depth : Nat) (x : Int) : c.shift depth x ≤ c.column x := by
  rw [shift]
  split
  · exact Nat.mod_le ..
  · exact Nat.zero_le _

/-- What is left of the bitmap for a piece. -/
def rest (c : BitmapCopy) (columns rows : Span) : Bitmap :=
  c.bitmap.drop (columns.start - c.rect.x1) (rows.start - c.rect.y1)

/-- The rows of a piece are taken out of what is left of the bitmap for it. -/
theorem pieceRows_eq (hpiece : c.Piece q config columns rows) :
    c.pieceRows (c.paint.depth config.depth) columns rows =
      Bits.extract (c.rest columns rows).data (c.rest columns rows).raster
        (((c.rest columns rows).dataX - c.shift (c.paint.depth config.depth) columns.start) *
          c.paint.depth config.depth)
        ((c.shift (c.paint.depth config.depth) columns.start +
          (pieceRect columns rows).toRect.width.toNat) * c.paint.depth config.depth)
        (pieceRect columns rows).toRect.height.toNat := by
  have hwidth : (pieceRect columns rows).toRect.width = columns.length := add_sub_cancel_left ..
  have hheight : (pieceRect columns rows).toRect.height = rows.length := add_sub_cancel_left ..
  rw [pieceRows, hpiece.rowBits, hpiece.rows_eq, hwidth, hheight]
  rfl

/-- Each piece of a bitmap that has all rows is taken out of it. -/
theorem pieceBitmap_eq (hpiece : c.Piece q config columns rows) (hin : c.Holds columns rows)
    (hcovers : c.bitmap.Covers c.rect (c.paint.depth config.depth)) :
    ∃ bits, c.pieceRows (c.paint.depth config.depth) columns rows = .ok bits ∧
      c.pieceBitmap config columns rows =
        { data := bits, dataX := c.shift (c.paint.depth config.depth) columns.start
          raster := Bits.shortRaster ((c.shift (c.paint.depth config.depth) columns.start +
            (pieceRect columns rows).toRect.width.toNat) * c.paint.depth config.depth) } := by
  have hleft : (c.rest columns rows).Covers (pieceRect columns rows).toRect
      (c.paint.depth config.depth) :=
    hcovers.drop hin.within (le_add_of_nonneg_right hin.columns.2.1.le)
  have hshift : c.shift (c.paint.depth config.depth) columns.start ≤ (c.rest columns rows).dataX :=
    c.shift_le_column ..
  have hwidth : (pieceRect columns rows).toRect.width = columns.length := add_sub_cancel_left ..
  obtain ⟨bits, hbits⟩ : ∃ bits, c.pieceRows (c.paint.depth config.depth) columns rows = .ok bits := by
    rw [pieceRows_eq hpiece]
    refine Bits.exists_extract ?_
    rw [Bitmap.Covers, Bits.extent, ← Nat.add_mul] at hleft
    rwa [Bits.extent, ← Nat.add_mul, ← Nat.add_assoc, Nat.sub_add_cancel hshift]
  refine ⟨bits, hbits, ?_⟩
  rw [pieceBitmap, hbits, hpiece.rowBits, hwidth]
  rfl

/-- A piece has the pixels that the bitmap has there. -/
theorem sample_pieceBitmap (hpiece : c.Piece q config columns rows) (hin : c.Holds columns rows)
    (hcovers : c.bitmap.Covers c.rect (c.paint.depth config.depth)) {x y : Int}
    (hp : (pieceRect columns rows).toRect.HasPixel x y) :
    Raster.sample (c.pieceBitmap config columns rows) (pieceRect columns rows).toRect
      (c.paint.depth config.depth) x y =
        Raster.sample c.bitmap c.rect (c.paint.depth config.depth) x y := by
  obtain ⟨bits, hbits, hbitmap⟩ := pieceBitmap_eq hpiece hin hcovers
  rw [pieceRows_eq hpiece] at hbits
  rw [hbitmap, Raster.sample_extract hbits le_rfl le_rfl
    (Nat.sub_add_cancel (c.shift_le_column ..)) hp]
  exact Raster.sample_drop hin.within hp.1 hp.2.2.1

/-- A piece has all its rows. -/
theorem covers_pieceBitmap (hpiece : c.Piece q config columns rows) (hin : c.Holds columns rows)
    (hcovers : c.bitmap.Covers c.rect (c.paint.depth config.depth)) :
    (c.pieceBitmap config columns rows).Covers (pieceRect columns rows).toRect
      (c.paint.depth config.depth) := by
  obtain ⟨bits, hbits, hbitmap⟩ := pieceBitmap_eq hpiece hin hcovers
  rw [pieceRows_eq hpiece] at hbits
  rw [hbitmap]
  exact Bitmap.covers_of_extract hbits le_rfl

/-! ### Cached rows -/

def cachedBitmap (c : BitmapCopy) (config : Config) (rows : Bytes) : Bitmap :=
  ⟨rows, 0, (c.cachedSize config).raster⟩

theorem cachedBitmap_eq (c : BitmapCopy) (config : Config) (rows : Bytes) :
    c.cachedBitmap config rows = ⟨rows, 0, Bits.shortRaster
      ((0 + c.rect.width.toNat) * c.paint.depth config.depth)⟩ := by
  rw [cachedBitmap, TileSize.raster, TileSize.width, Nat.zero_add]
  simp [cachedSize, TileSize.single]

theorem cachedRows_eq (c : BitmapCopy) (config : Config) :
    c.cachedRows config = Bits.extract c.bitmap.data c.bitmap.raster
      (c.bitmap.dataX * c.paint.depth config.depth)
      ((0 + c.rect.width.toNat) * c.paint.depth config.depth) c.rect.height.toNat := by
  rw [Nat.zero_add]
  rfl

theorem exists_cachedRows (hcovers : c.bitmap.Covers c.rect (c.paint.depth config.depth)) :
    ∃ bits, c.cachedRows config = .ok bits := by
  rw [cachedRows_eq]
  refine Bits.exists_extract ?_
  rwa [Nat.zero_add]

/-- The cached rows have the bitmap's pixels. -/
theorem sample_cachedBitmap {bits : Bytes} (hrows : c.cachedRows config = .ok bits) {x y : Int}
    (hp : c.rect.HasPixel x y) :
    Raster.sample (c.cachedBitmap config bits) c.rect (c.paint.depth config.depth) x y =
      Raster.sample c.bitmap c.rect (c.paint.depth config.depth) x y := by
  rw [cachedRows_eq] at hrows
  rw [cachedBitmap_eq]
  exact Raster.sample_extract hrows le_rfl le_rfl (Nat.add_zero _) hp

theorem covers_cachedBitmap {bits : Bytes} (hrows : c.cachedRows config = .ok bits) :
    (c.cachedBitmap config bits).Covers c.rect (c.paint.depth config.depth) := by
  rw [cachedRows_eq] at hrows
  rw [cachedBitmap_eq]
  exact Bitmap.covers_of_extract hrows le_rfl

/-! ### All pieces -/

namespace CanCut

/-- The pieces of a copy lie within its rectangle. -/
theorem holds_of_mem (h : c.CanCut q config) {p : Span × Span} (hp : p ∈ c.pieces config) :
    c.Holds p.1 p.2 := by
  simp only [pieces, List.mem_flatMap, List.mem_map] at hp
  obtain ⟨columns, hcolumns, rows, hrows, rfl⟩ := hp
  exact ⟨h.chain_columns.of_mem hcolumns, (h.chain_rows hcolumns).of_mem hrows⟩

@[simp] theorem hasPixel_pieceRect {columns rows : Span} {x y : Int} :
    (pieceRect columns rows).toRect.HasPixel x y ↔ columns.Has x ∧ rows.Has y :=
  ⟨fun h => ⟨⟨h.1, h.2.1⟩, h.2.2⟩, fun h => ⟨h.1.1, h.1.2, h.2⟩⟩

/-- Each pixel of a copy is in one of its pieces. -/
theorem exists_piece (h : c.CanCut q config) {x y : Int} (hp : c.rect.HasPixel x y) :
    ∃ p ∈ c.pieces config, (pieceRect p.1 p.2).toRect.HasPixel x y := by
  obtain ⟨hx, hx', hy, hy'⟩ := hp
  obtain ⟨columns, hcolumns, hhas⟩ := h.chain_columns.exists_has hx hx'
  obtain ⟨rows, hrows, hhas'⟩ := (h.chain_rows hcolumns).exists_has hy hy'
  refine ⟨(columns, rows), ?_, hasPixel_pieceRect.mpr ⟨hhas, hhas'⟩⟩
  simp only [pieces, List.mem_flatMap, List.mem_map]
  exact ⟨columns, hcolumns, rows, hrows, rfl⟩

/-- And in no other one. -/
theorem pairwise_pieces (h : c.CanCut q config) : (c.pieces config).Pairwise fun p p' =>
    (pieceRect p.1 p.2).toRect.Apart (pieceRect p'.1 p'.2).toRect := by
  simp only [pieces, List.pairwise_flatMap]
  refine ⟨fun columns hcolumns => ?_, ?_⟩
  · refine List.pairwise_map.mpr ((h.chain_rows hcolumns).pairwise.imp ?_)
    rintro rows rows' hapart x y ⟨hp, hp'⟩
    exact hapart y (hasPixel_pieceRect.mp hp).2 (hasPixel_pieceRect.mp hp').2
  · refine h.chain_columns.pairwise.imp ?_
    intro columns columns' hapart p hp p' hp' x y hpixel
    obtain ⟨rows, -, rfl⟩ := List.mem_map.mp hp
    obtain ⟨rows', -, rfl⟩ := List.mem_map.mp hp'
    exact hapart x (hasPixel_pieceRect.mp hpixel.1).1 (hasPixel_pieceRect.mp hpixel.2).1

/-- A bitmap that has all rows can be sent. -/
theorem sendPieces_ok (h : c.CanCut q config)
    (hcovers : c.bitmap.Covers c.rect (c.paint.depth config.depth)) (d : BandDraft) :
    ∃ d', c.sendPieces config d = .ok d' := by
  have hpiece : ∀ p ∈ c.pieces config, ∀ d, ∃ d', c.sendPiece config d p.1 p.2 = .ok d' := by
    intro p hp d
    have hknown := h.piece_of_mem hp
    obtain ⟨bits, hbits, -⟩ := pieceBitmap_eq hknown (h.holds_of_mem hp) hcovers
    have hroom : Bits.shortRaster (c.rowBits (c.paint.depth config.depth) p.1) *
        Word.pattern 64 p.2.length ≤ config.readerSize := by
      rw [hknown.rows_eq]
      exact hknown.fits.trans (Nat.sub_le ..)
    obtain ⟨payload, hpayload⟩ := Payload.exists_choose bits (c.paint.methods config.compression) hroom
    rw [sendPiece, hbits]
    simp only [bind, Except.bind, hpayload]
    exact ⟨_, rfl⟩
  rw [sendPieces_eq]
  revert hpiece
  generalize c.pieces config = pieces
  intro hpiece
  induction pieces generalizing d with
  | nil => exact ⟨d, rfl⟩
  | cons p pieces ih =>
    obtain ⟨d₁, hd₁⟩ := hpiece p List.mem_cons_self d
    obtain ⟨d', hd'⟩ := ih d₁ fun p hp => hpiece p (List.mem_cons_of_mem _ hp)
    refine ⟨d', ?_⟩
    rw [List.foldlM_cons, hd₁]
    exact hd'

end CanCut

end BitmapCopy

end BandedPage
