import Mathlib
import BandedPage.Proofs.Config
import BandedPage.Proofs.Span
import BandedPage.Proofs.Word
import BandedPage.Proofs.Writer.Mirror
import BandedPage.Writer.Copy

/-!
# The pieces of a bitmap

A bitmap is cut into pieces each of which fits the reader's buffer, wherever within a byte its rows
begin.
-/

namespace BandedPage

/-- The pixels of a part of a page. -/
structure Rect.OnPage (q : Terms) (r : Rect) : Prop where
  x : 0 ≤ r.x1 ∧ r.x1 < r.x2 ∧ q.Allows r.x2
  y : 0 ≤ r.y1 ∧ r.y1 < r.y2 ∧ q.Allows r.y2

/-- Between zero and an allowed number all are allowed. -/
theorem Terms.Allows.of_le {q : Terms} {v w : Int} (hw : q.Allows w) (hv : 0 ≤ v) (hle : v ≤ w) :
    q.Allows v :=
  ⟨q.least_le.trans hv, hle.trans hw.2⟩

theorem Rect.OnPage.within {q : Terms} {r : Rect} (h : r.OnPage q) :
    (SizedRect.ofRect r).Within q := by
  have hwidth : (SizedRect.ofRect r).width = r.x2 - r.x1 := rfl
  have hheight : (SizedRect.ofRect r).height = r.y2 - r.y1 := rfl
  obtain ⟨⟨hx, hx', hxa⟩, hy, hy', hya⟩ := h
  exact ⟨hxa.of_le hx hx'.le, hya.of_le hy hy'.le, hxa.of_le (by omega) (by omega),
    hya.of_le (by omega) (by omega)⟩

namespace BitmapCopy

/-- The pieces of a copy, by columns and within them by rows. -/
def pieces (c : BitmapCopy) (config : Config) : List (Span × Span) :=
  let depth := c.paint.depth config.depth
  (Span.cut (pieceWidth depth config.payloadRoom) c.rect.x1 c.rect.x1 c.rect.x2).flatMap
    fun columns => (Span.cut (c.pieceHeight depth config.payloadRoom columns) c.rect.y1 c.rect.y1
      c.rect.y2).map fun rows => (columns, rows)

theorem sendPieces_eq (c : BitmapCopy) (config : Config) (d : BandDraft) :
    c.sendPieces config d =
      (c.pieces config).foldlM (fun d p => c.sendPiece config d p.1 p.2) d := by
  have hflat : ∀ (columns : List Span) (f : Span → List Span) (d : BandDraft),
      columns.foldlM (fun d column => (f column).foldlM
        (fun d rows => c.sendPiece config d column rows) d) d =
      (columns.flatMap fun column => (f column).map fun rows => (column, rows)).foldlM
        (fun d p => c.sendPiece config d p.1 p.2) d := by
    intro columns f d
    induction columns generalizing d with
    | nil => rfl
    | cons column columns ih =>
      rw [List.foldlM_cons, List.flatMap_cons, List.foldlM_append, List.foldlM_map]
      exact bind_congr fun d => ih d
  rw [sendPieces, Span.foldlM_eq_cut, pieces, ← hflat]
  simp only [Span.foldlM_eq_cut]

def pieceRect (columns rows : Span) : SizedRect :=
  ⟨columns.start, rows.start, columns.length, rows.length⟩

theorem shift_lt (c : BitmapCopy) (depth : Nat) (x : Int) : c.shift depth x < 8 := by
  rw [shift]
  split
  · exact Nat.mod_lt _ (by decide)
  · decide

/-- What is known of each piece: its rows begin within the first byte, it lies on the page, and its
rows fit the reader's buffer. -/
structure Piece (c : BitmapCopy) (q : Terms) (config : Config) (columns rows : Span) : Prop where
  within : (pieceRect columns rows).Within q
  width : 0 < columns.length
  height : 0 < rows.length
  rowBits : c.rowBits (c.paint.depth config.depth) columns =
    (c.shift (c.paint.depth config.depth) columns.start + columns.length.toNat) *
      c.paint.depth config.depth
  rows_eq : Word.pattern 64 rows.length = rows.length.toNat
  fits : Bits.shortRaster (c.rowBits (c.paint.depth config.depth) columns) * rows.length.toNat ≤
    config.payloadRoom

theorem pattern64_of_allows {q : Terms} {v : Int} (h : q.Allows v) (hv : 0 ≤ v) :
    Word.pattern 64 v = v.toNat := by
  obtain ⟨n, rfl⟩ := Int.eq_ofNat_of_zero_le hv
  have := h.fits32
  rw [Word.fits32_iff] at this
  have hpattern := Word.natCast_pattern64 n
  omega

/-- A row of a piece has at least one byte and fits. -/
theorem raster_le {depth room shift width : Nat} (hdepth : 1 ≤ depth ∧ depth ≤ 32)
    (hroom : 32 ≤ room) (hshift : shift < 8) (hshallow : depth ≠ 1 → shift = 0)
    (hwidth : 1 ≤ width ∧ width ≤ max ((room * 8 - 7) / depth) 1) :
    1 ≤ Bits.shortRaster ((shift + width) * depth) ∧
      Bits.shortRaster ((shift + width) * depth) ≤ room := by
  have hone : 1 ≤ (room * 8 - 7) / depth := by
    rw [Nat.le_div_iff_mul_le (by omega)]
    omega
  rw [max_eq_left hone] at hwidth
  have hrow : width * depth ≤ room * 8 - 7 :=
    (Nat.mul_le_mul_right depth hwidth.2).trans (Nat.div_mul_le_self ..)
  have hpos : 1 ≤ width * depth := Nat.mul_pos hwidth.1 hdepth.1
  have htotal : (shift + width) * depth ≤ room * 8 ∧ 1 ≤ (shift + width) * depth := by
    rw [Nat.add_mul]
    by_cases hd : depth = 1
    · subst hd
      omega
    · rw [hshallow hd]
      omega
  rw [Bits.shortRaster]
  omega

/-- Where pieces fit 32 bits, they are as wide as the room allows. -/
theorem pieceWidth_eq {depth room : Nat} (hroom : 32 ≤ room) (hsmall : room * 8 < 2147483648) :
    pieceWidth depth room = (max ((room * 8 - 7) / depth) 1 : Nat) := by
  have hquotient : (room * 8 - 7) / depth < 2147483648 := (Nat.div_le_self ..).trans_lt (by omega)
  have hcast : ((max ((room * 8 - 7) / depth) 1 : Nat) : Int) =
      max (((room : Int) * 8 - 7) / depth) 1 := by
    rw [Nat.cast_max, Int.natCast_ediv, Nat.cast_sub (by omega)]
    rfl
  rw [pieceWidth, ← hcast]
  exact Word.wrap32_natCast (by omega)

/-- Where a row fits, pieces are as high as the room allows. -/
theorem pieceHeight_eq {c : BitmapCopy} {depth room : Nat} {columns : Span}
    (hraster : 1 ≤ Bits.shortRaster (c.rowBits depth columns) ∧
      Bits.shortRaster (c.rowBits depth columns) ≤ room) (hsmall : room * 8 < 2147483648) :
    c.pieceHeight depth room columns = (room / Bits.shortRaster (c.rowBits depth columns) : Nat) ∧
      1 ≤ room / Bits.shortRaster (c.rowBits depth columns) := by
  have hdown : 1 ≤ room / Bits.shortRaster (c.rowBits depth columns) := by
    rw [Nat.le_div_iff_mul_le (by omega)]
    omega
  have hquotient : room / Bits.shortRaster (c.rowBits depth columns) < 2147483648 :=
    (Nat.div_le_self ..).trans_lt (by omega)
  have hcast : ((max (room / Bits.shortRaster (c.rowBits depth columns)) 1 : Nat) : Int) =
      max ((room : Int) / Bits.shortRaster (c.rowBits depth columns)) 1 := by
    rw [Nat.cast_max, Int.natCast_ediv]
    rfl
  refine ⟨?_, hdown⟩
  rw [pieceHeight, ← hcast, max_eq_left hdown]
  exact Word.wrap32_natCast hquotient

/-- A bitmap that can be cut into pieces. -/
structure CanCut (c : BitmapCopy) (q : Terms) (config : Config) : Prop where
  onPage : c.rect.OnPage q
  depth : 1 ≤ c.paint.depth config.depth ∧ c.paint.depth config.depth ≤ 32
  room : 32 ≤ config.payloadRoom
  small : config.payloadRoom * 8 < 2147483648

namespace CanCut

variable {c : BitmapCopy} {q : Terms} {config : Config} {columns : Span} {p : Span × Span}

/-- The columns of a bitmap are cut. -/
theorem chain_columns (h : c.CanCut q config) : Span.Chain c.rect.x1 c.rect.x2
    (Span.cut (pieceWidth (c.paint.depth config.depth) config.payloadRoom) c.rect.x1 c.rect.x1
      c.rect.x2) := by
  refine Span.chain_cut ?_ h.onPage.x.2.1.le
  rw [pieceWidth_eq h.room h.small]
  omega

/-- A row of the columns of a piece has at least one byte and fits. -/
theorem raster_of_mem (h : c.CanCut q config) (hcolumns : columns ∈ Span.cut
      (pieceWidth (c.paint.depth config.depth) config.payloadRoom) c.rect.x1 c.rect.x1 c.rect.x2) :
    c.rowBits (c.paint.depth config.depth) columns =
      (c.shift (c.paint.depth config.depth) columns.start + columns.length.toNat) *
        c.paint.depth config.depth ∧
    1 ≤ Bits.shortRaster (c.rowBits (c.paint.depth config.depth) columns) ∧
      Bits.shortRaster (c.rowBits (c.paint.depth config.depth) columns) ≤ config.payloadRoom := by
  rw [pieceWidth_eq h.room h.small] at hcolumns
  obtain ⟨hleft, hwidth, hwidest, hright⟩ := Span.of_mem_cut (by omega) hcolumns
  obtain ⟨hx, -, hxa⟩ := h.onPage.x
  have hbits : c.rowBits (c.paint.depth config.depth) columns =
      (c.shift (c.paint.depth config.depth) columns.start + columns.length.toNat) *
        c.paint.depth config.depth := by
    rw [rowBits, pattern64_of_allows (hxa.of_le (by omega) (by omega)) hwidth.le]
  refine ⟨hbits, ?_⟩
  rw [hbits]
  exact raster_le h.depth h.room (c.shift_lt ..) (fun hne => by rw [shift, if_neg hne]) (by omega)

/-- And so are the rows of each piece. -/
theorem chain_rows (h : c.CanCut q config) (hcolumns : columns ∈ Span.cut
      (pieceWidth (c.paint.depth config.depth) config.payloadRoom) c.rect.x1 c.rect.x1 c.rect.x2) :
    Span.Chain c.rect.y1 c.rect.y2
      (Span.cut (c.pieceHeight (c.paint.depth config.depth) config.payloadRoom columns) c.rect.y1
        c.rect.y1 c.rect.y2) := by
  obtain ⟨hheight, hpos⟩ := pieceHeight_eq (h.raster_of_mem hcolumns).2 h.small
  refine Span.chain_cut ?_ h.onPage.y.2.1.le
  rw [hheight]
  omega

theorem piece_of_mem (h : c.CanCut q config) (hp : p ∈ c.pieces config) :
    c.Piece q config p.1 p.2 := by
  simp only [pieces, List.mem_flatMap, List.mem_map] at hp
  obtain ⟨columns, hcolumns, rows, hrows, rfl⟩ := hp
  obtain ⟨hbits, hraster⟩ := h.raster_of_mem hcolumns
  obtain ⟨hpieceHeight, hdown⟩ := pieceHeight_eq hraster h.small
  obtain ⟨hleft, hwidth, hright⟩ := h.chain_columns.of_mem hcolumns
  rw [hpieceHeight] at hrows
  obtain ⟨htop, hheight, htallest, hbottom⟩ := Span.of_mem_cut (by omega) hrows
  obtain ⟨⟨hx, -, hxa⟩, hy, -, hya⟩ := h.onPage
  have hawidth : q.Allows columns.length := hxa.of_le (by omega) (by omega)
  have haheight : q.Allows rows.length := hya.of_le (by omega) (by omega)
  refine ⟨⟨hxa.of_le ?_ ?_, hya.of_le ?_ ?_, hawidth, haheight⟩, hwidth, hheight, hbits,
    pattern64_of_allows haheight hheight.le, ?_⟩
  · exact hx.trans hleft
  · show columns.start ≤ _
    omega
  · exact hy.trans htop
  · show rows.start ≤ _
    omega
  · refine (Nat.mul_le_mul_left _ (show rows.length.toNat ≤ config.payloadRoom /
      Bits.shortRaster (c.rowBits (c.paint.depth config.depth) columns) by omega)).trans ?_
    exact Nat.mul_div_le ..

end CanCut

end BitmapCopy

end BandedPage
