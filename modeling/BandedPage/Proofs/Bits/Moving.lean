import Mathlib
import BandedPage.Proofs.Bits.Basic

/-!
# Bits arrive at their places

Copying puts the bits of one bitmap among those of another and leaves the rest alone, whether whole
bytes are moved or single bits. Rows that are taken out of a bitmap have zeros where their last
byte has bits to spare, and are refused when the bitmap does not have all of them. A repeated
pattern has the bits of its rows in every copy.
-/

namespace BandedPage.Bits

variable {src dst data out : Bytes}

/-- `out` is `dst`, but with `n` bits of `src` from bit `s` on at bit `d`. -/
structure Moved (src : Bytes) (s : Nat) (dst : Bytes) (d n : Nat) (out : Bytes) : Prop where
  size : out.size = dst.size
  copied : ∀ i < n, get out (d + i) = get src (s + i)
  kept : ∀ j, j < d ∨ d + n ≤ j → get out j = get dst j

/-- `out` has `rows` rows of `width` bits, those from bit `x` on of rows that lie inside `data`. -/
structure RowsOf (data : Bytes) (raster x width rows : Nat) (out : Bytes) : Prop where
  size : out.size = shortRaster width * rows
  /-- No byte is looked at that is not there. -/
  inside : ∀ row < rows, row * raster + shortRaster (x + width) ≤ data.size
  bits : ∀ row < rows, ∀ i < width,
    get out (row * shortRaster width * 8 + i) = get data (row * raster * 8 + (x + i))
  padding : ∀ row < rows, ∀ i, width ≤ i → i < shortRaster width * 8 →
    get out (row * shortRaster width * 8 + i) = false

/-- `out` has `down` times `across` copies of the `height` rows of `width` bits in `rows`. -/
structure CopiesOf (rows : Bytes) (width height across down : Nat) (out : Bytes) : Prop where
  size : out.size = shortRaster (width * across) * height * down
  bits : ∀ copyDown < down, ∀ row < height, ∀ copyAcross < across, ∀ i < width,
    get out ((copyDown * height + row) * shortRaster (width * across) * 8 +
      (copyAcross * width + i)) = get rows (row * shortRaster width * 8 + i)

theorem moved_copy {s d n : Nat} (hsrc : s + n ≤ src.size * 8) (hdst : d + n ≤ dst.size * 8) :
    Moved src s dst d n (copy src s dst d n) where
  size := size_copy ..
  copied i hi := by rw [get_copy hsrc hdst, if_pos (by omega), Nat.add_sub_cancel_left]
  kept j hj := by rw [get_copy hsrc hdst, if_neg (by omega)]

/-- Moving whole bytes moves the bits that would have been moved one by one. -/
theorem copy_eq_copyEach {s d n : Nat} (hsrc : s + n ≤ src.size * 8)
    (hdst : d + n ≤ dst.size * 8) : copy src s dst d n = copyEach src s dst d n := by
  refine ext_get (by simp) fun j _ => ?_
  rw [get_copy hsrc hdst, get_copyEach hdst]

/-- A bit outside of all copies is as it was. -/
theorem get_foldl_copy_of_apart {ι : Type} (src dst : Bytes) (source place : ι → Nat) {n : Nat}
    {items : List ι} (hsrc : ∀ k ∈ items, source k + n ≤ src.size * 8)
    (hroom : ∀ k ∈ items, place k + n ≤ dst.size * 8) {j : Nat}
    (hj : ∀ k ∈ items, j < place k ∨ place k + n ≤ j) :
    get (items.foldl (fun out k => copy src (source k) out (place k) n) dst) j = get dst j := by
  induction items generalizing dst with
  | nil => rfl
  | cons k items ih =>
    have hk : k ∈ k :: items := List.mem_cons_self
    have hrest : ∀ {k'}, k' ∈ items → k' ∈ k :: items := List.mem_cons_of_mem k
    rw [List.foldl_cons,
      ih _ (fun k' h => hsrc k' (hrest h)) (fun k' h => by rw [size_copy]; exact hroom k' (hrest h))
        fun k' h => hj k' (hrest h)]
    exact (moved_copy (hsrc k hk) (hroom k hk)).kept j (hj k hk)

/-- Rows lie inside a bitmap if the last of them does. -/
theorem row_inside {raster bytes rows row : Nat} (hsize : (rows - 1) * raster + bytes ≤ data.size)
    (hrow : row < rows) : row * raster + bytes ≤ data.size := by
  have hle : row * raster ≤ (rows - 1) * raster := Nat.mul_le_mul_right _ (by omega)
  omega

/-- Each row ends before the next one begins. -/
theorem row_add_le {row row' : Nat} (raster : Nat) (h : row < row') :
    row * raster + raster ≤ row' * raster := by
  have hle : (row + 1) * raster ≤ row' * raster := Nat.mul_le_mul_right _ h
  rwa [Nat.add_mul, Nat.one_mul] at hle

/-- Behind its bits a row has zeros. -/
theorem get_extract_padding {raster x width rows : Nat}
    (h : extract data raster x width rows = .ok out) {row i : Nat} (hrow : row < rows)
    (hwidth : width ≤ i) (hi : i < shortRaster width * 8) :
    get out (row * shortRaster width * 8 + i) = false := by
  have hshort := width_le_shortRaster width
  rw [extract] at h
  split at h
  · cases h
  next hsize =>
  dsimp only at h
  rw [if_neg (by omega)] at h
  cases h
  rw [extent, if_neg (by omega), not_lt] at hsize
  refine (get_foldl_copy_of_apart data _ (fun y => y * raster * 8 + x)
    (fun y => y * shortRaster width * 8) (fun k hk => ?_) (fun k hk => ?_)
    fun k _ => ?_).trans (get_replicate_zero _ _)
  · have := row_inside hsize (List.mem_range.mp hk)
    have := width_le_shortRaster (x + width)
    omega
  · have := row_add_le (shortRaster width) (List.mem_range.mp hk)
    rw [Array.size_replicate, Nat.mul_comm (shortRaster width)]
    omega
  · rcases Nat.lt_trichotomy k row with hlt | rfl | hgt
    · have := row_add_le (shortRaster width) hlt
      omega
    · omega
    · have := row_add_le (shortRaster width) hgt
      omega

theorem rowsOf_extract {raster x width rows : Nat}
    (hsize : ¬ (0 < rows ∧ data.size < (rows - 1) * raster + shortRaster (x + width))) :
    ∃ out, extract data raster x width rows = .ok out ∧ RowsOf data raster x width rows out := by
  have hextent : ¬ data.size < extent raster x width rows := by
    rw [extent]
    split <;> omega
  obtain ⟨out, hout⟩ : ∃ out, extract data raster x width rows = .ok out :=
    ⟨_, by rw [extract, if_neg hextent]⟩
  exact ⟨out, hout, {
    size := size_of_extract hout
    inside := fun row hrow => row_inside (by omega) hrow
    bits := fun row hrow i hi => get_extract hout hrow hi
    padding := fun row hrow i => get_extract_padding hout hrow }⟩

theorem extract_of_short {raster x width rows : Nat}
    (hsize : 0 < rows ∧ data.size < (rows - 1) * raster + shortRaster (x + width)) :
    ∃ detail, extract data raster x width rows = .error (.malformed detail) := by
  have hextent : data.size < extent raster x width rows := by
    rw [extent, if_neg (by omega)]
    exact hsize.2
  exact ⟨_, by rw [extract, if_pos hextent]⟩

theorem copiesOf_replicate {rows : Bytes} {width height across down : Nat}
    (hrows : shortRaster width * height ≤ rows.size) :
    CopiesOf rows width height across down (replicate rows width height across down) where
  size := size_replicate ..
  bits copyDown hdown row hrow copyAcross hacross i hi := by
    rw [← Nat.add_assoc]
    exact get_replicate hrows hrow hdown hacross hi

/-- Bits are copied to their places and nowhere else, by whole bytes as one by one. Rows are taken
out of a bitmap just when it has them, and a pattern is repeated in every copy. -/
theorem bits_arrive_at_their_places :
    (∀ (src dst : Bytes) (s d n : Nat), s + n ≤ src.size * 8 → d + n ≤ dst.size * 8 →
      Moved src s dst d n (copy src s dst d n) ∧
        copy src s dst d n = copyEach src s dst d n) ∧
    (∀ (data : Bytes) (raster x width rows : Nat),
      if 0 < rows ∧ data.size < (rows - 1) * raster + shortRaster (x + width) then
        ∃ detail, extract data raster x width rows = .error (.malformed detail)
      else ∃ out, extract data raster x width rows = .ok out ∧
        RowsOf data raster x width rows out) ∧
    ∀ (rows : Bytes) (width height across down : Nat), shortRaster width * height ≤ rows.size →
      CopiesOf rows width height across down (replicate rows width height across down) := by
  refine ⟨fun src dst s d n hsrc hdst => ⟨moved_copy hsrc hdst, copy_eq_copyEach hsrc hdst⟩,
    fun data raster x width rows => ?_, fun rows width height across down => copiesOf_replicate⟩
  split
  · exact extract_of_short ‹_›
  · exact rowsOf_extract ‹_›

/-- Bits that cross bytes are copied, two bits are taken from each of two rows, and a pattern of
three bits is repeated. -/
theorem crossing_bits_arrive :
    Moved #[0x0f, 0xa0] 3 #[0xff, 0xff, 0xff] 6 11
        (copy #[0x0f, 0xa0] 3 #[0xff, 0xff, 0xff] 6 11) ∧
      (∃ out, extract #[0x12, 0x34, 0x56] 2 6 2 2 = .ok out ∧
        RowsOf #[0x12, 0x34, 0x56] 2 6 2 2 out) ∧
      CopiesOf #[0xa0, 0x40] 3 2 5 2 (replicate #[0xa0, 0x40] 3 2 5 2) := by
  obtain ⟨hmoved, hrows, hcopies⟩ := bits_arrive_at_their_places
  have hextract := hrows #[0x12, 0x34, 0x56] 2 6 2 2
  rw [if_neg (by decide)] at hextract
  exact ⟨(hmoved _ _ 3 6 11 (by decide) (by decide)).1, hextract, hcopies _ 3 2 5 2 (by decide)⟩

end BandedPage.Bits
