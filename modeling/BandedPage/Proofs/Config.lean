import Mathlib
import BandedPage.Config
import BandedPage.Proofs.Rect
import BandedPage.Proofs.Word

/-!
# Valid configurations

What the check of a configuration guarantees, how it bounds the number of bands, and how the bands
cut the page.
-/

namespace BandedPage.Config

/-- A configuration that the check accepts. -/
structure Valid (c : Config) : Prop where
  width : 0 < c.width
  height : 0 < c.height
  bandHeight : 0 < c.bandHeight
  depth : c.depth ∈ depths
  tileSlots : isPowerOfTwo c.tileSlots = true ∧ c.tileSlots ≤ 4096
  readerSize : Buffered.lookahead * 2 ≤ c.readerSize
  bufferSize : c.readerSize + Buffered.lookahead ≤ c.bufferSize

theorem pos_of_isPowerOfTwo {n : Nat} (h : isPowerOfTwo n = true) : 0 < n := by
  rw [isPowerOfTwo, Bool.and_eq_true, bne_iff_ne] at h
  exact Nat.pos_of_ne_zero h.1

theorem refuse_eq_ok {ε α β : Type} {p : Prop} [Decidable p] {e : ε} {f : β → Except ε α}
    {x : Except ε α} {a : α} :
    (if p then throw e >>= f else x) = .ok a ↔ ¬ p ∧ x = .ok a := by
  by_cases hp : p
  · simp [hp, throw, throwThe, MonadExceptOf.throw, bind, Except.bind]
  · simp [hp]

theorem valid_of_validate {c : Config} (h : c.validate = .ok ()) : c.Valid := by
  rw [validate, refuse_eq_ok] at h
  obtain ⟨hpage, h⟩ := h
  rw [refuse_eq_ok] at h
  obtain ⟨hband, h⟩ := h
  rw [refuse_eq_ok] at h
  obtain ⟨hdepth, h⟩ := h
  rw [refuse_eq_ok] at h
  obtain ⟨hslots, h⟩ := h
  rw [refuse_eq_ok] at h
  obtain ⟨hreader, h⟩ := h
  have hbuffer : ¬ c.bufferSize < c.readerSize + Buffered.lookahead := by
    intro hlt
    rw [if_pos hlt] at h
    cases h
  simp only [Bool.or_eq_true, decide_eq_true_eq, not_or, Int.not_le] at hpage
  simp only [Bool.or_eq_true, decide_eq_true_eq, not_or, Bool.not_eq_true', Bool.not_eq_false,
    Nat.not_lt] at hslots
  exact {
    width := hpage.1
    height := hpage.2
    bandHeight := Int.not_le.mp hband
    depth := by simpa using hdepth
    tileSlots := hslots
    readerSize := Nat.not_lt.mp hreader
    bufferSize := Nat.not_lt.mp hbuffer }

/-- No band is empty, so there are no more bands than rows. -/
theorem Valid.nbands_le {c : Config} (h : c.Valid) : (c.nbands : Int) ≤ c.height := by
  have hh := h.height
  have hb := h.bandHeight
  have hpos : 0 ≤ c.height + c.bandHeight - 1 := by omega
  rw [nbands, Int.tdiv_eq_ediv_of_nonneg hpos, Int.toNat_of_nonneg (Int.ediv_nonneg hpos hb.le)]
  have hlt : (c.height + c.bandHeight - 1) / c.bandHeight < c.height + 1 := by
    refine Int.ediv_lt_of_lt_mul hb ?_
    nlinarith
  omega

theorem Valid.nbands_pos {c : Config} (h : c.Valid) : 0 < c.nbands := by
  have hh := h.height
  have hb := h.bandHeight
  have hpos : 0 ≤ c.height + c.bandHeight - 1 := by omega
  have hone : 1 ≤ (c.height + c.bandHeight - 1) / c.bandHeight := by
    rw [Int.le_ediv_iff_mul_le hb]
    omega
  rw [nbands, Int.tdiv_eq_ediv_of_nonneg hpos]
  omega

end BandedPage.Config

/-!
## Bands cut the page

Each row of the page lies in just one band, and the parts of a rectangle are what it has in common
with each of the bands.
-/

namespace BandedPage

@[simp] theorem BandRange.between_of_le {a b : Nat} (h : a ≤ b) : between a b = ⟨a, b⟩ := by
  have hmin : Nat.min a b = a := Nat.min_eq_left h
  have hmax : Nat.max a b = b := Nat.max_eq_right h
  rw [between, hmin, hmax]

namespace Config

variable {c : Config}

/-- No two parts lie in one band. -/
theorem pairwise_bandParts (c : Config) (r : Rect) :
    (c.bandParts r).Pairwise fun p p' => p.1 ≠ p'.1 := by
  rw [bandParts]
  cases c.bandsFor r.y1 r.height with
  | none => exact .nil
  | some bands =>
    have hnodup : bands.toList.Nodup := List.nodup_range' 1
    refine List.pairwise_filterMap.mpr (hnodup.imp ?_)
    intro b b' hne p hp p' hp'
    obtain ⟨_, -, rfl⟩ := Option.map_eq_some_iff.mp hp
    obtain ⟨_, -, rfl⟩ := Option.map_eq_some_iff.mp hp'
    exact hne

namespace Valid

@[simp] theorem pageRect_eq (h : c.Valid) : c.pageRect = ⟨0, 0, c.width, c.height⟩ := by
  have := h.width
  have := h.height
  simp only [pageRect, Rect.ofCorners, Rect.mk.injEq]
  omega

/-- Every band begins on the page. -/
theorem top_lt_height (h : c.Valid) {band : Nat} (hband : band < c.nbands) :
    band * c.bandHeight < c.height := by
  have hh := h.height
  have hb := h.bandHeight
  have hpos : 0 ≤ c.height + c.bandHeight - 1 := by omega
  rw [nbands, Int.tdiv_eq_ediv_of_nonneg hpos] at hband
  have hle : (band : Int) + 1 ≤ (c.height + c.bandHeight - 1) / c.bandHeight := by omega
  rw [Int.le_ediv_iff_mul_le hb] at hle
  linarith

theorem bandRect_eq (h : c.Valid) (hheight : c.height < 2147483648) {band : Nat}
    (hband : band < c.nbands) :
    c.bandRect band = ⟨0, band * c.bandHeight, c.width,
      min (band * c.bandHeight + c.bandHeight) c.height⟩ := by
  have hw := h.width
  have hb := h.bandHeight
  have htop := h.top_lt_height hband
  have hnbands := h.nbands_le
  have hwrap : Word.wrap32 (band : Int) = band := Word.wrap32_natCast (by omega)
  simp only [bandRect, hwrap, Rect.ofCorners, Rect.mk.injEq]
  omega

theorem bandOf_eq (h : c.Valid) {y : Int} (hy : 0 ≤ y) (hlt : y < c.height) :
    (c.bandOf y : Int) = y / c.bandHeight := by
  have hb := h.bandHeight
  have hrow : min (max y 0) (c.height - 1) = y := by omega
  rw [bandOf, hrow, Int.tdiv_eq_ediv_of_nonneg hy,
    Int.toNat_of_nonneg (Int.ediv_nonneg hy hb.le)]

theorem bandOf_lt (h : c.Valid) {y : Int} (hy : 0 ≤ y) (hlt : y < c.height) :
    c.bandOf y < c.nbands := by
  have hh := h.height
  have hb := h.bandHeight
  have hpos : 0 ≤ c.height + c.bandHeight - 1 := by omega
  have hband := h.bandOf_eq hy hlt
  have hle : (c.bandOf y : Int) + 1 ≤ (c.height + c.bandHeight - 1) / c.bandHeight := by
    rw [Int.le_ediv_iff_mul_le hb, hband]
    have := Int.ediv_mul_le y hb.ne'
    linarith
  rw [nbands, Int.tdiv_eq_ediv_of_nonneg hpos]
  omega

/-- A pixel of the page lies in the band that its row belongs to, and in no other. -/
theorem bandRect_hasPixel (h : c.Valid) (hheight : c.height < 2147483648) {band : Nat}
    (hband : band < c.nbands) {x y : Int} :
    (c.bandRect band).HasPixel x y ↔ c.pageRect.HasPixel x y ∧ c.bandOf y = band := by
  have hb := h.bandHeight
  rw [h.bandRect_eq hheight hband, h.pageRect_eq]
  simp only [Rect.HasPixel]
  have htop : 0 ≤ (band : Int) * c.bandHeight := Int.mul_nonneg (Int.natCast_nonneg _) hb.le
  have hrow : band * c.bandHeight ≤ y ∧ y < band * c.bandHeight + c.bandHeight ↔
      y / c.bandHeight = band := by
    rw [Int.ediv_eq_iff_of_pos hb]
  constructor
  · rintro ⟨hx, hx', hy, hy'⟩
    have hbandOf := h.bandOf_eq (y := y) (by omega) (by omega)
    have := hrow.mp ⟨hy, by omega⟩
    exact ⟨⟨hx, hx', by omega, by omega⟩, by omega⟩
  · rintro ⟨⟨hx, hx', hy, hy'⟩, hbandOf⟩
    have := h.bandOf_eq hy hy'
    obtain ⟨hlo, hhi⟩ := hrow.mpr (by omega)
    exact ⟨hx, hx', hlo, by omega⟩

/-- The bands that a rectangle of the page meets are among those asked for. -/
theorem contains_of_intersect (h : c.Valid) (hheight : c.height < 2147483648) {r part : Rect}
    {band : Nat} (hband : band < c.nbands) (hpart : r.intersect (c.bandRect band) = some part) :
    ∃ bands, c.bandsFor r.y1 r.height = some bands ∧ bands.contains band = true := by
  obtain ⟨-, hx, hy⟩ := Rect.intersect_eq_some hpart
  obtain ⟨hr, hb⟩ := (Rect.hasPixel_of_intersect hpart part.x1 part.y1).mp
    ⟨Int.le_refl _, hx, Int.le_refl _, hy⟩
  obtain ⟨hpage, hbandOf⟩ := (h.bandRect_hasPixel hheight hband).mp hb
  rw [h.pageRect_eq] at hpage
  obtain ⟨-, -, htop, hbottom⟩ := hpage
  obtain ⟨-, -, hfirst, hstop⟩ := hr
  dsimp only at htop hbottom
  have hstop' : r.y1 + r.height = r.y2 := by
    rw [Rect.height]
    omega
  have hbh := h.bandHeight
  have hlo := h.bandOf_eq (y := max r.y1 0) (by omega) (by omega)
  have hhi := h.bandOf_eq (y := min r.y2 c.height - 1) (by omega) (by omega)
  have hmid := h.bandOf_eq htop hbottom
  have hle := Int.ediv_le_ediv hbh (show max r.y1 0 ≤ part.y1 by omega)
  have hle' := Int.ediv_le_ediv hbh (show part.y1 ≤ min r.y2 c.height - 1 by omega)
  refine ⟨⟨c.bandOf (max r.y1 0), c.bandOf (min r.y2 c.height - 1)⟩, ?_, ?_⟩
  · simp only [bandsFor, hstop']
    rw [if_neg (by omega), BandRange.between_of_le (by omega)]
  · simp only [BandRange.contains, Bool.and_eq_true, decide_eq_true_eq]
    omega

/-- The bands asked for are bands of the page. -/
theorem bandsFor_lt (h : c.Valid) {y height : Int} {bands : BandRange}
    (hbands : c.bandsFor y height = some bands) : bands.min ≤ bands.max ∧ bands.max < c.nbands := by
  simp only [bandsFor] at hbands
  by_cases hempty : min (y + height) c.height ≤ max y 0
  · rw [if_pos hempty] at hbands
    cases hbands
  · have hfirst := h.bandOf_eq (y := max y 0) (by omega) (by omega)
    have hlast := h.bandOf_eq (y := min (y + height) c.height - 1) (by omega) (by omega)
    have hle := Int.ediv_le_ediv h.bandHeight
      (show max y 0 ≤ min (y + height) c.height - 1 by omega)
    rw [if_neg hempty, BandRange.between_of_le (by omega)] at hbands
    cases hbands
    refine ⟨?_, h.bandOf_lt (by omega) (by omega)⟩
    show c.bandOf (max y 0) ≤ c.bandOf (min (y + height) c.height - 1)
    omega

theorem filter_filterMap_range' {α : Type} (g : Nat → Option α) (start n i : Nat) :
    ((List.range' start n).filterMap fun k => (g k).map (k, ·)).filter (·.1 == i) =
      if start ≤ i ∧ i < start + n then ((g i).map (i, ·)).toList else [] := by
  induction n generalizing start with
  | zero =>
    rw [if_neg (by omega)]
    rfl
  | succ n ih =>
    have hcons : List.range' start (n + 1) = [start] ++ List.range' (start + 1) n := rfl
    rw [hcons, List.filterMap_append, List.filter_append, ih]
    by_cases heq : start = i
    · subst heq
      rw [if_neg (by omega), if_pos (by omega)]
      cases hg : g start <;> simp [hg]
    · have hnone : (([start].filterMap fun k => (g k).map (k, ·)).filter (·.1 == i)) = [] := by
        cases hg : g start <;> simp [hg, heq]
      rw [hnone, List.nil_append]
      by_cases hin : start + 1 ≤ i ∧ i < start + 1 + n
      · rw [if_pos hin, if_pos (by omega)]
      · rw [if_neg hin, if_neg (by omega)]

/-- A band gets what a rectangle has in common with it, once. -/
theorem filter_bandParts (h : c.Valid) (hheight : c.height < 2147483648) (r : Rect) {band : Nat}
    (hband : band < c.nbands) :
    (c.bandParts r).filter (·.1 == band) =
      ((r.intersect (c.bandRect band)).map (band, ·)).toList := by
  cases hpart : r.intersect (c.bandRect band) with
  | none =>
    rw [bandParts]
    cases c.bandsFor r.y1 r.height with
    | none => rfl
    | some bands =>
      have hfilter := filter_filterMap_range' (fun k => r.intersect (c.bandRect k)) bands.min
        (bands.max + 1 - bands.min) band
      refine hfilter.trans ?_
      rw [hpart]
      split <;> rfl
  | some part =>
    obtain ⟨bands, hbands, hin⟩ := h.contains_of_intersect hheight hband hpart
    simp only [BandRange.contains, Bool.and_eq_true, decide_eq_true_eq] at hin
    rw [bandParts, hbands]
    have hfilter := filter_filterMap_range' (fun k => r.intersect (c.bandRect k)) bands.min
      (bands.max + 1 - bands.min) band
    refine hfilter.trans ?_
    rw [if_pos (by omega), hpart]

theorem of_mem_bandParts (h : c.Valid) {r : Rect} {p : Nat × Rect} (hmem : p ∈ c.bandParts r) :
    p.1 < c.nbands ∧ r.intersect (c.bandRect p.1) = some p.2 := by
  rw [bandParts] at hmem
  cases hbands : c.bandsFor r.y1 r.height with
  | none =>
    rw [hbands] at hmem
    exact absurd hmem List.not_mem_nil
  | some bands =>
    rw [hbands] at hmem
    obtain ⟨k, hk, hmap⟩ := List.mem_filterMap.mp hmem
    obtain ⟨part', hpart, heq⟩ := Option.map_eq_some_iff.mp hmap
    cases heq
    have hin := (BandRange.mem_toList bands k).mp hk
    simp only [BandRange.contains, Bool.and_eq_true, decide_eq_true_eq] at hin
    have hlt := (h.bandsFor_lt hbands).2
    exact ⟨Nat.lt_of_le_of_lt hin.2 hlt, hpart⟩

end Valid

end Config

end BandedPage
