import Mathlib
import BandedPage.Proofs.Config

/-!
# Bands tile the page

The bands of a valid configuration are the page in one piece each, so every row has its band, some rows
have the bands that they reach into, and what is drawn on the page is drawn in its parts.
-/

namespace BandedPage

def Rect.HasRow (r : Rect) (y : Int) : Prop := ∃ x, r.HasPixel x y

namespace Config

variable {c : Config}

namespace Valid

theorem bandRect_hasRow (h : c.Valid) (hheight : c.height < 2147483648) {band : Nat}
    (hband : band < c.nbands) {y : Int} :
    (c.bandRect band).HasRow y ↔ (0 ≤ y ∧ y < c.height) ∧ c.bandOf y = band := by
  have hw := h.width
  constructor
  · rintro ⟨x, hp⟩
    obtain ⟨hpage, hbandOf⟩ := (h.bandRect_hasPixel hheight hband).mp hp
    rw [h.pageRect_eq] at hpage
    exact ⟨hpage.2.2, hbandOf⟩
  · rintro ⟨hy, hbandOf⟩
    refine ⟨0, (h.bandRect_hasPixel hheight hband).mpr ⟨?_, hbandOf⟩⟩
    rw [h.pageRect_eq]
    exact ⟨le_rfl, hw, hy⟩

theorem isEmpty_bandRect (h : c.Valid) (hheight : c.height < 2147483648) {band : Nat}
    (hband : band < c.nbands) : (c.bandRect band).isEmpty = false := by
  have hw := h.width
  have hb := h.bandHeight
  have htop := h.top_lt_height hband
  rw [← Bool.not_eq_true, Rect.isEmpty_iff, h.bandRect_eq hheight hband]
  dsimp only
  omega

/-- The bands are the page, cut into pieces. -/
theorem partition_bandRect (h : c.Valid) (hheight : c.height < 2147483648) :
    Rect.Partition ((List.range c.nbands).map c.bandRect) c.pageRect.HasPixel where
  nonempty r hr := by
    obtain ⟨band, hband, rfl⟩ := List.mem_map.mp hr
    exact h.isEmpty_bandRect hheight (List.mem_range.mp hband)
  apart := by
    have hrange : (List.range c.nbands).Pairwise fun b b' => b ≠ b' := List.nodup_range
    refine List.pairwise_map.mpr (hrange.imp_of_mem fun hb hb' hne x y hp => ?_)
    have hin := (h.bandRect_hasPixel hheight (List.mem_range.mp hb)).mp hp.1
    have hin' := (h.bandRect_hasPixel hheight (List.mem_range.mp hb')).mp hp.2
    exact hne (hin.2.symm.trans hin'.2)
  covered x y := by
    constructor
    · rintro ⟨r, hr, hp⟩
      obtain ⟨band, hband, rfl⟩ := List.mem_map.mp hr
      exact ((h.bandRect_hasPixel hheight (List.mem_range.mp hband)).mp hp).1
    · intro hp
      have hrow : 0 ≤ y ∧ y < c.height := by
        rw [h.pageRect_eq] at hp
        exact hp.2.2
      have hband := h.bandOf_lt hrow.1 hrow.2
      refine ⟨c.bandRect (c.bandOf y), List.mem_map_of_mem (List.mem_range.mpr hband), ?_⟩
      exact (h.bandRect_hasPixel hheight hband).mpr ⟨hp, rfl⟩

/-- Rows further down lie in the same band or in one further down. -/
theorem bandOf_le_bandOf (h : c.Valid) {y y' : Int} (hy : 0 ≤ y) (hle : y ≤ y') (hy' : y' < c.height) :
    c.bandOf y ≤ c.bandOf y' := by
  have hband := h.bandOf_eq hy (hle.trans_lt hy')
  have hband' := h.bandOf_eq (hy.trans hle) hy'
  have := Int.ediv_le_ediv h.bandHeight hle
  omega

theorem bandsFor_eq_none_iff (h : c.Valid) {y height : Int} :
    c.bandsFor y height = none ↔
      ∀ row, y ≤ row → row < y + height → ¬ (0 ≤ row ∧ row < c.height) := by
  have hh := h.height
  simp only [bandsFor]
  split
  · next hempty =>
    refine iff_of_true rfl fun row hrow hrow' hpage => ?_
    omega
  · next hsome =>
    refine iff_of_false (by simp) fun hnone => ?_
    exact hnone (max y 0) (le_max_left ..) (by omega) ⟨le_max_right .., by omega⟩

/-- The bands asked for are those that some of the rows lie in. -/
theorem contains_bandsFor_iff (h : c.Valid) (hheight : c.height < 2147483648) {y height : Int}
    {bands : BandRange} (hbands : c.bandsFor y height = some bands) {band : Nat} :
    bands.contains band = true ↔ band < c.nbands ∧
      ∃ row, y ≤ row ∧ row < y + height ∧ (c.bandRect band).HasRow row := by
  have hb := h.bandHeight
  simp only [bandsFor] at hbands
  by_cases hempty : min (y + height) c.height ≤ max y 0
  · rw [if_pos hempty] at hbands
    cases hbands
  rw [if_neg hempty,
    BandRange.between_of_le (h.bandOf_le_bandOf (by omega) (by omega) (by omega))] at hbands
  cases hbands
  have hfirst := h.bandOf_eq (y := max y 0) (by omega) (by omega)
  have hlast := h.bandOf_eq (y := min (y + height) c.height - 1) (by omega) (by omega)
  simp only [BandRange.contains, Bool.and_eq_true, decide_eq_true_eq]
  constructor
  · rintro ⟨hlo, hhi⟩
    have hband : band < c.nbands := hhi.trans_lt (h.bandOf_lt (by omega) (by omega))
    -- The first of the rows that is not above the band lies in it.
    have hstart : (band : Int) * c.bandHeight ≤ min (y + height) c.height - 1 := by
      rw [← Int.le_ediv_iff_mul_le hb]
      omega
    have hend : max y 0 < (band : Int) * c.bandHeight + c.bandHeight := by
      have hlt : max y 0 / c.bandHeight < (band : Int) + 1 := by omega
      rw [Int.ediv_lt_iff_lt_mul hb, Int.add_mul, Int.one_mul] at hlt
      exact hlt
    have htop : 0 ≤ (band : Int) * c.bandHeight := Int.mul_nonneg (Int.natCast_nonneg _) hb.le
    refine ⟨hband, max (max y 0) (band * c.bandHeight), by omega, by omega, ?_⟩
    have hrow := h.bandOf_eq (y := max (max y 0) (band * c.bandHeight)) (by omega) (by omega)
    have hquot : max (max y 0) (band * c.bandHeight) / c.bandHeight = band := by
      rw [Int.ediv_eq_iff_of_pos hb]
      omega
    exact (h.bandRect_hasRow hheight hband).mpr ⟨by omega, by omega⟩
  · rintro ⟨hband, row, hlo, hhi, hrow⟩
    obtain ⟨hpage, rfl⟩ := (h.bandRect_hasRow hheight hband).mp hrow
    exact ⟨h.bandOf_le_bandOf (by omega) (by omega) (by omega),
      h.bandOf_le_bandOf (by omega) (by omega) (by omega)⟩

/-- The parts of what lies on the page are pieces of it. -/
theorem partition_bandParts (h : c.Valid) (hheight : c.height < 2147483648) {r cut : Rect}
    (hcut : r.intersect c.pageRect = some cut) :
    Rect.Partition ((c.bandParts cut).map (·.2)) cut.HasPixel where
  nonempty part hpart := by
    obtain ⟨p, hp, rfl⟩ := List.mem_map.mp hpart
    obtain ⟨-, hx, hy⟩ := Rect.intersect_eq_some (h.of_mem_bandParts hp).2
    rw [← Bool.not_eq_true, Rect.isEmpty_iff]
    omega
  apart := by
    refine List.pairwise_map.mpr ((c.pairwise_bandParts cut).imp_of_mem fun hp hp' hne x y hxy => ?_)
    obtain ⟨hband, hpart⟩ := h.of_mem_bandParts hp
    obtain ⟨hband', hpart'⟩ := h.of_mem_bandParts hp'
    have hin := ((Rect.hasPixel_of_intersect hpart x y).mp hxy.1).2
    have hin' := ((Rect.hasPixel_of_intersect hpart' x y).mp hxy.2).2
    exact hne (((h.bandRect_hasPixel hheight hband).mp hin).2.symm.trans
      ((h.bandRect_hasPixel hheight hband').mp hin').2)
  covered x y := by
    constructor
    · rintro ⟨part, hpart, hxy⟩
      obtain ⟨p, hp, rfl⟩ := List.mem_map.mp hpart
      exact ((Rect.hasPixel_of_intersect (h.of_mem_bandParts hp).2 x y).mp hxy).1
    · intro hxy
      have hpage := ((Rect.hasPixel_of_intersect hcut x y).mp hxy).2
      have hrow : 0 ≤ y ∧ y < c.height := by
        rw [h.pageRect_eq] at hpage
        exact hpage.2.2
      have hband := h.bandOf_lt hrow.1 hrow.2
      obtain ⟨part, hpart, hin⟩ := Rect.exists_intersect_hasPixel.mpr
        ⟨hxy, (h.bandRect_hasPixel hheight hband).mpr ⟨hpage, rfl⟩⟩
      have hfilter := h.filter_bandParts hheight cut hband
      rw [Option.mem_def.mp hpart] at hfilter
      have hmem : (c.bandOf y, part) ∈ c.bandParts cut := by
        refine List.mem_of_mem_filter (p := (·.1 == c.bandOf y)) ?_
        rw [hfilter]
        exact List.mem_singleton.mpr rfl
      exact ⟨part, List.mem_map_of_mem hmem, hin⟩

end Valid

/-- How the bands of a page lie: what they are, which band a row has, which bands some rows have,
and which parts of a rectangle they have. -/
structure TilesPage (c : Config) : Prop where
  bands : Rect.Partition ((List.range c.nbands).map c.bandRect) c.pageRect.HasPixel
  /-- The band of a row of the page is the one that has the row. -/
  row (y : Int) : 0 ≤ y → y < c.height → ∀ band,
    band = c.bandOf y ↔ band < c.nbands ∧ (c.bandRect band).HasRow y
  /-- No band is asked for just if none of the rows is on the page. -/
  noRows (y height : Int) : c.bandsFor y height = none ↔
    ∀ row, y ≤ row → row < y + height → ¬ (0 ≤ row ∧ row < c.height)
  /-- The bands that are asked for are those that have some of the rows. -/
  rows (y height : Int) : ∀ bands, c.bandsFor y height = some bands → ∀ band,
    bands.contains band = true ↔ band < c.nbands ∧
      ∃ row, y ≤ row ∧ row < y + height ∧ (c.bandRect band).HasRow row
  /-- Each part of what lies on the page is in a band of its own. -/
  ownBand (r cut : Rect) : r.intersect c.pageRect = some cut →
    (c.bandParts cut).Pairwise (fun p p' => p.1 ≠ p'.1) ∧
      ∀ p ∈ c.bandParts cut, p.1 < c.nbands ∧
        ∀ x y, p.2.HasPixel x y → (c.bandRect p.1).HasPixel x y
  parts (r cut : Rect) : r.intersect c.pageRect = some cut →
    Rect.Partition ((c.bandParts cut).map (·.2)) cut.HasPixel

/-- The bands of every configuration that the check accepts tile the page. -/
theorem bands_tile_page (c : Config) (hvalid : c.validate = .ok ())
    (hsum : Word.fits32 (c.height + c.bandHeight) = true) : c.TilesPage := by
  have h := valid_of_validate hvalid
  have hheight : c.height < 2147483648 := by
    have := h.bandHeight
    have := (Word.fits32_iff.mp hsum).2
    omega
  refine ⟨h.partition_bandRect hheight, fun y hy hlt band => ?_, fun y height => h.bandsFor_eq_none_iff,
    fun y height bands hbands band => h.contains_bandsFor_iff hheight hbands,
    fun r cut _ => ⟨c.pairwise_bandParts cut, fun p hp => ?_⟩,
    fun r cut hcut => h.partition_bandParts hheight hcut⟩
  · constructor
    · rintro rfl
      have hband := h.bandOf_lt hy hlt
      exact ⟨hband, (h.bandRect_hasRow hheight hband).mpr ⟨⟨hy, hlt⟩, rfl⟩⟩
    · rintro ⟨hband, hrow⟩
      exact ((h.bandRect_hasRow hheight hband).mp hrow).2.symm
  · obtain ⟨hband, hpart⟩ := h.of_mem_bandParts hp
    exact ⟨hband, fun x y hxy => ((Rect.hasPixel_of_intersect hpart x y).mp hxy).2⟩

/-- The last band of a page is shorter than the others. -/
theorem uneven_bands_tile_page : ({ height := 100, bandHeight := 33 } : Config).TilesPage :=
  bands_tile_page { height := 100, bandHeight := 33 } rfl rfl

end Config

end BandedPage
