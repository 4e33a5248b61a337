import Mathlib
import BandedPage.Proofs.Replay.Clip

/-!
# Clips are exact regions

Whatever rectangles a clip is given as, those that are kept of it have pixels, share none and cover
just what was given. So what is left of a rectangle by such a clip is found piece by piece, and a
rectangle is left whole just if the areas of its pieces add up to its own.
-/

namespace BandedPage

namespace Rect

/-- What is left of a rectangle that has pixels comes in pieces that have pixels. -/
theorem isEmpty_of_mem_subtract {a b piece : Rect} (ha : a.isEmpty = false)
    (h : piece ∈ a.subtract b) : piece.isEmpty = false := by
  rw [subtract] at h
  cases hi : a.intersect b with
  | none =>
    rw [hi] at h
    exact List.mem_singleton.mp h ▸ ha
  | some i =>
    obtain ⟨heq, hx, hy⟩ := intersect_eq_some hi
    have hmem : ∀ {p : Prop} [Decidable p] {r s : Rect}, s ∈ (if p then [r] else []) → p ∧ s = r := by
      intro p _ r s hs
      split at hs
      · next hp => exact ⟨hp, List.mem_singleton.mp hs⟩
      · cases hs
    rw [hi] at h
    simp only [List.mem_append] at h
    rw [← Bool.not_eq_true, isEmpty_iff] at ha ⊢
    have hlow : a.x1 ≤ i.x1 ∧ i.x2 ≤ a.x2 := by
      rw [heq]
      exact ⟨le_max_left .., min_le_left ..⟩
    rcases h with ((h | h) | h) | h <;> obtain ⟨hside, rfl⟩ := hmem h <;> dsimp only <;> omega

theorem isEmpty_of_mem_subtractAll {pieces holes : List Rect}
    (hpieces : ∀ r ∈ pieces, r.isEmpty = false) :
    ∀ r ∈ subtractAll pieces holes, r.isEmpty = false := by
  induction holes generalizing pieces with
  | nil => exact hpieces
  | cons hole holes ih =>
    refine ih fun r hr => ?_
    obtain ⟨s, hs, hr⟩ := List.mem_flatMap.mp hr
    exact isEmpty_of_mem_subtract (hpieces s hs) hr

/-- The areas of parts that lie apart add up to the area of what they cover. -/
theorem sum_area_of_covered {parts : List Rect} {whole : Rect} (h : parts.Pairwise Apart)
    (hparts : ∀ r ∈ parts, r.x1 ≤ r.x2 ∧ r.y1 ≤ r.y2) (hx : whole.x1 ≤ whole.x2)
    (hy : whole.y1 ≤ whole.y2) (hcovered : ∀ x y, Covered parts x y ↔ whole.HasPixel x y) :
    (parts.map area).sum = whole.area := by
  obtain ⟨s, hmem, hcard⟩ := card_biUnion_pixels h hparts
  have heq : s = whole.pixels := by
    ext p
    simp [hmem, hcovered]
  rw [← hcard, heq, card_pixels hx hy]

end Rect

namespace ClipRegion

/-- Of any rectangles those are kept that have the same pixels one by one. -/
theorem partition_disjoint (rects : List Rect) :
    Rect.Partition (disjoint rects) (Rect.Covered rects) where
  nonempty := by
    have hfold : ∀ given kept : List Rect, (∀ r ∈ given, r.isEmpty = false) →
        (∀ r ∈ kept, r.isEmpty = false) →
        ∀ r ∈ given.foldl (fun kept r => kept ++ Rect.subtractAll [r] kept) kept,
          r.isEmpty = false := by
      intro given
      induction given with
      | nil => exact fun _ _ hkept => hkept
      | cons r given ih =>
        intro kept hgiven hkept
        refine ih _ (fun r' hr' => hgiven r' (List.mem_cons_of_mem r hr')) fun r' hr' => ?_
        rcases List.mem_append.mp hr' with hr' | hr'
        · exact hkept r' hr'
        · refine Rect.isEmpty_of_mem_subtractAll (fun s hs => ?_) r' hr'
          exact List.mem_singleton.mp hs ▸ hgiven r List.mem_cons_self
    refine hfold _ [] (fun r hr => ?_) fun r hr => absurd hr List.not_mem_nil
    simpa using (List.mem_filter.mp hr).2
  apart := pairwise_disjoint rects
  covered := covered_disjoint rects

/-- A region covers an area just if it shows all of it. -/
theorem covers_iff {c : ClipRegion} (hc : c.rects.Pairwise Rect.Apart) {area : Rect} :
    c.covers area = true ↔ ∀ x y, area.HasPixel x y → c.Shows x y := by
  refine ⟨fun h x y hp => shows_of_covers hc h hp, fun h => ?_⟩
  rw [covers]
  by_cases houtside : c.outside = true
  · rw [if_pos houtside, List.all_eq_true]
    intro r hr
    rw [Option.isNone_iff_eq_none]
    by_contra hsome
    obtain ⟨i, hi⟩ := Option.ne_none_iff_exists'.mp hsome
    -- The corner of a common part would be hidden.
    obtain ⟨-, hx, hy⟩ := Rect.intersect_eq_some hi
    obtain ⟨hrp, hp⟩ := (Rect.hasPixel_of_intersect hi i.x1 i.y1).mp ⟨le_rfl, hx, le_rfl, hy⟩
    have hshown := h i.x1 i.y1 hp
    rw [Shows, if_pos houtside] at hshown
    exact hshown ⟨r, hr, hrp⟩
  · rw [if_neg houtside]
    cases hempty : area.isEmpty with
    | true => rfl
    | false =>
      rw [← Bool.not_eq_true, Rect.isEmpty_iff] at hempty
      rw [Bool.false_or, Rect.foldl_area, Int.zero_add, beq_iff_eq]
      refine Rect.sum_area_of_covered (Rect.pairwise_filterMap_intersect hc area) (fun i hi => ?_)
        (by omega) (by omega) fun x y => ?_
      · obtain ⟨r, -, hri⟩ := List.mem_filterMap.mp hi
        obtain ⟨-, hx, hy⟩ := Rect.intersect_eq_some hri
        exact ⟨hx.le, hy.le⟩
      · rw [Rect.covered_filterMap_intersect, and_iff_right_iff_imp]
        intro hp
        have hshown := h x y hp
        rwa [Shows, if_neg houtside] at hshown

/-- A region that is made of any rectangles is known exactly: by the rectangles it keeps, by the
visible parts of a rectangle, by whether a rectangle is visible as a whole, and by what is left of one
rectangle outside another. -/
theorem regions_are_exact (rects : List Rect) (outside : Bool) :
    Rect.Partition (ofRects rects outside).rects (Rect.Covered rects) ∧
    (∀ r : Rect, ((ofRects rects outside).intersections r).Pairwise Rect.Apart ∧
      ∀ x y, Rect.Covered ((ofRects rects outside).intersections r) x y ↔
        r.HasPixel x y ∧ ClipRegion.Shows { rects, outside } x y) ∧
    (∀ r : Rect, (ofRects rects outside).covers r = true ↔
      ∀ x y, r.HasPixel x y → ClipRegion.Shows { rects, outside } x y) ∧
    ∀ a b : Rect, (a.subtract b).Pairwise Rect.Apart ∧
      ∀ x y, Rect.Covered (a.subtract b) x y ↔ a.HasPixel x y ∧ ¬ b.HasPixel x y := by
  have hapart := pairwise_ofRects rects outside
  have hshows := shows_ofRects rects outside
  refine ⟨partition_disjoint rects, fun r => ⟨pairwise_intersections hapart r, fun x y => ?_⟩,
    fun r => ?_, fun a b => ⟨Rect.pairwise_subtract a b, fun x y => Rect.covered_subtract⟩⟩
  · rw [covered_intersections, hshows]
    rfl
  · rw [covers_iff hapart]
    exact forall₂_congr fun x y => imp_congr_right fun _ => hshows x y

end ClipRegion

end BandedPage
