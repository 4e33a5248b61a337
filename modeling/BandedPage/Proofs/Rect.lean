import Mathlib
import BandedPage.Clip
import BandedPage.Rect

/-!
# Rectangles as sets of pixels

A rectangle is known by its pixels. What is left of one outside another comes in pieces without a
pixel in common, so their areas add up.
-/

namespace BandedPage.Rect

theorem isEmpty_iff {r : Rect} : r.isEmpty = true ↔ r.x2 ≤ r.x1 ∨ r.y2 ≤ r.y1 := by
  rw [isEmpty, Bool.or_eq_true, decide_eq_true_eq, decide_eq_true_eq]

/-- Two rectangles have something in common if a row and a column of pixels meet. -/
theorem intersect_eq (a b : Rect) :
    a.intersect b =
      if max a.x1 b.x1 < min a.x2 b.x2 ∧ max a.y1 b.y1 < min a.y2 b.y2 then
        some ⟨max a.x1 b.x1, max a.y1 b.y1, min a.x2 b.x2, min a.y2 b.y2⟩
      else none := by
  rw [intersect]
  by_cases hsome : max a.x1 b.x1 < min a.x2 b.x2 ∧ max a.y1 b.y1 < min a.y2 b.y2
  · rw [if_pos hsome, if_neg]
    rw [isEmpty_iff]
    dsimp only
    omega
  · rw [if_neg hsome, if_pos]
    rw [isEmpty_iff]
    dsimp only
    omega

theorem intersect_eq_some {a b i : Rect} (h : a.intersect b = some i) :
    i = ⟨max a.x1 b.x1, max a.y1 b.y1, min a.x2 b.x2, min a.y2 b.y2⟩ ∧ i.x1 < i.x2 ∧
      i.y1 < i.y2 := by
  rw [intersect_eq] at h
  by_cases hsome : max a.x1 b.x1 < min a.x2 b.x2 ∧ max a.y1 b.y1 < min a.y2 b.y2
  · rw [if_pos hsome] at h
    cases h
    exact ⟨rfl, hsome⟩
  · rw [if_neg hsome] at h
    cases h

/-- The common part has the pixels in common. -/
theorem exists_intersect_hasPixel {a b : Rect} {x y : Int} :
    (∃ i ∈ a.intersect b, i.HasPixel x y) ↔ a.HasPixel x y ∧ b.HasPixel x y := by
  constructor
  · rintro ⟨i, hi, hp⟩
    exact (hasPixel_of_intersect hi x y).mp hp
  · rintro ⟨ha, hb⟩
    obtain ⟨hx, hx', hy, hy'⟩ := ha
    obtain ⟨hx₂, hx₂', hy₂, hy₂'⟩ := hb
    refine ⟨⟨max a.x1 b.x1, max a.y1 b.y1, min a.x2 b.x2, min a.y2 b.y2⟩, ?_, ?_⟩
    · rw [intersect_eq, if_pos (by omega)]
      rfl
    · simp only [HasPixel]
      omega

theorem intersect_eq_none {a b : Rect} (h : a.intersect b = none) (x y : Int) :
    ¬ (a.HasPixel x y ∧ b.HasPixel x y) := by
  intro hp
  obtain ⟨i, hi, -⟩ := exists_intersect_hasPixel.mpr hp
  rw [h] at hi
  cases hi

/-- No pixel lies in both. -/
def Apart (a b : Rect) : Prop := ∀ x y, ¬ (a.HasPixel x y ∧ b.HasPixel x y)

theorem Apart.symm {a b : Rect} (h : a.Apart b) : b.Apart a := fun x y hp => h x y hp.symm

/-- A rectangle without pixels is apart from all. -/
theorem not_hasPixel_of_isEmpty {r : Rect} (h : r.isEmpty = true) (x y : Int) :
    ¬ r.HasPixel x y := by
  rw [isEmpty_iff] at h
  rintro ⟨hx, hx', hy, hy'⟩
  omega

/-- Some rectangle of the list has the pixel. -/
def Covered (rects : List Rect) (x y : Int) : Prop := ∃ r ∈ rects, r.HasPixel x y

@[simp] theorem covered_cons {r : Rect} {rects : List Rect} {x y : Int} :
    Covered (r :: rects) x y ↔ r.HasPixel x y ∨ Covered rects x y := by
  simp [Covered]

@[simp] theorem covered_append {l k : List Rect} {x y : Int} :
    Covered (l ++ k) x y ↔ Covered l x y ∨ Covered k x y := by
  simp [Covered, or_and_right, exists_or]

@[simp] theorem covered_singleton {r : Rect} {x y : Int} : Covered [r] x y ↔ r.HasPixel x y := by
  simp [Covered]

@[simp] theorem not_covered_nil (x y : Int) : ¬ Covered [] x y := by
  simp [Covered]

theorem covered_ite {p : Prop} [Decidable p] {r : Rect} {x y : Int} :
    Covered (if p then [r] else []) x y ↔ p ∧ r.HasPixel x y := by
  by_cases hp : p
  · simp [hp, Covered]
  · simp [hp, Covered]

@[simp] theorem covered_subtract {a b : Rect} {x y : Int} :
    Covered (a.subtract b) x y ↔ a.HasPixel x y ∧ ¬ b.HasPixel x y := by
  rw [subtract]
  cases hi : a.intersect b with
  | none =>
    have hnone := intersect_eq_none hi x y
    rw [covered_singleton]
    tauto
  | some i =>
    obtain ⟨heq, hx, hy⟩ := intersect_eq_some hi
    simp only [covered_append, covered_ite, HasPixel]
    rw [heq] at hx hy ⊢
    dsimp only at hx hy ⊢
    omega

/-- What is left of a rectangle comes in pieces that lie apart. -/
theorem pairwise_subtract (a b : Rect) : (a.subtract b).Pairwise Apart := by
  rw [subtract]
  cases hi : a.intersect b with
  | none => exact List.pairwise_singleton Apart a
  | some i =>
    obtain ⟨heq, hx, hy⟩ := intersect_eq_some hi
    have hite : ∀ {p : Prop} [Decidable p] (r : Rect),
        (if p then [r] else []).Pairwise Apart := by
      intro p _ r
      split
      · exact List.pairwise_singleton Apart r
      · exact List.Pairwise.nil
    have hmem : ∀ {p : Prop} [Decidable p] {r s : Rect}, s ∈ (if p then [r] else []) → s = r := by
      intro p _ r s hs
      split at hs
      · exact List.mem_singleton.mp hs
      · cases hs
    simp only [List.pairwise_append, List.mem_append]
    refine ⟨⟨⟨hite _, hite _, ?_⟩, hite _, ?_⟩, hite _, ?_⟩
    · intro r hr s hs x y
      rw [hmem hr, hmem hs]
      simp only [HasPixel]
      rw [heq] at hx hy ⊢
      dsimp only at hx hy ⊢
      omega
    · rintro r (hr | hr) s hs x y
      · rw [hmem hr, hmem hs]
        simp only [HasPixel]
        omega
      · rw [hmem hr, hmem hs]
        simp only [HasPixel]
        omega
    · rintro r ((hr | hr) | hr) s hs x y
      · rw [hmem hr, hmem hs]
        simp only [HasPixel]
        omega
      · rw [hmem hr, hmem hs]
        simp only [HasPixel]
        omega
      · rw [hmem hr, hmem hs]
        simp only [HasPixel]
        rw [heq] at hx hy ⊢
        dsimp only at hx hy ⊢
        omega

@[simp] theorem covered_subtractAll {pieces holes : List Rect} {x y : Int} :
    Covered (subtractAll pieces holes) x y ↔ Covered pieces x y ∧ ¬ Covered holes x y := by
  induction holes generalizing pieces with
  | nil => simp [subtractAll]
  | cons hole holes ih =>
    have hflat : Covered (pieces.flatMap (subtract · hole)) x y ↔
        Covered pieces x y ∧ ¬ hole.HasPixel x y := by
      constructor
      · rintro ⟨s, hs, hp⟩
        obtain ⟨r, hr, hs⟩ := List.mem_flatMap.mp hs
        obtain ⟨hrp, hhole⟩ := covered_subtract.mp ⟨s, hs, hp⟩
        exact ⟨⟨r, hr, hrp⟩, hhole⟩
      · rintro ⟨⟨r, hr, hp⟩, hhole⟩
        obtain ⟨s, hs, hsp⟩ := covered_subtract.mpr ⟨hp, hhole⟩
        exact ⟨s, List.mem_flatMap.mpr ⟨r, hr, hs⟩, hsp⟩
    rw [subtractAll, List.foldl_cons]
    rw [show List.foldl _ _ holes = subtractAll (pieces.flatMap (subtract · hole)) holes from rfl,
      ih, hflat, covered_cons]
    tauto

theorem pairwise_subtractAll {pieces : List Rect} (h : pieces.Pairwise Apart) (holes : List Rect) :
    (subtractAll pieces holes).Pairwise Apart := by
  induction holes generalizing pieces with
  | nil => exact h
  | cons hole holes ih =>
    have hcut : (pieces.flatMap (subtract · hole)).Pairwise Apart := ?_
    · exact ih hcut
    rw [List.pairwise_flatMap]
    refine ⟨fun r _ => pairwise_subtract r hole, h.imp fun hrs r' hr' s' hs' x y hp => ?_⟩
    exact hrs x y ⟨(covered_subtract.mp ⟨r', hr', hp.1⟩).1, (covered_subtract.mp ⟨s', hs', hp.2⟩).1⟩

/-- The rectangles have pixels, share none, and have just those of which `P` holds. -/
structure Partition (rects : List Rect) (P : Int → Int → Prop) : Prop where
  nonempty : ∀ r ∈ rects, r.isEmpty = false
  apart : rects.Pairwise Apart
  covered : ∀ x y, Covered rects x y ↔ P x y

end BandedPage.Rect

namespace BandedPage

@[simp] theorem SizedRect.toRect_ofRect (r : Rect) : (SizedRect.ofRect r).toRect = r := by
  show Rect.mk r.x1 r.y1 (r.x1 + (r.x2 - r.x1)) (r.y1 + (r.y2 - r.y1)) = r
  rw [add_sub_cancel, add_sub_cancel]

end BandedPage
