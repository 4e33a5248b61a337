import Mathlib
import BandedPage.Clip
import BandedPage.Proofs.Rect
import BandedPage.Proofs.Replay.Commands

/-!
# Replaying clips

A clip is the region that some rectangles make. Those between its beginning and its end are
collected, and the region that they make is the clip from then on.
-/

namespace BandedPage

/-- The clip leaves the pixel `(x, y)` visible. -/
def ClipPath.Shows (c : ClipPath) (x y : Int) : Prop :=
  if c.outside then ¬ Rect.Covered c.rects x y else Rect.Covered c.rects x y

/-- The clip leaves the pixel `(x, y)` visible. -/
def ClipRegion.Shows (c : ClipRegion) (x y : Int) : Prop :=
  if c.outside then ¬ Rect.Covered c.rects x y else Rect.Covered c.rects x y

/-- Within `area` the region leaves visible what the clip does; without a region that is all. -/
def ClipPath.ShownIn (c : ClipPath) (area : Rect) (region : Option ClipRegion) : Prop :=
  ∀ x y, area.HasPixel x y → (c.Shows x y ↔ ∀ clip ∈ region, clip.Shows x y)

namespace Rect

noncomputable def pixels (r : Rect) : Finset (Int × Int) := Finset.Ico r.x1 r.x2 ×ˢ Finset.Ico r.y1 r.y2

@[simp] theorem mem_pixels {r : Rect} {p : Int × Int} : p ∈ r.pixels ↔ r.HasPixel p.1 p.2 := by
  simp only [pixels, Finset.mem_product, Finset.mem_Ico, HasPixel]
  tauto

@[simp] theorem card_pixels {r : Rect} (hx : r.x1 ≤ r.x2) (hy : r.y1 ≤ r.y2) :
    (r.pixels.card : Int) = r.area := by
  rw [pixels, Finset.card_product, Int.card_Ico, Int.card_Ico, area, width, height]
  push_cast
  rw [Int.toNat_of_nonneg (by omega), Int.toNat_of_nonneg (by omega)]

/-- Rectangles that lie apart have as many pixels as their areas say together. -/
theorem card_biUnion_pixels {rects : List Rect} (h : rects.Pairwise Apart)
    (hrects : ∀ r ∈ rects, r.x1 ≤ r.x2 ∧ r.y1 ≤ r.y2) :
    ∃ s : Finset (Int × Int), (∀ p, p ∈ s ↔ Covered rects p.1 p.2) ∧
      (s.card : Int) = (rects.map area).sum := by
  induction rects with
  | nil => exact ⟨∅, by simp, rfl⟩
  | cons r rects ih =>
    obtain ⟨hr, hrest⟩ := List.pairwise_cons.mp h
    obtain ⟨s, hmem, hcard⟩ := ih hrest fun r' hr' => hrects r' (List.mem_cons_of_mem r hr')
    have hdisjoint : Disjoint r.pixels s := by
      rw [Finset.disjoint_left]
      intro p hp hs
      obtain ⟨r', hr', hp'⟩ := (hmem p).mp hs
      exact hr r' hr' p.1 p.2 ⟨mem_pixels.mp hp, hp'⟩
    refine ⟨r.pixels ∪ s, fun p => ?_, ?_⟩
    · simp [hmem]
    · obtain ⟨hx, hy⟩ := hrects r List.mem_cons_self
      rw [Finset.card_union_of_disjoint hdisjoint, Nat.cast_add, card_pixels hx hy, hcard,
        List.map_cons, List.sum_cons]

/-- Parts of a rectangle that lie apart and have its area are all of it. -/
theorem covered_of_area_eq {parts : List Rect} {whole : Rect} (h : parts.Pairwise Apart)
    (hparts : ∀ r ∈ parts, (r.x1 ≤ r.x2 ∧ r.y1 ≤ r.y2) ∧
      ∀ x y, r.HasPixel x y → whole.HasPixel x y)
    (hx : whole.x1 ≤ whole.x2) (hy : whole.y1 ≤ whole.y2)
    (harea : (parts.map area).sum = whole.area) {x y : Int} (hp : whole.HasPixel x y) :
    Covered parts x y := by
  obtain ⟨s, hmem, hcard⟩ := card_biUnion_pixels h fun r hr => (hparts r hr).1
  have hsub : s ⊆ whole.pixels := by
    intro p hps
    obtain ⟨r, hr, hrp⟩ := (hmem p).mp hps
    exact mem_pixels.mpr ((hparts r hr).2 p.1 p.2 hrp)
  have hle : whole.pixels.card ≤ s.card := by
    have := card_pixels hx hy
    omega
  have heq := Finset.eq_of_subset_of_card_le hsub hle
  have : (x, y) ∈ s := heq ▸ mem_pixels.mpr hp
  exact (hmem (x, y)).mp this

@[simp] theorem foldl_area (rects : List Rect) (n : Int) :
    rects.foldl (fun n r => n + r.area) n = n + (rects.map area).sum := by
  induction rects generalizing n with
  | nil => simp
  | cons r rects ih => rw [List.foldl_cons, ih, List.map_cons, List.sum_cons, add_assoc]

/-- The common parts with rectangles that lie apart lie apart. -/
theorem pairwise_filterMap_intersect {rects : List Rect} (h : rects.Pairwise Apart) (area : Rect) :
    (rects.filterMap (·.intersect area)).Pairwise Apart := by
  rw [List.pairwise_filterMap]
  refine h.imp fun hrs i hi j hj x y hp => ?_
  exact hrs x y ⟨((hasPixel_of_intersect hi x y).mp hp.1).1,
    ((hasPixel_of_intersect hj x y).mp hp.2).1⟩

@[simp] theorem covered_filterMap_intersect {rects : List Rect} {area : Rect} {x y : Int} :
    Covered (rects.filterMap (·.intersect area)) x y ↔
      Covered rects x y ∧ area.HasPixel x y := by
  constructor
  · rintro ⟨i, hi, hp⟩
    obtain ⟨r, hr, hri⟩ := List.mem_filterMap.mp hi
    obtain ⟨hrp, harea⟩ := (hasPixel_of_intersect hri x y).mp hp
    exact ⟨⟨r, hr, hrp⟩, harea⟩
  · rintro ⟨⟨r, hr, hrp⟩, harea⟩
    obtain ⟨i, hi, hp⟩ := exists_intersect_hasPixel.mpr ⟨hrp, harea⟩
    exact ⟨i, List.mem_filterMap.mpr ⟨r, hr, hi⟩, hp⟩

end Rect

namespace ClipRegion

/-- Making a list disjoint keeps what was kept, and what it covers. -/
theorem foldl_disjoint (rects kept : List Rect) (h : kept.Pairwise Rect.Apart) :
    let result := rects.foldl (fun kept r => kept ++ Rect.subtractAll [r] kept) kept
    result.Pairwise Rect.Apart ∧
      ∀ x y, Rect.Covered result x y ↔ Rect.Covered kept x y ∨ Rect.Covered rects x y := by
  induction rects generalizing kept with
  | nil => exact ⟨h, fun x y => by simp⟩
  | cons r rects ih =>
    have hstep : (kept ++ Rect.subtractAll [r] kept).Pairwise Rect.Apart := by
      rw [List.pairwise_append]
      refine ⟨h, Rect.pairwise_subtractAll (List.pairwise_singleton _ r) kept, ?_⟩
      intro k hk s hs x y hp
      exact (Rect.covered_subtractAll.mp ⟨s, hs, hp.2⟩).2 ⟨k, hk, hp.1⟩
    obtain ⟨hpairwise, hcovered⟩ := ih _ hstep
    refine ⟨hpairwise, fun x y => ?_⟩
    rw [List.foldl_cons, hcovered, Rect.covered_append, Rect.covered_subtractAll,
      Rect.covered_singleton, Rect.covered_cons]
    tauto

theorem pairwise_disjoint (rects : List Rect) : (disjoint rects).Pairwise Rect.Apart :=
  (foldl_disjoint _ [] List.Pairwise.nil).1

@[simp] theorem covered_disjoint (rects : List Rect) (x y : Int) :
    Rect.Covered (disjoint rects) x y ↔ Rect.Covered rects x y := by
  rw [disjoint, (foldl_disjoint _ [] List.Pairwise.nil).2]
  constructor
  · rintro (h | ⟨r, hr, hp⟩)
    · exact absurd h (Rect.not_covered_nil x y)
    · exact ⟨r, (List.mem_filter.mp hr).1, hp⟩
  · rintro ⟨r, hr, hp⟩
    refine .inr ⟨r, List.mem_filter.mpr ⟨hr, ?_⟩, hp⟩
    by_contra hempty
    exact Rect.not_hasPixel_of_isEmpty (by simpa using hempty) x y hp

@[simp] theorem shows_ofRects (rects : List Rect) (outside : Bool) (x y : Int) :
    (ofRects rects outside).Shows x y ↔
      if outside then ¬ Rect.Covered rects x y else Rect.Covered rects x y := by
  simp [Shows, ofRects]

theorem pairwise_ofRects (rects : List Rect) (outside : Bool) :
    (ofRects rects outside).rects.Pairwise Rect.Apart :=
  pairwise_disjoint rects

/-- What a region leaves of a rectangle comes in pieces that lie apart. -/
theorem pairwise_intersections {c : ClipRegion} (hc : c.rects.Pairwise Rect.Apart) (r : Rect) :
    (c.intersections r).Pairwise Rect.Apart := by
  rw [intersections]
  split
  · exact Rect.pairwise_subtractAll (List.pairwise_singleton _ r) c.rects
  · exact Rect.pairwise_filterMap_intersect hc r

@[simp] theorem covered_intersections (c : ClipRegion) (r : Rect) (x y : Int) :
    Rect.Covered (c.intersections r) x y ↔ r.HasPixel x y ∧ c.Shows x y := by
  rw [intersections, Shows]
  by_cases houtside : c.outside = true
  · simp [houtside]
  · simp [houtside, and_comm]

/-- A region that covers an area shows all of it. -/
theorem shows_of_covers {c : ClipRegion} (hc : c.rects.Pairwise Rect.Apart) {area : Rect}
    (h : c.covers area = true) {x y : Int} (hp : area.HasPixel x y) : c.Shows x y := by
  rw [covers] at h
  rw [Shows]
  by_cases houtside : c.outside = true
  · rw [if_pos houtside] at h ⊢
    rintro ⟨r, hr, hrp⟩
    have hnone := List.all_eq_true.mp h r hr
    exact Rect.intersect_eq_none (Option.isNone_iff_eq_none.mp hnone) x y ⟨hrp, hp⟩
  · rw [if_neg houtside] at h ⊢
    rcases Bool.or_eq_true_iff.mp h with hempty | harea
    · exact absurd hp (Rect.not_hasPixel_of_isEmpty hempty x y)
    · rw [Rect.foldl_area, Int.zero_add, beq_iff_eq] at harea
      obtain ⟨hx, hx', hy, hy'⟩ := hp
      refine (Rect.covered_filterMap_intersect.mp (Rect.covered_of_area_eq
        (Rect.pairwise_filterMap_intersect hc area) ?_ (by omega) (by omega) harea
        ⟨hx, hx', hy, hy'⟩)).1
      intro i hi
      obtain ⟨r, hr, hri⟩ := List.mem_filterMap.mp hi
      obtain ⟨-, hix, hiy⟩ := Rect.intersect_eq_some hri
      exact ⟨⟨hix.le, hiy.le⟩, fun x y hp => ((Rect.hasPixel_of_intersect hri x y).mp hp).2⟩

end ClipRegion

end BandedPage

/-!
## Replaying clips

The rectangles between the beginning and the end of a clip are collected, and the region that they
make is the clip from then on. A region that leaves the whole band visible is dropped, which shows
the same.
-/

namespace BandedPage

variable {box : Rect} {r : ReplayState}

/-- The region of collected rectangles, unless it shows the whole band. -/
def ClipCollector.region (c : ClipCollector) (outside : Bool) (box : Rect) : Option ClipRegion :=
  if (c.finish outside).covers box then none else some (c.finish outside)

theorem replays_beginClip (box : Rect) (r : ReplayState) :
    Replays box Command.beginClip r [] { r with collector := some { clipBox := box } } := by
  refine ⟨_, [], .state .beginClip, rfl, rfl, by decide, fun {σ τ} _ _ _ => ?_⟩
  refine Yields.clipBox_bind ?_
  exact Yields.modifyState _

theorem replays_endClip {collector : ClipCollector} (outside : Bool)
    (h : r.collector = some collector) :
    Replays box (Command.endClip outside) r []
      ({ r with collector := none, clip := collector.region outside box }.learn .clip) := by
  refine ⟨_, [_], .state .endClip, rfl, rfl, by decide, fun {σ τ} _ _ _ => ?_⟩
  have hflag : (outside.toUInt8 != 0) = outside := by
    cases outside <;> decide
  refine Yields.read_bind (l := []) (Decodes.nextByte _) ?_
  rw [hflag]
  refine Yields.getState_bind ?_
  rw [h]
  refine Yields.clipBox_bind ?_
  exact Yields.modifyState _

namespace ClipCollector

@[simp] theorem covered_add (c : ClipCollector) (rect : Rect) (x y : Int) :
    Rect.Covered (c.add rect).rects.toList x y ↔
      Rect.Covered c.rects.toList x y ∨ rect.HasPixel x y := by
  rw [add]
  by_cases hempty : rect.isEmpty = true
  · rw [if_pos hempty]
    have := Rect.not_hasPixel_of_isEmpty hempty x y
    tauto
  · simp [hempty]

def addAll (c : ClipCollector) : List Rect → ClipCollector
  | [] => c
  | rect :: rects => (c.add rect).addAll rects

@[simp] theorem covered_addAll (rects : List Rect) (c : ClipCollector) (x y : Int) :
    Rect.Covered (c.addAll rects).rects.toList x y ↔
      Rect.Covered c.rects.toList x y ∨ Rect.Covered rects x y := by
  induction rects generalizing c with
  | nil => simp [addAll]
  | cons rect rects ih =>
    rw [addAll, ih, covered_add, Rect.covered_cons]
    tauto

end ClipCollector

namespace ClipPath

/-- The region that a band with these pixels takes the clip for. -/
def regionIn (clip : ClipPath) (box : Rect) : Option ClipRegion :=
  (ClipCollector.addAll { clipBox := box } (clip.rectsInRows box.y1 box.y2)).region clip.outside box

open ClipCollector in
/-- What is collected from the rectangles that a band is sent shows in the band what the clip
shows. -/
theorem shownIn_regionIn (clip : ClipPath) (box : Rect) :
    clip.ShownIn box (clip.regionIn box) := by
  intro x y hp
  have hrows : Rect.Covered (clip.rectsInRows box.y1 box.y2) x y ↔
      Rect.Covered clip.rects x y := by
    constructor
    · rintro ⟨r, hr, hrp⟩
      exact ⟨r, (List.mem_filter.mp hr).1, hrp⟩
    · rintro ⟨r, hr, hrp⟩
      refine ⟨r, List.mem_filter.mpr ⟨hr, ?_⟩, hrp⟩
      obtain ⟨hx, hx', hy, hy'⟩ := hrp
      obtain ⟨-, -, hby, hby'⟩ := hp
      simp only [Bool.and_eq_true, decide_eq_true_eq]
      omega
  have hshows : ((addAll { clipBox := box } (clip.rectsInRows box.y1 box.y2)).finish
      clip.outside).Shows x y ↔ clip.Shows x y := by
    have hnil : ¬ Rect.Covered (#[] : Array Rect).toList x y := Rect.not_covered_nil x y
    rw [finish, ClipRegion.shows_ofRects, covered_addAll, hrows, ClipPath.Shows]
    simp only [hnil, false_or]
  rw [← hshows, regionIn, region]
  split
  · next hcovers =>
    have := ClipRegion.shows_of_covers (ClipRegion.pairwise_disjoint _) hcovers hp
    simpa using this
  · simp

/-- The region that a band takes a clip for comes in rectangles that lie apart. -/
theorem pairwise_regionIn {clip : ClipPath} {box : Rect} {region : ClipRegion}
    (h : clip.regionIn box = some region) : region.rects.Pairwise Rect.Apart := by
  rw [regionIn, ClipCollector.region] at h
  split at h
  · cases h
  · cases h
    exact ClipRegion.pairwise_ofRects _ _

end ClipPath

namespace ReplayState

/-- What is visible of a rectangle comes in pieces that lie apart and leaves nothing out that the
clip shows. -/
theorem visible_regionIn {clip : ClipPath} {box : Rect} (henabled : r.band.clipEnabled = true)
    (hclip : r.clip = clip.regionIn box) (rect : Rect) :
    (r.visible box rect).Pairwise Rect.Apart ∧
      ∀ x y, Rect.Covered (r.visible box rect) x y ↔
        rect.HasPixel x y ∧ box.HasPixel x y ∧ clip.Shows x y := by
  have hactive : r.activeClip = clip.regionIn box := by
    rw [activeClip, if_pos henabled, hclip]
  have hshown := clip.shownIn_regionIn box
  rw [visible, hactive]
  cases hcommon : rect.intersect box with
  | none =>
    refine ⟨List.Pairwise.nil, fun x y => ?_⟩
    have hnone := Rect.intersect_eq_none hcommon x y
    have hnil := Rect.not_covered_nil x y
    tauto
  | some common =>
    have hpixel := Rect.hasPixel_of_intersect hcommon
    cases hregion : clip.regionIn box with
    | none =>
      refine ⟨List.pairwise_singleton _ common, fun x y => ?_⟩
      have hall : box.HasPixel x y → clip.Shows x y := fun hp =>
        (hshown x y hp).mpr fun region h => by rw [hregion] at h; cases h
      rw [Rect.covered_singleton, hpixel]
      tauto
    | some region =>
      refine ⟨ClipRegion.pairwise_intersections (ClipPath.pairwise_regionIn hregion) common,
        fun x y => ?_⟩
      have hsame : box.HasPixel x y → (clip.Shows x y ↔ region.Shows x y) := fun hp => by
        simpa [hregion] using hshown x y hp
      rw [ClipRegion.covered_intersections, hpixel]
      tauto

end ReplayState

/-- Commands carry the rectangles, of which each is sent by its differences from the one before. -/
def Rect.Carried : SizedRect → List Rect → Prop
  | _, [] => True
  | last, rect :: rects =>
    (SizedRect.ofRect rect).Fits ∧ ((SizedRect.ofRect rect).minus last).Fits ∧
      Carried (.ofRect rect) rects

instance Rect.decidableCarried : (last : SizedRect) → (rects : List Rect) → Decidable (Carried last rects)
  | _, [] => inferInstanceAs (Decidable True)
  | last, rect :: rects =>
    have := decidableCarried (.ofRect rect) rects
    inferInstanceAs (Decidable ((SizedRect.ofRect rect).Fits ∧
      ((SizedRect.ofRect rect).minus last).Fits ∧ Carried (.ofRect rect) rects))

/-- The commands for rectangles of which each is sent by its differences from the one before. -/
def RectCommand.encodeAll (base : UInt8) : SizedRect → List Rect → List Command
  | _, [] => []
  | last, rect :: rects =>
    RectCommand.encode base (.ofRect rect) last :: encodeAll base (.ofRect rect) rects

def SizedRect.lastOf : SizedRect → List Rect → SizedRect
  | last, [] => last
  | _, rect :: rects => lastOf (.ofRect rect) rects

/-- Rectangles become part of the clip one after another. -/
theorem replaysAll_collect {rects : List Rect} {collector : ClipCollector}
    (hrects : Rect.Carried r.band.rect rects) (h : r.collector = some collector) :
    ReplaysAll box (RectCommand.encodeAll Opcode.fillRect r.band.rect rects) r []
      { r.withRect (.lastOf r.band.rect rects) with collector := some (collector.addAll rects) } := by
  induction rects generalizing r collector with
  | nil =>
    have hsame : { r.withRect r.band.rect with collector := some collector } = r := by
      rw [← h]
      rfl
    show ReplaysAll box [] r [] { r.withRect r.band.rect with collector := some collector }
    rw [hsame]
    exact .nil r
  | cons rect rects ih =>
    obtain ⟨hfits, hminus, hrest⟩ := hrects
    have hhead : Replays box _ r [] _ := replays_fillRect_collecting hfits hminus h
    rw [SizedRect.toRect_ofRect] at hhead
    exact .cons hhead (ih (r := { r.withRect (.ofRect rect) with
      collector := some (collector.add rect) }) hrest rfl)

/-- The commands that tell a clip to a band with these pixels. -/
def ClipPath.commands (clip : ClipPath) (box : Rect) (last : SizedRect) : List Command :=
  Command.beginClip ::
    (RectCommand.encodeAll Opcode.fillRect last (clip.rectsInRows box.y1 box.y2) ++
      [Command.endClip clip.outside])

/-- What a band with these pixels has come to know when it was told the clip. -/
def ReplayState.withClip (r : ReplayState) (clip : ClipPath) (box : Rect) : ReplayState :=
  { r.withRect (.lastOf r.band.rect (clip.rectsInRows box.y1 box.y2)) with
    collector := none, clip := clip.regionIn box }.learn .clip

/-- What was told of a clip is the clip from then on. -/
theorem replaysAll_clip {clip : ClipPath}
    (hrects : Rect.Carried r.band.rect (clip.rectsInRows box.y1 box.y2)) :
    ReplaysAll box (clip.commands box r.band.rect) r [] (r.withClip clip box) := by
  have hcollect : ReplaysAll box _ { r with collector := some { clipBox := box } } [] _ :=
    replaysAll_collect hrects rfl
  have hend : Replays box _ { r.withRect (.lastOf r.band.rect (clip.rectsInRows box.y1 box.y2)) with
      collector := some (ClipCollector.addAll { clipBox := box }
        (clip.rectsInRows box.y1 box.y2)) } [] _ :=
    replays_endClip clip.outside rfl
  exact .cons (replays_beginClip box r) (hcollect.append (.single hend))

end BandedPage
