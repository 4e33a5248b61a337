import Mathlib
import BandedPage.Proofs.Computation
import BandedPage.Proofs.Replay.Steps
import BandedPage.Proofs.Target.Raster

/-!
# What is painted on a raster

A call gives certain pixels of the area certain colors, or is refused. Which pixels these are does
not depend on the colors that the page has, but only on its size and on the area.
-/

namespace BandedPage

namespace Raster

variable {r r' : Raster}

/-- A pixel and its new color. -/
structure Dot where
  x : Nat
  y : Nat
  color : Color

def putAll (r : Raster) (dots : List Dot) : Raster :=
  dots.foldl (fun r d => r.put d.x d.y d.color) r

@[simp] theorem putAll_nil (r : Raster) : r.putAll [] = r := rfl

@[simp] theorem putAll_cons (r : Raster) (d : Dot) (dots : List Dot) :
    r.putAll (d :: dots) = (r.put d.x d.y d.color).putAll dots := rfl

@[simp] theorem putAll_append (r : Raster) (dots dots' : List Dot) :
    r.putAll (dots ++ dots') = (r.putAll dots).putAll dots' := List.foldl_append

theorem samePage_putAll (r : Raster) (dots : List Dot) : r.SamePage (r.putAll dots) := by
  induction dots generalizing r with
  | nil => exact .refl r
  | cons d dots ih => exact (samePage_put r d.x d.y d.color).trans (ih _)

/-- Dots are of no effect on other pixels. -/
theorem pixel_putAll {x y : Nat} (hx : x < r.width) {dots : List Dot}
    (h : ∀ d ∈ dots, d.x < r.width ∧ ¬ (d.x = x ∧ d.y = y)) :
    (r.putAll dots).pixel x y = r.pixel x y := by
  induction dots generalizing r with
  | nil => rfl
  | cons d dots ih =>
    obtain ⟨hd, hne⟩ := h d List.mem_cons_self
    have hput : (r.put d.x d.y d.color).pixel x y = r.pixel x y := by
      have hapart : r.position x y + r.pixelSize ≤ r.position d.x d.y ∨
          r.position d.x d.y + (Word.bigEndian r.pixelSize d.color.toNat).length ≤
            r.position x y := by
        rw [Word.length_bigEndian]
        exact positions_apart hx hd fun ⟨hxd, hyd⟩ => hne ⟨hxd.symm, hyd.symm⟩
      show UInt64.ofNat (Word.ofBigEndian ((Bits.overwrite r.data _ _).extract
        (r.position x y) (r.position x y + r.pixelSize)).toList) = _
      rw [Bits.extract_overwrite_of_disjoint hapart]
      rfl
    rw [putAll_cons, ih (r := r.put d.x d.y d.color) hx fun d' hd' => h d' (List.mem_cons_of_mem _ hd'),
      hput]

@[simp]
theorem size_putAll (r : Raster) (dots : List Dot) : (r.putAll dots).data.size = r.data.size := by
  induction dots generalizing r with
  | nil => rfl
  | cons d dots ih => rw [putAll_cons, ih (r.put d.x d.y d.color), put, Bits.size_overwrite]

/-- Different pixels can be painted in either order. -/
theorem put_comm {x y x' y' : Nat} (hx : x < r.width) (hx' : x' < r.width)
    (hne : ¬ (x = x' ∧ y = y')) (color color' : Color) :
    (r.put x y color).put x' y' color' = (r.put x' y' color').put x y color := by
  have hdata : Bits.overwrite (Bits.overwrite r.data (r.position x y)
      (Word.bigEndian r.pixelSize color.toNat)) (r.position x' y')
      (Word.bigEndian r.pixelSize color'.toNat) =
        Bits.overwrite (Bits.overwrite r.data (r.position x' y')
          (Word.bigEndian r.pixelSize color'.toNat)) (r.position x y)
          (Word.bigEndian r.pixelSize color.toNat) := by
    refine Bits.overwrite_comm ?_
    rw [Word.length_bigEndian, Word.length_bigEndian]
    exact positions_apart hx hx' hne
  exact congrArg (fun data => { r with data }) hdata

/-- Dots on different pixels can be painted in either order. -/
theorem putAll_comm {dots dots' : List Dot}
    (h : ∀ d ∈ dots, ∀ d' ∈ dots',
      d.x < r.width ∧ d'.x < r.width ∧ ¬ (d.x = d'.x ∧ d.y = d'.y)) :
    (r.putAll dots).putAll dots' = (r.putAll dots').putAll dots := by
  have hone : ∀ {r' : Raster}, r'.width = r.width → ∀ d ∈ dots, ∀ dots'' ⊆ dots',
      (r'.put d.x d.y d.color).putAll dots'' = (r'.putAll dots'').put d.x d.y d.color := by
    intro r' hwidth d hd dots'' hsub
    induction dots'' generalizing r' with
    | nil => rfl
    | cons d' dots'' ih =>
      obtain ⟨hsub', hsub⟩ := List.cons_subset.mp hsub
      obtain ⟨hx, hx', hne⟩ := h d hd d' hsub'
      rw [putAll_cons, putAll_cons, put_comm (hwidth ▸ hx) (hwidth ▸ hx') hne]
      exact ih hwidth hsub
  have hall : ∀ {r' : Raster}, r'.width = r.width → ∀ dots'' ⊆ dots,
      (r'.putAll dots'').putAll dots' = (r'.putAll dots').putAll dots'' := by
    intro r' hwidth dots'' hsub
    induction dots'' generalizing r' with
    | nil => rfl
    | cons d dots'' ih =>
      obtain ⟨hd, hsub⟩ := List.cons_subset.mp hsub
      rw [putAll_cons, putAll_cons, @ih (r'.put d.x d.y d.color) hwidth hsub,
        hone hwidth d hd dots' (List.Subset.refl _)]
  exact hall rfl dots (List.Subset.refl _)

/-- The page with another area that may be drawn in. -/
def withBox (r : Raster) (box : Rect) : Raster := { r with clipBox := box }

@[simp] theorem withBox_withBox (r : Raster) (box box' : Rect) :
    (r.withBox box).withBox box' = r.withBox box' := rfl

/-- Dots are painted the same whatever the area is. -/
@[simp] theorem putAll_withBox (r : Raster) (box : Rect) (dots : List Dot) :
    (r.withBox box).putAll dots = (r.putAll dots).withBox box := by
  induction dots generalizing r with
  | nil => rfl
  | cons d dots ih => exact ih (r.put d.x d.y d.color)

/-- The rasters are of the same size, whatever their areas are. -/
structure SameSize (r r' : Raster) : Prop where
  width : r'.width = r.width
  height : r'.height = r.height
  depth : r'.depth = r.depth

theorem SameSize.refl (r : Raster) : r.SameSize r := ⟨rfl, rfl, rfl⟩

theorem SameSize.trans {r'' : Raster} (h : r.SameSize r') (h' : r'.SameSize r'') :
    r.SameSize r'' :=
  ⟨h'.width.trans h.width, h'.height.trans h.height, h'.depth.trans h.depth⟩

theorem SameSize.withBox (h : r.SameSize r') (box : Rect) :
    (r.withBox box).SamePage (r'.withBox box) :=
  ⟨h.width, h.height, h.depth, rfl⟩

theorem sameSize_putAll (r : Raster) (dots : List Dot) : r.SameSize (r.putAll dots) :=
  have h := r.samePage_putAll dots
  ⟨h.width, h.height, h.depth⟩

/-- Groups of dots of which any two can be painted in either order can be painted in any order. -/
theorem putAll_flatMap_of_perm {ι : Type} {dots : ι → List Dot} {l l' : List ι} (h : l.Perm l')
    (hcomm : ∀ i ∈ l, ∀ j ∈ l, ∀ r', r.SameSize r' →
      (r'.putAll (dots i)).putAll (dots j) = (r'.putAll (dots j)).putAll (dots i)) :
    r.putAll (l.flatMap dots) = r.putAll (l'.flatMap dots) := by
  induction h generalizing r with
  | nil => rfl
  | cons i h ih =>
    rw [List.flatMap_cons, List.flatMap_cons, putAll_append, putAll_append]
    refine ih fun j hj k hk r' hr' => hcomm j (List.mem_cons_of_mem i hj) k
      (List.mem_cons_of_mem i hk) r' ((sameSize_putAll r _).trans hr')
  | swap i j l =>
    simp only [List.flatMap_cons, putAll_append]
    rw [hcomm j (by simp) i (by simp) r (.refl r)]
  | trans h h' ih ih' =>
    rw [ih hcomm, ih' fun i hi j hj => hcomm i (h.mem_iff.mpr hi) j (h.mem_iff.mpr hj)]

/-- The dots are on the page and in the area. -/
def Admits (r : Raster) (dots : List Dot) : Prop :=
  ∀ d ∈ dots, d.x < r.width ∧ d.y < r.height ∧ r.clipBox.HasPixel d.x d.y

theorem Admits.append {dots dots' : List Dot} (h : r.Admits dots) (h' : r.Admits dots') :
    r.Admits (dots ++ dots') := fun d hd =>
  (List.mem_append.mp hd).elim (h d) (h' d)

theorem admits_nil (r : Raster) : r.Admits [] := fun _ hd => absurd hd List.not_mem_nil

/-- No pixel of the area is left of the page or above it. -/
structure Placed (r : Raster) : Prop where
  x : 0 ≤ r.clipBox.x1
  y : 0 ≤ r.clipBox.y1

/-- On pages like this one the change paints certain dots, whatever colors the pixels have. -/
def Paints (r : Raster) (f : Raster → Raster) : Prop :=
  ∃ dots, r.Admits dots ∧ ∀ r', r.SamePage r' → f r' = r'.putAll dots

theorem paints_id (r : Raster) : r.Paints fun r' => r' := ⟨[], admits_nil r, fun _ _ => rfl⟩

theorem Paints.comp {f g : Raster → Raster} (hf : r.Paints f) (hg : r.Paints g) :
    r.Paints fun r' => g (f r') := by
  obtain ⟨dots, hdots, hf⟩ := hf
  obtain ⟨dots', hdots', hg⟩ := hg
  refine ⟨dots ++ dots', hdots.append hdots', fun r' h => ?_⟩
  show g (f r') = _
  rw [hf r' h, hg _ (h.trans (samePage_putAll r' dots)), putAll_append]

theorem Paints.foldl {α : Type} {f : Raster → α → Raster} {l : List α}
    (h : ∀ a ∈ l, r.Paints fun r' => f r' a) : r.Paints fun r' => l.foldl f r' := by
  induction l with
  | nil => exact paints_id r
  | cons a l ih =>
    exact (h a List.mem_cons_self).comp (ih fun b hb => h b (List.mem_cons_of_mem a hb))

theorem SamePage.visible_eq (h : r.SamePage r') (rect : Rect) : r'.visible rect = r.visible rect := by
  rw [visible, visible, pageRect, pageRect, h.width, h.height, h.clipBox]

/-- A page has no pixels but those of its rectangle, however large it is. -/
theorem lt_of_pageRect {x y : Nat} (hp : r.pageRect.HasPixel x y) : x < r.width ∧ y < r.height := by
  have hw := Word.wrap32_natCast_le r.width
  have hh := Word.wrap32_natCast_le r.height
  obtain ⟨-, hx, -, hy⟩ : min 0 (Word.wrap32 r.width) ≤ (x : Int) ∧
    (x : Int) < max 0 (Word.wrap32 r.width) ∧ min 0 (Word.wrap32 r.height) ≤ (y : Int) ∧
    (y : Int) < max 0 (Word.wrap32 r.height) := hp
  generalize Word.wrap32 r.width = w at hx hw
  generalize Word.wrap32 r.height = h at hy hh
  exact ⟨by omega, by omega⟩

/-- The dots that give the pixels the colors that `colorAt` has for them. -/
def dotsOf (colorAt : Int → Int → Color) (pixels : List (Nat × Nat)) : List Dot :=
  (pixels.filter fun p => colorAt p.1 p.2 ≠ noColor).map fun p => ⟨p.1, p.2, colorAt p.1 p.2⟩

theorem foldl_paintPixel_eq (colorAt : Int → Int → Color) (pixels : List (Nat × Nat))
    (r : Raster) : pixels.foldl (paintPixel colorAt) r = r.putAll (dotsOf colorAt pixels) := by
  induction pixels generalizing r with
  | nil => rfl
  | cons p pixels ih =>
    rw [List.foldl_cons, ih, paintPixel, dotsOf, dotsOf]
    by_cases hnone : colorAt p.1 p.2 = noColor
    · rw [if_pos hnone, List.filter_cons_of_neg (by simpa using hnone)]
    · rw [if_neg hnone, List.filter_cons_of_pos (by simpa using hnone)]
      rfl

/-- The pixels of a rectangle are told apart. -/
theorem nodup_pixelsOf (rect : Rect) : (pixelsOf rect).Nodup := by
  rw [pixelsOf]
  split
  · exact List.nodup_nil
  · rw [List.nodup_flatMap]
    refine ⟨fun y _ => (List.nodup_range' _).map fun x x' h => (Prod.mk.inj h).1, ?_⟩
    refine (List.nodup_range' _).imp fun hne p hp hp' => ?_
    obtain ⟨x, -, rfl⟩ := List.mem_map.mp hp
    obtain ⟨x', -, h⟩ := List.mem_map.mp hp'
    exact hne (Prod.mk.inj h).2.symm

/-- Each pixel of an area that has a color there has one dot, of that color. -/
structure PaintedOnce (dots : List Dot) (colorAt : Int → Int → Color) (area : Int → Int → Prop) :
    Prop where
  once : (dots.map fun d => (d.x, d.y)).Nodup
  mem : ∀ d, d ∈ dots ↔ area d.x d.y ∧ d.color = colorAt d.x d.y ∧ d.color ≠ noColor

namespace PaintedOnce

variable {dots dots' : List Dot} {colorAt colorAt' : Int → Int → Color}
variable {area area' : Int → Int → Prop}

theorem nil (harea : ∀ x y, ¬ area x y) : PaintedOnce [] colorAt area :=
  ⟨List.nodup_nil, fun _ => iff_of_false List.not_mem_nil fun h => harea _ _ h.1⟩

theorem congr (h : PaintedOnce dots colorAt area) (harea : ∀ x y, area x y ↔ area' x y)
    (hcolor : ∀ x y, area x y → colorAt x y = colorAt' x y) : PaintedOnce dots colorAt' area' := by
  refine ⟨h.once, fun d => (h.mem d).trans ?_⟩
  rw [← harea]
  exact and_congr_right fun hd => by rw [hcolor _ _ hd]

/-- Areas that have nothing in common can be painted one after another. -/
theorem append (h : PaintedOnce dots colorAt area) (h' : PaintedOnce dots' colorAt area')
    (hapart : ∀ x y, area x y → ¬ area' x y) :
    PaintedOnce (dots ++ dots') colorAt fun x y => area x y ∨ area' x y := by
  refine ⟨?_, fun d => ?_⟩
  · rw [List.map_append]
    refine h.once.append h'.once fun p hp hp' => ?_
    obtain ⟨d, hd, rfl⟩ := List.mem_map.mp hp
    obtain ⟨d', hd', heq⟩ := List.mem_map.mp hp'
    obtain ⟨hx, hy⟩ := Prod.mk.inj heq
    have hin := ((h'.mem d').mp hd').1
    rw [hx, hy] at hin
    exact hapart _ _ ((h.mem d).mp hd).1 hin
  · rw [List.mem_append, h.mem, h'.mem, or_and_right]

/-- The pixels that are painted in the colors they have. -/
theorem dotsOf {pixels : List (Nat × Nat)} (hnodup : pixels.Nodup)
    (hmem : ∀ x y : Nat, (x, y) ∈ pixels ↔ area x y) (colorAt : Int → Int → Color) :
    PaintedOnce (Raster.dotsOf colorAt pixels) colorAt area := by
  refine ⟨?_, fun d => ?_⟩
  · rw [Raster.dotsOf, List.map_map]
    exact (List.map_id _).symm ▸ hnodup.filter _
  · simp only [Raster.dotsOf, List.mem_map, List.mem_filter, decide_eq_true_eq]
    constructor
    · rintro ⟨p, ⟨hp, hcolor⟩, rfl⟩
      exact ⟨(hmem _ _).mp hp, rfl, hcolor⟩
    · rintro ⟨hd, hcolor, hsome⟩
      refine ⟨(d.x, d.y), ⟨(hmem _ _).mpr hd, hcolor ▸ hsome⟩, ?_⟩
      rw [← hcolor]

/-- Afterwards the pixels of the area have their colors. -/
theorem pixel_putAll (h : PaintedOnce dots colorAt area)
    (hsize : r.data.size = r.width * r.height * r.pixelSize)
    (hin : ∀ d ∈ dots, d.x < r.width ∧ d.y < r.height) {x y : Nat} (harea : area x y)
    (hcolor : colorAt x y ≠ noColor) :
    (r.putAll dots).pixel x y = UInt64.ofNat ((colorAt x y).toNat % 256 ^ r.pixelSize) := by
  have hmem : ⟨x, y, colorAt x y⟩ ∈ dots := (h.mem _).mpr ⟨harea, rfl, hcolor⟩
  obtain ⟨before, after, rfl⟩ := List.append_of_mem hmem
  have hsame := samePage_putAll r before
  have hpixel : (r.putAll before).pixelSize = r.pixelSize := congrArg bytesPerPixel hsame.depth
  have hbytes : (r.putAll before).data.size =
      (r.putAll before).width * (r.putAll before).height * (r.putAll before).pixelSize := by
    rw [size_putAll, hsize, hsame.width, hsame.height, hpixel]
  have hx : x < (r.putAll before).width := (hin _ hmem).1.trans_eq hsame.width.symm
  have hy : y < (r.putAll before).height := (hin _ hmem).2.trans_eq hsame.height.symm
  -- no dot after this one is on its pixel
  have hlast : ∀ d ∈ after,
      d.x < ((r.putAll before).put x y (colorAt x y)).width ∧ ¬ (d.x = x ∧ d.y = y) := by
    intro d hd
    refine ⟨(hin d (by simp [hd])).1.trans_eq hsame.width.symm, fun heq => ?_⟩
    have honce := h.once
    rw [List.map_append, List.map_cons] at honce
    refine (List.nodup_cons.mp (List.nodup_append.mp honce).2.1).1 (List.mem_map.mpr ⟨d, hd, ?_⟩)
    rw [heq.1, heq.2]
  calc (r.putAll (before ++ ⟨x, y, colorAt x y⟩ :: after)).pixel x y
      = (((r.putAll before).put x y (colorAt x y)).putAll after).pixel x y := by
        simp
    _ = ((r.putAll before).put x y (colorAt x y)).pixel x y :=
        Raster.pixel_putAll (r := (r.putAll before).put x y (colorAt x y)) hx hlast
    _ = UInt64.ofNat ((colorAt x y).toNat % 256 ^ r.pixelSize) := by
        rw [pixel_put hbytes hx hy, hpixel]

end PaintedOnce

/-- On a page like this one a rectangle is painted where the page and the area have its pixels, each of
them once. -/
theorem exists_paintedOnce (hr : r.Placed) (rect : Rect) (colorAt : Int → Int → Color) :
    ∃ dots, PaintedOnce dots colorAt (fun x y =>
        rect.HasPixel x y ∧ r.pageRect.HasPixel x y ∧ r.clipBox.HasPixel x y) ∧
      ∀ r', r.SamePage r' → r'.paint rect colorAt = r'.putAll dots := by
  cases hvisible : r.visible rect with
  | none =>
    refine ⟨[], .nil fun x y h => ?_, fun r' h => ?_⟩
    · obtain ⟨onPage, hon, hp⟩ := Rect.exists_intersect_hasPixel.mpr ⟨h.1, h.2.1⟩
      obtain ⟨area, harea, -⟩ := Rect.exists_intersect_hasPixel.mpr ⟨hp, h.2.2⟩
      cases hvisible.symm.trans (visible_eq_some.mpr ⟨onPage, hon, harea⟩)
    · show r'.paintArea colorAt (r'.visible rect) = _
      rw [h.visible_eq, hvisible]
      rfl
  | some area =>
    obtain ⟨onPage, hon, hbox⟩ := visible_eq_some.mp hvisible
    have hareaEq := (Rect.intersect_eq_some hbox).1
    have hleft : 0 ≤ area.x1 := by
      rw [hareaEq]
      exact hr.x.trans (le_max_right _ _)
    have htop : 0 ≤ area.y1 := by
      rw [hareaEq]
      exact hr.y.trans (le_max_right _ _)
    refine ⟨dotsOf colorAt (pixelsOf area), .dotsOf (nodup_pixelsOf area) (fun x y => ?_) colorAt,
      fun r' h => ?_⟩
    · rw [mem_pixelsOf hleft htop, Rect.hasPixel_of_intersect hbox, Rect.hasPixel_of_intersect hon,
        and_assoc]
    · show r'.paintArea colorAt (r'.visible rect) = _
      rw [h.visible_eq, hvisible]
      exact foldl_paintPixel_eq colorAt _ r'

theorem paints_paint (hr : r.Placed) (rect : Rect) (colorAt : Int → Int → Color) :
    r.Paints fun r' => r'.paint rect colorAt := by
  obtain ⟨dots, hdots, hpaint⟩ := exists_paintedOnce hr rect colorAt
  refine ⟨dots, fun d hd => ?_, hpaint⟩
  obtain ⟨⟨-, hpage, hbox⟩, -⟩ := (hdots.mem d).mp hd
  obtain ⟨hx, hy⟩ := lt_of_pageRect hpage
  exact ⟨hx, hy, hbox⟩

theorem paints_paintSpan (hr : r.Placed) (color : Color) (clip : Option ClipRegion) (y x1 x2 : Int) :
    r.Paints fun r' => paintSpan color clip r' y x1 x2 :=
  .foldl fun piece _ => paints_paint hr piece fun _ _ => color

theorem paints_paintRows (hr : r.Placed) (polygons : List Polygon) (rule : FillRule)
    (color : Color) (clip : Option ClipRegion) (first stop : Int) :
    r.Paints fun r' => r'.paintRows polygons rule color clip first stop :=
  .foldl fun _ _ => .foldl fun ⟨_, _⟩ _ => paints_paintSpan hr color clip _ _ _

/-! ### Calls -/

/-- On pages like this one the call paints certain dots and is answered in a certain way, whatever
colors the pixels have. -/
def Draws (r : Raster) (call : DrawM Raster Unit) : Prop :=
  ∃ answer dots, r.Admits dots ∧ ∀ r', r.SamePage r' → call r' = endWith answer (r'.putAll dots)

theorem Paints.draws {f : Raster → Raster} (h : r.Paints f) : r.Draws (modify f) := by
  obtain ⟨dots, hdots, hf⟩ := h
  exact ⟨.ok (), dots, hdots, fun r' hr' => congrArg (EStateM.Result.ok ()) (hf r' hr')⟩

/-- A call that does nothing but answer. -/
theorem draws_answer {call : DrawM Raster Unit} (answer : Except Error Unit)
    (h : ∀ r', r.SamePage r' → call r' = endWith answer r') : r.Draws call :=
  ⟨answer, [], admits_nil r, h⟩

/-- A check of what is to be painted comes first. -/
theorem Paints.draws_checked {f : Raster → Raster} (h : r.Paints f) {call : DrawM Raster Unit}
    (check : Except Error Unit)
    (hcall : ∀ r', r.SamePage r' →
      call r' = (do let _ ← (liftM check : DrawM Raster Unit); modify f) r') : r.Draws call := by
  cases check with
  | error e => exact draws_answer (.error e) hcall
  | ok u =>
    obtain ⟨answer, dots, hdots, hf⟩ := h.draws
    exact ⟨answer, dots, hdots, fun r' hr' => (hcall r' hr').trans (hf r' hr')⟩

theorem draws_copyAlpha (hr : r.Placed) (bits : Bitmap) (rect : Rect) (color : Color)
    (depth : UInt8) : r.Draws (copyAlpha bits rect color depth) := by
  by_cases hzero : depth = 0
  · refine draws_answer (.error (.target "alpha depth 0")) fun r' _ => ?_
    rw [copyAlpha, if_pos hzero]
    rfl
  · refine (paints_paint hr rect fun x y =>
      if (1 : Color) <<< (depth.toUInt64 - 1) ≤ sample bits rect depth.toNat x y then color
      else noColor).draws_checked (checkRows bits rect depth.toNat) fun r' _ => ?_
    rw [copyAlpha, if_neg hzero]

theorem draws_copyColor (hr : r.Placed) (bits : Bitmap) (rect : Rect) :
    r.Draws (copyColor bits rect) :=
  (paints_paint hr rect (sample bits rect r.depth)).draws_checked (checkRows bits rect r.depth)
    fun r' h => by rw [← h.depth]; rfl

theorem draws_fillPath (hr : r.Placed) (path : Path) (rule : FillRule) (color : DrawingColor)
    (clip : Option ClipRegion) : r.Draws (fillPath path rule color clip) := by
  have hsame : ∀ r', r.SamePage r' → r'.visible r'.clipBox = r.visible r.clipBox := by
    intro r' h
    rw [h.visible_eq, h.clipBox]
  cases hcolor : solidColor color with
  | error e =>
    refine draws_answer (.error e) fun r' _ => ?_
    rw [fillPath, hcolor]
    rfl
  | ok c =>
    cases hspan : path.rowSpan with
    | none =>
      refine draws_answer (.ok ()) fun r' _ => ?_
      rw [fillPath, hcolor, lift_ok_bind_run, get_bind_run, hspan]
      exact pure_run () r'
    | some span =>
      cases harea : r.visible r.clipBox with
      | none =>
        refine draws_answer (.ok ()) fun r' h => ?_
        rw [fillPath, hcolor, lift_ok_bind_run, get_bind_run, hspan, hsame r' h, harea]
        exact pure_run () r'
      | some area =>
        obtain ⟨dots, hdots, hpaint⟩ := paints_paintRows hr (Outline.polygons path) rule c clip
          (max span.1 area.y1) (min (span.1 + span.2) area.y2)
        refine ⟨.ok (), dots, hdots, fun r' h => ?_⟩
        rw [fillPath, hcolor, lift_ok_bind_run, get_bind_run, hspan, hsame r' h, harea,
          ← hpaint r' h]
        exact set_run r' _

/-- Every call draws within the area. -/
theorem draws_perform (hr : r.Placed) (call : TargetCall) : r.Draws call.perform := by
  cases call with
  | fillRectangle rect color => exact (paints_paint hr rect fun _ _ => color).draws
  | copyMono bits rect colors =>
    exact (paints_paint hr rect fun x y => colors.ofBit (sample bits rect 1 x y != 0)).draws_checked
      (checkRows bits rect 1) fun _ _ => rfl
  | copyColor bits rect => exact draws_copyColor hr bits rect
  | copyAlpha bits rect color depth => exact draws_copyAlpha hr bits rect color depth
  | stripTileRectangle tile rect colors phase =>
    exact (paints_paint hr rect (tileColor tile colors phase)).draws
  | fillPath state path rule color clip => exact draws_fillPath hr path rule color clip
  | fillMask | stripCopyRop | strokePath | beginImage | imageData | endImage =>
    exact draws_answer (.error _) fun _ _ => rfl
  | putParams | installHalftone | installTransfer => exact draws_answer (.ok ()) fun _ _ => rfl

end Raster

end BandedPage
