import Mathlib
import BandedPage.Proofs.Config
import BandedPage.Proofs.Bits.Basic
import BandedPage.Target.Raster

/-!
# What a raster shows

A raster is known by the colors of its pixels, since its bytes are no more than those. Painting
changes the colors of the pixels that are painted, where they may be, and no others.
-/

namespace BandedPage

namespace Raster

variable {r r' : Raster} {f g : Nat → Nat → Color}

/-- The bytes of the raster are those of the pixels, which have these colors. -/
structure Shows (r : Raster) (f : Nat → Nat → Color) : Prop where
  size : r.data.size = r.width * r.height * r.pixelSize
  pixels : ∀ x < r.width, ∀ y < r.height,
    r.pixelBytes x y = Word.bigEndian r.pixelSize (f x y).toNat

/-- The rasters are of the same page. -/
structure SamePage (r r' : Raster) : Prop where
  width : r'.width = r.width
  height : r'.height = r.height
  depth : r'.depth = r.depth
  clipBox : r'.clipBox = r.clipBox

theorem SamePage.refl (r : Raster) : r.SamePage r := ⟨rfl, rfl, rfl, rfl⟩

theorem SamePage.trans {r'' : Raster} (h : r.SamePage r') (h' : r'.SamePage r'') :
    r.SamePage r'' :=
  ⟨h'.width.trans h.width, h'.height.trans h.height, h'.depth.trans h.depth,
    h'.clipBox.trans h.clipBox⟩

/-- The pixels of a page are counted row by row. -/
theorem index_lt {w h x y : Nat} (hx : x < w) (hy : y < h) : y * w + x < w * h := by
  have : (y + 1) * w ≤ h * w := Nat.mul_le_mul_right w hy
  rw [Nat.add_mul, Nat.one_mul, Nat.mul_comm h w] at this
  omega

theorem eq_of_index_eq {w x y x' y' : Nat} (hx : x < w) (hx' : x' < w)
    (h : y * w + x = y' * w + x') : x = x' ∧ y = y' := by
  have hmod : ∀ {i j : Nat}, i < w → (j * w + i) % w = i := fun hi => by
    rw [Nat.mul_add_mod', Nat.mod_eq_of_lt hi]
  have hx : x = x' := by rw [← hmod (j := y) hx, h, hmod hx']
  subst hx
  exact ⟨rfl, Nat.eq_of_mul_eq_mul_right (by omega) (Nat.add_right_cancel h)⟩

theorem position_add_le {x y : Nat} (hx : x < r.width) (hy : y < r.height) :
    r.position x y + r.pixelSize ≤ r.width * r.height * r.pixelSize := by
  have hindex : y * r.width + x + 1 ≤ r.width * r.height := index_lt hx hy
  have := Nat.mul_le_mul_right r.pixelSize hindex
  rw [Nat.add_mul, Nat.one_mul] at this
  exact this

/-- The bytes of two pixels lie apart. -/
theorem positions_apart {x y x' y' : Nat} (hx : x < r.width) (hx' : x' < r.width)
    (hne : ¬ (x = x' ∧ y = y')) :
    r.position x y + r.pixelSize ≤ r.position x' y' ∨
      r.position x' y' + r.pixelSize ≤ r.position x y := by
  have key : ∀ i j : Nat, i < j → i * r.pixelSize + r.pixelSize ≤ j * r.pixelSize := by
    intro i j hij
    have := Nat.mul_le_mul_right r.pixelSize hij
    rwa [Nat.succ_mul] at this
  rcases Nat.lt_trichotomy (y * r.width + x) (y' * r.width + x') with hlt | heq | hgt
  · exact .inl (key _ _ hlt)
  · exact absurd (eq_of_index_eq hx hx' heq) hne
  · exact .inr (key _ _ hgt)

/-- A pixel has the low bytes of the color that it was given. -/
theorem pixel_put (hsize : r.data.size = r.width * r.height * r.pixelSize) {x y : Nat}
    (hx : x < r.width) (hy : y < r.height) (color : Color) :
    (r.put x y color).pixel x y = UInt64.ofNat (color.toNat % 256 ^ r.pixelSize) := by
  have hlength : (Word.bigEndian r.pixelSize color.toNat).length = r.pixelSize :=
    Word.length_bigEndian ..
  have hinside : r.position x y + (Word.bigEndian r.pixelSize color.toNat).length ≤ r.data.size := by
    rw [hlength, hsize]
    exact position_add_le hx hy
  have hwritten := Bits.extract_overwrite hinside
  rw [hlength] at hwritten
  rw [← Word.ofBigEndian_bigEndian, ← hwritten]
  rfl

theorem samePage_put (r : Raster) (x y : Nat) (color : Color) : r.SamePage (r.put x y color) :=
  ⟨rfl, rfl, rfl, rfl⟩

namespace Shows

theorem congr (h : r.Shows f) (heq : ∀ x < r.width, ∀ y < r.height, f x y = g x y) :
    r.Shows g := by
  refine ⟨h.size, fun x hx y hy => ?_⟩
  rw [h.pixels x hx y hy, heq x hx y hy]

theorem put (h : r.Shows f) {x y : Nat} (hx : x < r.width) (hy : y < r.height) (color : Color) :
    (r.put x y color).Shows fun x' y' => if x' = x ∧ y' = y then color else f x' y' := by
  refine ⟨(Bits.size_overwrite ..).trans h.size, fun x' hx' y' hy' => ?_⟩
  have hroom := position_add_le hx hy
  have hlength : (Word.bigEndian r.pixelSize color.toNat).length = r.pixelSize :=
    Word.length_bigEndian ..
  show ((Bits.overwrite r.data (r.position x y) _).extract (r.position x' y')
    (r.position x' y' + r.pixelSize)).toList = _
  by_cases heq : x' = x ∧ y' = y
  · obtain ⟨rfl, rfl⟩ := heq
    have hinside : r.position x' y' + (Word.bigEndian r.pixelSize color.toNat).length ≤
        r.data.size := by
      rw [hlength, h.size]
      exact hroom
    have := Bits.extract_overwrite hinside
    rw [hlength] at this
    rw [this, if_pos ⟨rfl, rfl⟩]
    rfl
  · rw [Bits.extract_overwrite_of_disjoint, if_neg heq]
    · exact h.pixels x' hx' y' hy'
    · rw [hlength]
      exact positions_apart hx' hx heq

/-- Pixels painted one after another, each in its own color. -/
theorem foldl_paintPixel (h : r.Shows f) (colorAt : Int → Int → Color)
    {pixels : List (Nat × Nat)} (hin : ∀ p ∈ pixels, p.1 < r.width ∧ p.2 < r.height) :
    r.SamePage (pixels.foldl (paintPixel colorAt) r) ∧
      (pixels.foldl (paintPixel colorAt) r).Shows fun x y =>
        if (x, y) ∈ pixels ∧ colorAt x y ≠ noColor then colorAt x y else f x y := by
  induction pixels generalizing r f with
  | nil => exact ⟨.refl r, by simpa using h⟩
  | cons p pixels ih =>
    obtain ⟨x, y⟩ := p
    obtain ⟨hx, hy⟩ := hin (x, y) List.mem_cons_self
    have hrest := fun p hp => hin p (List.mem_cons_of_mem _ hp)
    rw [List.foldl_cons, paintPixel]
    dsimp only
    by_cases hnone : colorAt x y = noColor
    · rw [if_pos hnone]
      obtain ⟨hpage, hshows⟩ := ih h hrest
      refine ⟨hpage, hshows.congr fun x' _ y' _ => ?_⟩
      by_cases hmem : (x', y') ∈ pixels ∧ colorAt x' y' ≠ noColor
      · rw [if_pos hmem, if_pos ⟨List.mem_cons_of_mem _ hmem.1, hmem.2⟩]
      · rw [if_neg hmem, if_neg]
        rintro ⟨hcons, hcolor⟩
        rcases List.mem_cons.mp hcons with heq | hmem'
        · cases heq
          exact hcolor hnone
        · exact hmem ⟨hmem', hcolor⟩
    · rw [if_neg hnone]
      obtain ⟨hpage, hshows⟩ := ih (h.put hx hy (colorAt x y)) hrest
      refine ⟨(samePage_put r x y _).trans hpage, hshows.congr fun x' _ y' _ => ?_⟩
      by_cases hmem : (x', y') ∈ pixels ∧ colorAt x' y' ≠ noColor
      · rw [if_pos hmem, if_pos ⟨List.mem_cons_of_mem _ hmem.1, hmem.2⟩]
      · rw [if_neg hmem]
        by_cases heq : x' = x ∧ y' = y
        · obtain ⟨rfl, rfl⟩ := heq
          have hcons : (x', y') ∈ (x', y') :: pixels ∧ colorAt x' y' ≠ noColor :=
            ⟨List.mem_cons_self, hnone⟩
          rw [if_pos hcons, if_pos ⟨rfl, rfl⟩]
        · rw [if_neg heq, if_neg]
          rintro ⟨hcons, hcolor⟩
          rcases List.mem_cons.mp hcons with heq' | hmem'
          · cases heq'
            exact heq ⟨rfl, rfl⟩
          · exact hmem ⟨hmem', hcolor⟩

end Shows

@[simp] theorem mem_pixelsOf {rect : Rect} (hx : 0 ≤ rect.x1) (hy : 0 ≤ rect.y1) {x y : Nat} :
    (x, y) ∈ pixelsOf rect ↔ rect.HasPixel x y := by
  have hwidth : rect.width = rect.x2 - rect.x1 := rfl
  have hheight : rect.height = rect.y2 - rect.y1 := rfl
  rw [pixelsOf, Rect.HasPixel]
  by_cases hempty : rect.isEmpty = true
  · rw [if_pos hempty]
    rw [Rect.isEmpty_iff] at hempty
    constructor
    · intro h
      exact absurd h List.not_mem_nil
    · intro h
      omega
  · rw [if_neg hempty]
    rw [Rect.isEmpty_iff] at hempty
    simp only [List.mem_flatMap, List.mem_map, List.mem_range'_1, Prod.mk.injEq]
    constructor
    · rintro ⟨y', hy', x', hx', rfl, rfl⟩
      omega
    · intro h
      exact ⟨y, by omega, x, by omega, rfl, rfl⟩

@[simp] theorem rectOfSize_eq {w h : Nat} (hw : w < 2147483648) (hh : h < 2147483648) :
    rectOfSize w h = ⟨0, 0, w, h⟩ := by
  rw [rectOfSize, Word.wrap32_natCast hw, Word.wrap32_natCast hh]
  simp only [Rect.ofCorners, Rect.mk.injEq]
  omega

theorem visible_eq_some {rect area : Rect} :
    r.visible rect = some area ↔
      ∃ onPage, rect.intersect r.pageRect = some onPage ∧ onPage.intersect r.clipBox = some area := by
  rw [visible]
  exact Option.bind_eq_some_iff

/-- The pixels of a rectangle that the page and the area of the band have take its colors. -/
theorem Shows.paint (h : r.Shows f) (hw : r.width < 2147483648) (hh : r.height < 2147483648)
    (rect : Rect) (colorAt : Int → Int → Color) :
    r.SamePage (r.paint rect colorAt) ∧ (r.paint rect colorAt).Shows fun x y =>
      if (rect.HasPixel x y ∧ r.clipBox.HasPixel x y) ∧ colorAt x y ≠ noColor then colorAt x y
      else f x y := by
  have hpage : r.pageRect = ⟨0, 0, r.width, r.height⟩ := by
    rw [pageRect, rectOfSize_eq hw hh]
  have hvisible : ∀ x < r.width, ∀ y < r.height, (∃ area ∈ r.visible rect, area.HasPixel x y) ↔
      rect.HasPixel x y ∧ r.clipBox.HasPixel x y := by
    intro x hx y hy
    have hin : r.pageRect.HasPixel x y := by
      rw [hpage]
      simp only [Rect.HasPixel]
      omega
    constructor
    · rintro ⟨area, harea, hp⟩
      obtain ⟨onPage, hon, harea⟩ := visible_eq_some.mp harea
      obtain ⟨hp, hbox⟩ := (Rect.hasPixel_of_intersect harea x y).mp hp
      exact ⟨((Rect.hasPixel_of_intersect hon x y).mp hp).1, hbox⟩
    · rintro ⟨hp, hbox⟩
      obtain ⟨onPage, hon, hp⟩ := Rect.exists_intersect_hasPixel.mpr ⟨hp, hin⟩
      obtain ⟨area, harea, hp⟩ := Rect.exists_intersect_hasPixel.mpr ⟨hp, hbox⟩
      exact ⟨area, visible_eq_some.mpr ⟨onPage, hon, harea⟩, hp⟩
  rw [Raster.paint]
  cases harea : r.visible rect with
  | none =>
    refine ⟨.refl r, h.congr fun x hx y hy => ?_⟩
    rw [harea] at hvisible
    rw [if_neg]
    rintro ⟨hp, -⟩
    obtain ⟨_, harea', -⟩ := (hvisible x hx y hy).mpr hp
    cases harea'
  | some area =>
    obtain ⟨onPage, hon, hbox⟩ := visible_eq_some.mp harea
    have honEq := (Rect.intersect_eq_some hon).1
    have hareaEq := (Rect.intersect_eq_some hbox).1
    have hleft : 0 ≤ area.x1 ∧ area.x2 ≤ r.width := by
      rw [hareaEq, honEq, hpage]
      dsimp only
      omega
    have htop : 0 ≤ area.y1 ∧ area.y2 ≤ r.height := by
      rw [hareaEq, honEq, hpage]
      dsimp only
      omega
    have hmem := fun x y : Nat => mem_pixelsOf (x := x) (y := y) hleft.1 htop.1
    have hin : ∀ p ∈ pixelsOf area, p.1 < r.width ∧ p.2 < r.height := by
      intro p hp
      have hp := (hmem p.1 p.2).mp hp
      rw [Rect.HasPixel] at hp
      omega
    obtain ⟨hsame, hshows⟩ := h.foldl_paintPixel colorAt hin
    refine ⟨hsame, hshows.congr fun x hx y hy => ?_⟩
    have hiff : (x, y) ∈ pixelsOf area ↔ rect.HasPixel x y ∧ r.clipBox.HasPixel x y := by
      rw [hmem, ← hvisible x (hsame.width ▸ hx) y (hsame.height ▸ hy), harea]
      simp
    simp only [hiff]

/-- Rasters of one size that show the same are the same. -/
theorem Shows.data_eq (h : r.Shows f) (h' : r'.Shows f) (hwidth : r'.width = r.width)
    (hheight : r'.height = r.height) (hdepth : r'.depth = r.depth) : r'.data = r.data := by
  have hpixel : r'.pixelSize = r.pixelSize := congrArg bytesPerPixel hdepth
  have hsize : r'.data.size = r.data.size := by
    rw [h'.size, h.size, hwidth, hheight, hpixel]
  refine Array.ext hsize fun i hi' hi => ?_
  -- byte `i` is byte `i % n` of a pixel, `n` being the size of a pixel
  have hn : 0 < r.pixelSize := Nat.lt_of_lt_of_le Nat.one_pos (Nat.le_max_right _ _)
  have hin : i / r.pixelSize < r.width * r.height := by
    rw [h.size] at hi
    exact Nat.div_lt_of_lt_mul (by rwa [Nat.mul_comm])
  have hw : 0 < r.width := by
    rcases Nat.eq_zero_or_pos r.width with hzero | hpos
    · rw [hzero, Nat.zero_mul] at hin
      exact absurd hin (Nat.not_lt_zero _)
    · exact hpos
  have hx : i / r.pixelSize % r.width < r.width := Nat.mod_lt _ hw
  have hy : i / r.pixelSize / r.width < r.height := Nat.div_lt_of_lt_mul hin
  have hindex : r.position (i / r.pixelSize % r.width) (i / r.pixelSize / r.width) +
      i % r.pixelSize = i := by
    rw [position, Nat.mul_comm (i / r.pixelSize / r.width), Nat.div_add_mod, Nat.mul_comm,
      Nat.div_add_mod]
  have hpos : r'.position (i / r.pixelSize % r.width) (i / r.pixelSize / r.width) =
      r.position (i / r.pixelSize % r.width) (i / r.pixelSize / r.width) := by
    rw [position, position, hpixel, hwidth]
  have hbytes : r'.pixelBytes (i / r.pixelSize % r.width) (i / r.pixelSize / r.width) =
      r.pixelBytes (i / r.pixelSize % r.width) (i / r.pixelSize / r.width) := by
    rw [h.pixels _ hx _ hy, h'.pixels _ (hwidth ▸ hx) _ (hheight ▸ hy), hpixel]
  have hget := congrArg (·[i % r.pixelSize]?) hbytes
  have hk := Nat.mod_lt i hn
  simp only [pixelBytes, hpos, hpixel, Array.getElem?_toList, Array.getElem?_extract, hindex]
    at hget
  rw [if_pos (by omega), if_pos (by omega), Array.getElem?_eq_getElem hi',
    Array.getElem?_eq_getElem hi] at hget
  exact Option.some.inj hget

end Raster

end BandedPage
