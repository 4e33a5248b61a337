import Mathlib
import BandedPage.Proofs.Page.Bitmaps
import BandedPage.Proofs.Page.Coherence
import BandedPage.Proofs.Page.Once
import BandedPage.Proofs.Page.Reached
import BandedPage.Proofs.Page.Strokes
import BandedPage.Proofs.Writer.Fitting
import BandedPage.Proofs.Writer.KeptTiles
import BandedPage.Proofs.Writer.Samples

/-!
# Bitmaps arrive pixel for pixel

A copy reaches a band in parts: what the band shows of it is taken from the cache as a whole, or is cut
into pieces, and each of them is cut to the band once more. However it was cut, the parts have no pixel
in common, together they have the pixels of the copy, and each has the bits that the bitmap has there.
-/

namespace BandedPage

/-! ### Areas that have nothing in common -/

/-- What lists make of areas goes together if the areas have nothing in common. -/
structure Additive {α : Type} (Q : (Int → Int → Prop) → List α → Prop) : Prop where
  nil : ∀ {area}, (∀ x y, ¬ area x y) → Q area []
  congr : ∀ {area area' l}, Q area l → (∀ x y, area x y ↔ area' x y) → Q area' l
  append : ∀ {area area' l l'}, Q area l → Q area' l' → (∀ x y, area x y → ¬ area' x y) →
    Q (fun x y => area x y ∨ area' x y) (l ++ l')

namespace Additive

variable {α ι : Type} {Q : (Int → Int → Prop) → List α → Prop} {items : List ι}
variable {areas : ι → Int → Int → Prop}

theorem flatten (hQ : Additive Q) {lists : List (List α)}
    (h : List.Forall₂ (fun i l => Q (areas i) l) items lists)
    (hapart : items.Pairwise fun i j => ∀ x y, areas i x y → ¬ areas j x y) :
    Q (fun x y => ∃ i ∈ items, areas i x y) lists.flatten := by
  induction h with
  | nil =>
    refine hQ.nil fun x y h => ?_
    obtain ⟨i, hi, -⟩ := h
    cases hi
  | @cons i l items lists hfirst _ ih =>
    obtain ⟨hne, hapart⟩ := List.pairwise_cons.mp hapart
    refine hQ.congr (hQ.append hfirst (ih hapart) ?_) fun x y => ?_
    · rintro x y hi ⟨j, hj, hjxy⟩
      exact hne j hj x y hi hjxy
    · simp only [List.mem_cons, or_and_right, exists_or, exists_eq_left]

theorem flatMap (hQ : Additive Q) {f : ι → List α} (areas : ι → Int → Int → Prop)
    (h : ∀ i ∈ items, Q (areas i) (f i))
    (hapart : items.Pairwise fun i j => ∀ x y, areas i x y → ¬ areas j x y) :
    Q (fun x y => ∃ i ∈ items, areas i x y) (items.flatMap f) := by
  rw [List.flatMap_def]
  refine hQ.flatten ?_ hapart
  rw [List.forall₂_map_right_iff]
  exact List.forall₂_same.mpr h

/-- What is done in turn. -/
theorem inTurn {Q : (Int → Int → Prop) → List TargetCall → Prop} (hQ : Additive Q)
    {P : ι → List TargetCall → Prop} {calls : List TargetCall} (areas : ι → Int → Int → Prop)
    (h : InTurn P items calls) (hpart : ∀ i ∈ items, ∀ calls, P i calls → Q (areas i) calls)
    (hapart : items.Pairwise fun i j => ∀ x y, areas i x y → ¬ areas j x y) :
    Q (fun x y => ∃ i ∈ items, areas i x y) calls := by
  obtain ⟨lists, hlists, rfl⟩ : ∃ lists, List.Forall₂ (fun i l => Q (areas i) l) items lists ∧
      calls = lists.flatten := by
    clear hapart
    induction h with
    | nil => exact ⟨[], .nil, rfl⟩
    | @cons i items calls more hcalls _ ih =>
      obtain ⟨lists, hlists, rfl⟩ := ih fun i hi => hpart i (List.mem_cons_of_mem _ hi)
      exact ⟨calls :: lists, .cons (hpart i List.mem_cons_self calls hcalls) hlists, rfl⟩
  exact hQ.flatten hlists hapart

end Additive

/-- The bands of a page have nothing in common, and together they are the page. -/
theorem Session.Sound.additive_bands {S : Session} (hS : S.Sound) {α : Type}
    {Q : (Int → Int → Prop) → List α → Prop} (hQ : Additive Q) {rect : Rect} {f : Nat → List α}
    (h : ∀ band < S.config.nbands,
      Q (fun x y => rect.HasPixel x y ∧ (S.config.bandRect band).HasPixel x y) (f band)) :
    Q (fun x y => rect.HasPixel x y ∧ S.config.pageRect.HasPixel x y)
      ((List.range S.config.nbands).flatMap f) := by
  have hin : ∀ band < S.config.nbands, ∀ x y, (S.config.bandRect band).HasPixel x y ↔
      S.config.pageRect.HasPixel x y ∧ S.config.bandOf y = band :=
    fun band hband x y => hS.valid.bandRect_hasPixel hS.height hband
  have hpage := hS.valid.pageRect_eq
  refine hQ.congr (hQ.flatMap (fun band x y => band < S.config.nbands ∧
    rect.HasPixel x y ∧ (S.config.bandRect band).HasPixel x y) ?_ ?_) fun x y => ?_
  · intro band hband
    have hlt := List.mem_range.mp hband
    exact hQ.congr (h band hlt) fun x y => ⟨fun hp => ⟨hlt, hp⟩, And.right⟩
  · refine List.nodup_range.imp fun hne x y hp hp' => hne ?_
    rw [← ((hin _ hp.1 x y).mp hp.2.2).2, ((hin _ hp'.1 x y).mp hp'.2.2).2]
  · constructor
    · rintro ⟨band, hband, hlt, hrect, hp⟩
      exact ⟨hrect, ((hin band hlt x y).mp hp).1⟩
    · rintro ⟨hrect, hp⟩
      have hlt : S.config.bandOf y < S.config.nbands := by
        have hy := hp.2.2
        rw [hpage] at hy
        exact hS.valid.bandOf_lt hy.1 hy.2
      exact ⟨_, List.mem_range.mpr hlt, hlt, hrect, (hin _ hlt x y).mpr ⟨hp, rfl⟩⟩

/-! ### Copies -/

/-- What a call copies: how it is painted, the bitmap, and the pixels it goes to. -/
def TargetCall.copied? : TargetCall → Option (CopyPaint × Bitmap × Rect)
  | copyMono bits rect colors => some (.mono colors, bits, rect)
  | copyColor bits rect => some (.deep, bits, rect)
  | copyAlpha bits rect color depth => some (.coverage color depth.toNat, bits, rect)
  | _ => none

namespace BitmapCopy

/-- Parts of a copy that have the bitmap's pixels in an area, each of them once. -/
structure Parts (c : BitmapCopy) (depth : Nat) (area : Int → Int → Prop)
    (parts : List (Bitmap × Rect)) : Prop where
  apart : parts.Pairwise fun p p' => p.2.Apart p'.2
  covered : ∀ x y, Rect.Covered (parts.map (·.2)) x y ↔ area x y
  complete : ∀ p ∈ parts, p.1.Covers p.2 depth
  sample : ∀ p ∈ parts, ∀ x y, p.2.HasPixel x y →
    Raster.sample p.1 p.2 depth x y = Raster.sample c.bitmap c.rect depth x y

namespace Parts

variable {c : BitmapCopy} {depth : Nat} {area area' : Int → Int → Prop}
variable {parts parts' : List (Bitmap × Rect)}

theorem hasPixel (h : c.Parts depth area parts) {p : Bitmap × Rect} (hp : p ∈ parts) {x y : Int}
    (hpixel : p.2.HasPixel x y) : area x y :=
  (h.covered x y).mp ⟨p.2, List.mem_map_of_mem hp, hpixel⟩

theorem congr (h : c.Parts depth area parts) (harea : ∀ x y, area x y ↔ area' x y) :
    c.Parts depth area' parts :=
  ⟨h.apart, fun x y => (h.covered x y).trans (harea x y), h.complete, h.sample⟩

theorem nil (harea : ∀ x y, ¬ area x y) : c.Parts depth area [] :=
  ⟨.nil, fun x y => iff_of_false (Rect.not_covered_nil x y) (harea x y),
    fun _ hp => absurd hp List.not_mem_nil, fun _ hp => absurd hp List.not_mem_nil⟩

/-- Parts in areas that have nothing in common. -/
theorem append (h : c.Parts depth area parts) (h' : c.Parts depth area' parts')
    (hapart : ∀ x y, area x y → ¬ area' x y) :
    c.Parts depth (fun x y => area x y ∨ area' x y) (parts ++ parts') where
  apart := List.pairwise_append.mpr ⟨h.apart, h'.apart, fun _ hp _ hp' x y hpixel =>
    hapart x y (h.hasPixel hp hpixel.1) (h'.hasPixel hp' hpixel.2)⟩
  covered x y := by simp [h.covered, h'.covered]
  complete p hp := (List.mem_append.mp hp).elim (h.complete p) (h'.complete p)
  sample p hp := (List.mem_append.mp hp).elim (h.sample p) (h'.sample p)

/-- Parts of what is left of a copy for a part of its rectangle. -/
theorem of_restrict {part : Rect} (h : (c.restrict part).Parts depth area parts)
    (hpart : part.Within c.rect) (harea : ∀ x y, area x y → part.HasPixel x y) :
    c.Parts depth area parts :=
  { h with
    sample := fun p hp x y hpixel => by
      obtain ⟨hx, -, hy, -⟩ := harea x y (h.hasPixel hp hpixel)
      exact (h.sample p hp x y hpixel).trans (Raster.sample_drop hpart hx hy) }

end Parts

/-- The calls copy the pixels of an area, each of them once, as they are in the bitmap. -/
def Arrives (c : BitmapCopy) (config : Config) (area : Int → Int → Prop) (calls : List TargetCall) :
    Prop :=
  ∃ parts, c.Parts (c.paint.depth config.depth) area parts ∧
    calls.map TargetCall.copied? = parts.map fun p => some (c.paint, p)

namespace Arrives

variable {c : BitmapCopy} {config : Config} {area area' : Int → Int → Prop}
variable {calls more : List TargetCall}

theorem congr (h : c.Arrives config area calls) (harea : ∀ x y, area x y ↔ area' x y) :
    c.Arrives config area' calls := by
  obtain ⟨parts, hparts, hcalls⟩ := h
  exact ⟨parts, hparts.congr harea, hcalls⟩

theorem nil (harea : ∀ x y, ¬ area x y) : c.Arrives config area [] := ⟨[], .nil harea, rfl⟩

theorem append (h : c.Arrives config area calls) (h' : c.Arrives config area' more)
    (hapart : ∀ x y, area x y → ¬ area' x y) :
    c.Arrives config (fun x y => area x y ∨ area' x y) (calls ++ more) := by
  obtain ⟨parts, hparts, hcalls⟩ := h
  obtain ⟨parts', hparts', hmore⟩ := h'
  refine ⟨parts ++ parts', hparts.append hparts' hapart, ?_⟩
  rw [List.map_append, List.map_append, hcalls, hmore]

theorem additive (c : BitmapCopy) (config : Config) : Additive (c.Arrives config) :=
  ⟨nil, congr, append⟩

theorem of_restrict {part : Rect} (h : (c.restrict part).Arrives config area calls)
    (hpart : part.Within c.rect) (harea : ∀ x y, area x y → part.HasPixel x y) :
    c.Arrives config area calls := by
  obtain ⟨parts, hparts, hcalls⟩ := h
  exact ⟨parts, hparts.of_restrict hpart harea, hcalls⟩

end Arrives

variable {c : BitmapCopy} {q : Terms} {config : Config}

/-- A bitmap with the pixels of a copy is copied to what a box shows of it. -/
theorem arrives_copyCalls (hplain : c.paint.Plain) (hfits : c.paint.Fits q config)
    (hcolors : q.exactColors) {v : PaintSettings} (hshown : c.paint.ShownAs q config v)
    (hclip : v.clip = none) {bits : Bitmap} {rect : Rect}
    (hcovers : bits.Covers rect (c.paint.depth config.depth))
    (hsample : ∀ x y, rect.HasPixel x y → Raster.sample bits rect (c.paint.depth config.depth) x y =
      Raster.sample c.bitmap c.rect (c.paint.depth config.depth) x y) (box : Rect) :
    c.Arrives config (fun x y => rect.HasPixel x y ∧ box.HasPixel x y)
      (v.copyCalls box c.paint bits rect) := by
  have hcalls : (v.copyCalls box c.paint bits rect).map TargetCall.copied? =
      (v.visible box rect).map fun part => some (c.paint, Replay.subBitmap bits rect part, part) := by
    cases hpaint : c.paint with
    | mono colors =>
      rw [hpaint] at hshown
      simp only [PaintSettings.copyCalls, List.map_map, Function.comp_def, TargetCall.copied?,
        hshown hcolors]
    | deep =>
      simp only [PaintSettings.copyCalls, List.map_map, Function.comp_def, TargetCall.copied?]
    | coverage color depth =>
      rw [hpaint] at hshown hfits
      have hdepth : ∀ n ∈ [1, 2, 4, 8], (UInt8.ofNat n).toNat = n := by decide
      simp only [PaintSettings.copyCalls, List.map_map, Function.comp_def, TargetCall.copied?,
        hshown hcolors, hdepth depth hfits.2]
    | halftone tile colors phase => exact absurd hpaint (hplain tile colors phase)
  have hvisible : v.visible box rect = (rect.intersect box).toList := by
    rw [PaintSettings.visible, hclip]
    cases rect.intersect box <;> rfl
  rw [hvisible] at hcalls
  cases hpart : rect.intersect box with
  | none =>
    rw [hpart] at hcalls
    exact ⟨[], .nil fun x y => Rect.intersect_eq_none hpart x y, hcalls⟩
  | some part =>
    rw [hpart] at hcalls
    obtain ⟨heq, hwidth, -⟩ := Rect.intersect_eq_some hpart
    have hin : part.Within rect := by
      rw [heq]
      exact ⟨⟨le_max_left .., min_le_left ..⟩, le_max_left .., min_le_left ..⟩
    refine ⟨[(Replay.subBitmap bits rect part, part)], ⟨List.pairwise_singleton .., fun x y => ?_,
      fun p hp => ?_, fun p hp x y hpixel => ?_⟩, hcalls⟩
    · rw [List.map_singleton, Rect.covered_singleton]
      exact Rect.hasPixel_of_intersect hpart x y
    · rw [List.mem_singleton.mp hp]
      exact hcovers.drop hin hwidth.le
    · rw [List.mem_singleton.mp hp] at hpixel ⊢
      have hrect := ((Rect.hasPixel_of_intersect hpart x y).mp hpixel).1
      exact (Raster.sample_drop hin hpixel.1 hpixel.2.2.1).trans (hsample x y hrect)

/-- However a copy is drawn, its pixels arrive. -/
theorem DrawnBy.arrives {lop : LogicalOp} {band : Nat} {calls : List TargetCall}
    (h : c.DrawnBy q config lop band calls) (hplain : c.paint.Plain) (hclip : c.clip = none)
    (hvalid : config.Valid) (hsmall : config.payloadRoom * 8 < 2147483648)
    (hfits : c.Fits q config) (hcolors : q.exactColors) (htiles : q.exactTiles)
    (hheap : config.tileBytes < 4294967296)
    (hcovers : c.bitmap.Covers c.rect (c.paint.depth config.depth)) :
    c.Arrives config (fun x y => c.rect.HasPixel x y ∧ (config.bandRect band).HasPixel x y) calls := by
  have hcut := hfits.canCut hvalid hsmall
  cases h with
  | @pieces v hv _ _ _ =>
    refine ((Arrives.additive c config).inTurn (fun p x y => (pieceRect p.1 p.2).toRect.HasPixel x y ∧
      (config.bandRect band).HasPixel x y) (.of_flatMap _ _) ?_ ?_).congr fun x y => ?_
    · rintro p hp _ rfl
      have hpiece := hcut.piece_of_mem hp
      have hholds := hcut.holds_of_mem hp
      exact arrives_copyCalls hplain hfits.paint hcolors hv.shown (hv.clip_none hclip)
        (covers_pieceBitmap hpiece hholds hcovers)
        (fun x y hpixel => sample_pieceBitmap hpiece hholds hcovers hpixel) _
    · exact hcut.pairwise_pieces.imp fun hapart x y hp hp' => hapart x y ⟨hp.1, hp'.1⟩
    · constructor
      · rintro ⟨p, hp, hpixel, hband⟩
        obtain ⟨⟨hx, hx', hy, hy'⟩, hholds⟩ := And.intro hpixel (hcut.holds_of_mem hp)
        exact ⟨⟨hholds.columns.1.trans hx, hx'.trans_le hholds.columns.2.2,
          hholds.rows.1.trans hy, hy'.trans_le hholds.rows.2.2⟩, hband⟩
      · rintro ⟨hpixel, hband⟩
        obtain ⟨p, hp, hpixel⟩ := hcut.exists_piece hpixel
        exact ⟨p, hp, hpixel, hband⟩
  | @cached v hv id hid stored hsize hshows =>
    obtain ⟨rows, hrows⟩ := exists_cachedRows hcovers
    have hdata : stored.data = rows := by
      refine (hfits.named id hid rows hrows).2 htiles _ ?_
      rw [← hsize]
      exact hshows htiles hheap
    have hbitmap : ({ data := stored.data, raster := stored.raster } : Bitmap) =
        c.cachedBitmap config rows := by
      rw [cachedBitmap, hdata, ← hsize]
      rfl
    rw [hbitmap]
    exact arrives_copyCalls hplain hfits.paint hcolors hv.shown (hv.clip_none hclip)
      (covers_cachedBitmap hrows) (fun x y hpixel => sample_cachedBitmap hrows hpixel) _

end BitmapCopy

namespace Session

variable {S : Session} {c : BitmapCopy} {band : Nat} {calls : List TargetCall}

/-- A pixel of a rectangle lies in the part of its band. -/
theorem exists_mem_partsOf (hS : S.Sound) {rect : Rect} (hband : band < S.config.nbands) {x y : Int} :
    (∃ p ∈ S.partsOf rect, p.1 = band ∧ p.2.HasPixel x y) ↔
      rect.HasPixel x y ∧ (S.config.bandRect band).HasPixel x y := by
  have hpage : (S.config.bandRect band).HasPixel x y → S.config.pageRect.HasPixel x y := fun h =>
    ((hS.valid.bandRect_hasPixel hS.height hband).mp h).1
  rw [partsOf]
  cases hvisible : rect.intersect S.config.pageRect with
  | none =>
    refine iff_of_false (fun h => ?_) fun h => Rect.intersect_eq_none hvisible x y ⟨h.1, hpage h.2⟩
    obtain ⟨p, hp, -⟩ := h
    cases hp
  | some r =>
    have hr := Rect.hasPixel_of_intersect hvisible x y
    constructor
    · rintro ⟨p, hp, rfl, hpixel⟩
      obtain ⟨-, hpart⟩ := hS.valid.of_mem_bandParts hp
      obtain ⟨hin, hband⟩ := (Rect.hasPixel_of_intersect hpart x y).mp hpixel
      exact ⟨(hr.mp hin).1, hband⟩
    · rintro ⟨hpixel, hin⟩
      obtain ⟨part, hpart, hpixel⟩ :=
        Rect.exists_intersect_hasPixel.mpr ⟨hr.mpr ⟨hpixel, hpage hin⟩, hin⟩
      have hfilter := hS.valid.filter_bandParts hS.height r hband
      rw [Option.mem_def.mp hpart] at hfilter
      have hmem : (band, part) ∈ (S.config.bandParts r).filter (·.1 == band) := by
        rw [hfilter]
        exact List.mem_singleton_self _
      exact ⟨(band, part), (List.mem_filter.mp hmem).1, rfl, hpixel⟩

/-- The parts of a rectangle are within it. -/
theorem within_of_mem_partsOf (hS : S.Sound) {rect : Rect} {p : Nat × Rect}
    (hp : p ∈ S.partsOf rect) : p.2.Within rect ∧ p.2.x1 ≤ p.2.x2 := by
  rw [partsOf] at hp
  cases hvisible : rect.intersect S.config.pageRect with
  | none =>
    rw [hvisible] at hp
    cases hp
  | some r =>
    rw [hvisible] at hp
    obtain ⟨-, hpart⟩ := hS.valid.of_mem_bandParts hp
    obtain ⟨heq, hwidth, -⟩ := Rect.intersect_eq_some hpart
    obtain ⟨hr, -⟩ := Rect.intersect_eq_some hvisible
    refine ⟨?_, hwidth.le⟩
    rw [heq, hr]
    refine ⟨⟨?_, ?_⟩, ?_, ?_⟩ <;> dsimp only <;> omega

/-- In its band a copy arrives. -/
theorem Copies.arrives (h : S.Copies c band calls) (hS : S.Sound) (hc : S.AdmitsCopy c)
    (hplain : c.paint.Plain) (hclip : c.clip = none) (hcolors : S.terms.exactColors)
    (htiles : S.terms.exactTiles) (hheap : S.config.tileBytes < 4294967296)
    (hcovers : c.bitmap.Covers c.rect (c.paint.depth S.config.depth))
    (hband : band < S.config.nbands) :
    c.Arrives S.config
      (fun x y => c.rect.HasPixel x y ∧ (S.config.bandRect band).HasPixel x y) calls := by
  have hparts : ∀ p ∈ S.partsOf c.rect, ∀ calls, InBand p.1 (fun calls => ∃ lop,
      (S.terms.exactImager → S.lops lop) ∧ (c.restrict p.2).DrawnBy
        (S.on (c.clip.bind fun k => S.clips k.id)) S.config lop p.1 calls) band calls →
      c.Arrives S.config (fun x y => p.1 = band ∧ p.2.HasPixel x y ∧
        (S.config.bandRect band).HasPixel x y) calls := by
    intro p hp calls hcalls
    rw [InBand] at hcalls
    by_cases heq : band = p.1
    · subst heq
      rw [if_pos rfl] at hcalls
      obtain ⟨lop, -, hdrawn⟩ := hcalls
      obtain ⟨hin, hwidth⟩ := within_of_mem_partsOf hS hp
      have harrives := hdrawn.arrives hplain hclip hS.valid hc.room (hc.fits hS (fun _ => rfl) hp)
        hcolors htiles hheap (hcovers.drop hin hwidth)
      exact (harrives.of_restrict hin fun x y hpixel => hpixel.1).congr fun x y =>
        ⟨fun h => ⟨rfl, h⟩, And.right⟩
    · rw [if_neg heq] at hcalls
      rw [hcalls]
      exact .nil fun x y hpixel => heq hpixel.1.symm
  refine ((BitmapCopy.Arrives.additive c S.config).inTurn _ h hparts ?_).congr fun x y => ?_
  · refine (S.pairwise_partsOf c.rect).imp fun hne x y hpixel hpixel' => ?_
    exact hne (hpixel.1.trans hpixel'.1.symm)
  · rw [← exists_mem_partsOf hS hband]
    constructor
    · rintro ⟨p, hp, heq, hpixel, -⟩
      exact ⟨p, hp, heq, hpixel⟩
    · rintro ⟨p, hp, rfl, hpixel⟩
      exact ⟨p, hp, rfl, hpixel, ((exists_mem_partsOf hS hband).mp ⟨p, hp, rfl, hpixel⟩).2⟩

end Session

end BandedPage

/-!
## Bitmaps arrive wherever a session has come to

A writer's cache never has more bitmaps than it counts, so a bitmap that has all its rows is copied
where memory is granted, and then replay of the bands copies its pixels.
-/

namespace BandedPage

def Intent.copy? : Intent → Option BitmapCopy
  | copyMono bitmap name rect colors => some { bitmap, rect, paint := .mono colors, name }
  | copyColor bitmap name rect => some { bitmap, rect, paint := .deep, name }
  | copyAlpha bitmap name rect color depth =>
    if depth ∈ [1, 2, 4, 8] then some { bitmap, rect, paint := .coverage color depth, name } else none
  | _ => none

namespace Intent

variable {intent : Intent} {c : BitmapCopy}

theorem plain_of_copy? (h : intent.copy? = some c) : c.paint.Plain ∧ c.clip = none := by
  cases intent with
  | copyMono | copyColor =>
    cases h
    exact ⟨(fun _ _ _ h => nomatch h), rfl⟩
  | copyAlpha bitmap name rect color depth =>
    obtain ⟨-, h⟩ := Option.ite_none_right_eq_some.mp h
    cases h
    exact ⟨(fun _ _ _ h => nomatch h), rfl⟩
  | _ => cases h

theorem perform_of_copy? {μ ν : Type} [Medium μ] [MemoryPolicy μ ν] (h : intent.copy? = some c) :
    (intent.perform : WriterM μ ν Unit) = Writer.copyBitmap c := by
  cases intent with
  | copyMono | copyColor =>
    cases h
    rfl
  | copyAlpha bitmap name rect color depth =>
    obtain ⟨hdepth, h⟩ := Option.ite_none_right_eq_some.mp h
    cases h
    simp only [Intent.perform, Writer.copyAlpha, if_neg (not_not.mpr hdepth)]
  | _ => cases h

end Intent

theorem Session.Admits.copy {S : Session} {intent : Intent} {c : BitmapCopy} (h : S.Admits intent)
    (hcopy : intent.copy? = some c) : S.AdmitsCopy c := by
  cases intent with
  | copyMono | copyColor =>
    cases hcopy
    exact h
  | copyAlpha bitmap name rect color depth =>
    obtain ⟨hdepth, hcopy⟩ := Option.ite_none_right_eq_some.mp hcopy
    cases hcopy
    exact h hdepth
  | _ => cases hcopy

/-- What copies is no setting. -/
theorem TargetCall.drawing_of_copied {calls : List TargetCall} {paint : CopyPaint}
    {parts : List (Bitmap × Rect)}
    (h : calls.map copied? = parts.map fun p => some (paint, p)) : drawing calls = calls := by
  refine List.filter_eq_self.mpr fun call hcall => ?_
  have hmem : call.copied? ∈ parts.map fun p => some (paint, p) := h ▸ List.mem_map_of_mem hcall
  obtain ⟨p, -, hp⟩ := List.mem_map.mp hmem
  cases call <;> first | rfl | cases hp

variable {μ ν : Type} [Medium μ] [LawfulMedium μ] [MemoryPolicy μ ν]

omit [Medium μ] [LawfulMedium μ] in
/-- Memory that is never refused is refused for no other reason. -/
theorem MemoryPolicy.Grants.refusesForLack (h : MemoryPolicy.Grants μ ν) :
    MemoryPolicy.RefusesForLack μ ν := by
  intro n memory memory' e hrefused
  obtain ⟨granted, hgranted⟩ := h n memory
  rw [hgranted] at hrefused
  cases hrefused

omit [MemoryPolicy μ ν] in
/-- What a request keeps of the tiles goes on being so. -/
theorem Makes.and_tiles {q : Terms} {config : Config} {I : WriterState μ (Watched μ ν) → Prop}
    {m : WriterM μ (Watched μ ν) Unit} {P : Nat → List TargetCall → Prop}
    {J : TileCache → Prop} (h : Makes q config I m P) (hkeeps : Writer.KeepsTiles J m) :
    Makes q config (fun s => I s ∧ J s.tiles) m P := by
  intro w drawn htold hw
  have hmakes := h w drawn htold hw.1
  have hkept := hkeeps w hw.2
  cases hrun : m w with
  | ok a w' =>
    rw [hrun] at hkept
    obtain ⟨hw', hmore⟩ := hmakes.ok hrun
    exact .of_ok hrun ⟨⟨hw', hkept⟩, hmore⟩
  | error e w' =>
    rw [hrun] at hkept
    exact .of_error hrun ((hmakes.error hrun).imp_right fun ⟨hw', hmore⟩ => ⟨⟨hw', hkept⟩, hmore⟩)

namespace Session

variable {S : Session} {w w' : Writer μ (Watched μ ν)} {c : BitmapCopy}

/-- Whatever was done in a session, there are no more bitmaps than are counted. -/
theorem Reached.counted (h : S.Reached w) : w.state.tiles.Counted := by
  have hlasting := TileCache.lasting_counted
  induction h with
  | opened memory hstore => exact TileCache.counted_empty _ _ _
  | @served w intent _ _ ih =>
    have hkept := Writer.KeepsTiles.perform hlasting intent w ih
    rw [Intent.serve]
    cases hrun : intent.perform w <;>
    · rw [hrun] at hkept
      exact hkept
  | flushed _ hflush ih => exact (Writer.KeepsTiles.flush hlasting).of_ok ih hflush
  | restarted _ hbegin ih => exact (Writer.KeepsTiles.beginPage hlasting).of_ok ih hbegin
  | turned _ hend hbegin ih =>
    have hended := (Writer.KeepsTiles.endPage hlasting).of_ok ih hend
    exact (Writer.KeepsTiles.beginPage hlasting).of_ok hended hbegin

/-- A bitmap that has all its rows is copied where memory is granted. -/
theorem copyBitmap_ok (hS : S.Sound) (hgrants : MemoryPolicy.Grants μ ν) (hc : S.AdmitsCopy c)
    (hplain : c.paint.Plain) (hclip : c.clip = none)
    (hcovers : c.bitmap.Covers c.rect (c.paint.depth S.config.depth)) {clip : Option ClipPath}
    {drawn : Nat → List TargetCall} (hw : w.InSession S clip drawn)
    (hcounted : w.state.tiles.Counted) : ∃ w', Writer.copyBitmap c w = .ok () w' := by
  have hnone : c.clip.isSome = true → clip = c.clip.bind fun k => S.clips k.id := by simp [hclip]
  rw [copyBitmap_eq c hw.told.enabled hw.told.config_eq]
  refine Granted.forM (I := fun s => S.Current clip w.state.imager s ∧ s.tiles.Counted)
    (fun p hp => (makes_copyBand hS hw.ready.lop hc hnone hp).and_tiles
      (Writer.KeepsTiles.withRecovery TileCache.lasting_counted
        (TileCache.lasting_counted.stable.copyBand p.1 (c.restrict p.2))))
    (fun p hp => .withRecovery fun s calls hs hsynced => ?_) w drawn hw.told
    ⟨⟨hw.ready, rfl⟩, hcounted⟩
  have hconfig := hs.1.1.config_eq
  obtain ⟨hin, hwidth⟩ := within_of_mem_partsOf hS hp
  refine hsynced.copyBand_ok hgrants.watched ?_ hplain fun d hd => ?_
  · rw [hconfig]
    exact (hc.reaches.of_mem hS hp).1
  · refine hsynced.sendCopy_ok ?_ ?_ hs.2 ?_ hd
    · rw [hconfig]
      exact hc.fits hS hnone hp
    · rw [hconfig]
      exact hc.room
    · rw [hconfig]
      exact hcovers.drop hin hwidth

end Session

/-- Wherever a session has come to, a bitmap that has all its rows is copied if there is memory without
a limit. Whenever it was copied, what replay of the bands calls beyond what it called before copies the
pixels of the bitmap that are on the page, each of them once, as they are. -/
theorem copied_bitmap_arrives {config : Config} {q : Terms} (hcolors : q.exactColors)
    (htiles : q.exactTiles) (hended : ∀ band, ¬ q.ended band) (hvalid : config.validate = .ok ())
    (hheight : config.height < 2147483648) (hheap : config.tileBytes < 4294967296)
    (hlack : MemoryPolicy.RefusesForLack μ ν) {w : Writer μ (Watched μ ν)}
    (hw : (Session.forgiving config q).Reached w) (henabled : w.disabled = false) {intent : Intent}
    {c : BitmapCopy} (hcopy : intent.copy? = some c)
    (hadmits : (Session.forgiving config q).Admits intent)
    (hcovers : c.bitmap.Covers c.rect (c.paint.depth config.depth)) :
    (MemoryPolicy.Grants μ ν → ∃ w', intent.perform w = .ok () w') ∧
    ∀ w', intent.perform w = .ok () w' →
      (∀ store ∈ w.stores ++ w'.stores, store.commandLength < 9223372036854775808) →
      ∃ calls : Nat → List TargetCall,
        (∀ band < config.nbands, ∃ before after, w.replayed band = .ok before ∧
          w'.replayed band = .ok after ∧ drawing after = drawing before ++ calls band) ∧
        c.Arrives config (fun x y => c.rect.HasPixel x y ∧ config.pageRect.HasPixel x y)
          ((List.range config.nbands).flatMap calls) := by
  obtain ⟨hplain, hclip⟩ := Intent.plain_of_copy? hcopy
  have hc := hadmits.copy hcopy
  have hroom : config.payloadRoom * 8 < 2147483648 := hc.room
  have hS := Session.forgiving_sequel (q := q) hvalid hheight (by omega) hended
  obtain ⟨clip, drawn, hsession⟩ := hw.inSession hS hlack henabled
  rw [Intent.perform_of_copy? hcopy]
  refine ⟨fun hgrants => Session.copyBitmap_ok hS.toSound hgrants hc hplain hclip hcovers hsession
    hw.counted, fun w' hrun hlen => ?_⟩
  obtain ⟨clip', calls, hcalls, hw'⟩ :=
    (Session.serves_copyBitmap hS.toSound hc hclip clip w drawn hsession).ok hrun
  have harrives := fun band (hband : band < config.nbands) =>
    (hcalls band).arrives hS.toSound hc hplain hclip hcolors htiles hheap hcovers hband
  refine ⟨calls, fun band hband => ?_,
    hS.toSound.additive_bands (BitmapCopy.Arrives.additive c config) harrives⟩
  obtain ⟨before, hbefore, hdrawn⟩ := hsession.replayed hS.toSound
    (fun store hstore => hlen store (List.mem_append_left _ hstore)) hband
  obtain ⟨after, hafter, hdrawn'⟩ := hw'.replayed hS.toSound
    (fun store hstore => hlen store (List.mem_append_right _ hstore)) hband
  obtain ⟨parts, -, hparts⟩ := harrives band hband
  exact ⟨before, after, hbefore, hafter, by
    rw [hdrawn', hdrawn, TargetCall.drawing_of_copied hparts]⟩

def shades : Bitmap := { data := #[0x1b, 0xe4, 0xff, 0x00], raster := 2 }

def shadesAt (rect : Rect) : Intent := .copyAlpha shades (some 7) rect 5 2

/-- A small page that has the shades in its first band. -/
def shadedPage : Writer MemoryMedium (Watched MemoryMedium Unlimited) :=
  (Intent.serveAll [shadesAt ⟨0, 0, 8, 2⟩] (.onEmptyPage smallCache { commands := {}, index := {} } Unlimited.mk)).2

/-- In the second band the shades are copied from the cache. -/
theorem shades_arrive :
    shadedPage.state.tiles.used = 1 ∧
    ∃ w', (shadesAt ⟨4, 16, 12, 18⟩).perform shadedPage = .ok () w' ∧ w'.state.tiles.used = 1 ∧
      ∃ calls : Nat → List TargetCall,
        (∀ band < smallCache.nbands, ∃ before after, shadedPage.replayed band = .ok before ∧
          w'.replayed band = .ok after ∧ drawing after = drawing before ++ calls band) ∧
        BitmapCopy.Arrives ⟨shades, ⟨4, 16, 12, 18⟩, .coverage 5 2, some 7, none, false⟩ smallCache
          (fun x y => Rect.HasPixel ⟨4, 16, 12, 18⟩ x y ∧ smallCache.pageRect.HasPixel x y)
          ((List.range smallCache.nbands).flatMap calls) := by
  let named : BitmapId → TileSize → Bytes → Prop := fun _ _ bits => bits = shades.data
  let S := Session.forgiving smallCache (smallPixels.terms True True named)
  have hadmits : ∀ band rect, S.partsOf rect = [(band, rect)] →
      rect.intersect smallCache.pageRect = some rect → rect.OnPage smallPixels.terms →
      ({ bitmap := shades, rect, paint := .coverage 5 2 : BitmapCopy }).cachedRows smallCache =
        .ok shades.data → S.Admits (shadesAt rect) := by
    intro band rect hparts hvisible hrect hcached _
    refine {
      reaches := fun r hr => ?_
      room := by decide
      paint := ⟨fun _ => .inr (by decide), by decide⟩
      plain := fun _ _ _ _ h => by cases h
      named := fun part hpart id hid rows hrows => ?_
      clip := fun _ h => by cases h }
    · cases hvisible.symm.trans hr
      exact ⟨hrect.x, hrect.y⟩
    · rw [hparts, List.mem_singleton] at hpart
      subst hpart
      have hwhole : ({ bitmap := shades, rect, paint := .coverage 5 2, name := some 7 } :
          BitmapCopy).restrict rect =
          { bitmap := shades, rect, paint := .coverage 5 2, name := some 7 } := by
        simp [BitmapCopy.restrict, Bitmap.drop, shades]
      rw [hwhole] at hrows
      cases hcached.symm.trans hrows
      exact ⟨rfl, fun _ bits hbits => hbits⟩
  have hfirst : S.Admits (shadesAt ⟨0, 0, 8, 2⟩) := by
    refine hadmits 0 _ (by decide +kernel) rfl ?_ rfl
    constructor <;> exact ⟨by decide, by decide, by decide, by decide⟩
  have hsecond : S.Admits (shadesAt ⟨4, 16, 12, 18⟩) := by
    refine hadmits 1 _ (by decide +kernel) rfl ?_ rfl
    constructor <;> exact ⟨by decide, by decide, by decide, by decide⟩
  have hopened : S.Reached (Writer.onEmptyPage smallCache
      ({ commands := {}, index := {} } : BandStore MemoryMedium) Unlimited.mk) :=
    .opened _ ⟨MemoryMedium.sound_empty, MemoryMedium.sound_empty, rfl, rfl⟩
  have hreached : S.Reached shadedPage :=
    hopened.serveAll fun i hi => List.mem_singleton.mp hi ▸ hfirst
  obtain ⟨hgranted, harrives⟩ := copied_bitmap_arrives trivial trivial (fun _ h => h) rfl
    (by decide) (by decide) MemoryPolicy.grants_unlimited.refusesForLack hreached (by decide +kernel)
    (show (shadesAt ⟨4, 16, 12, 18⟩).copy? = some _ from rfl) hsecond (show _ ≤ _ by decide)
  obtain ⟨w', hrun⟩ := hgranted MemoryPolicy.grants_unlimited
  have hserve : ((shadesAt ⟨4, 16, 12, 18⟩).serve shadedPage).2 = w' := by
    rw [Intent.serve, hrun]
  have hused : w'.state.tiles.used = 1 := hserve ▸ (by decide +kernel)
  exact ⟨by decide +kernel, w', hrun, hused, harrives w' hrun (hserve ▸ by decide +kernel)⟩

/-- A bitmap in a color of more bits than those of a small page have. -/
def deepCopy : Intent := .copyMono firstRow none ⟨0, 0, 8, 2⟩ ⟨0, 0x105⟩

/-- A small page whose reader's buffer holds more bits than 31 bits count. -/
def wideReader : Config := { smallCache with readerSize := 0x40000000, bufferSize := 0x40000080 }

/-- The deep color arrives cut off. With the wide buffer pieces would be of negative width, and nothing
is copied at all. -/
theorem deep_copy_arrives_shallow :
    (deepCopy.serve (Writer.onEmptyPage smallCache
      ({ commands := {}, index := {} } : BandStore MemoryMedium) Unlimited.mk)).1 = .ok () ∧
    (¬ ∃ calls : Nat → List TargetCall,
      (∀ band < smallCache.nbands, ∃ before after,
        (Writer.onEmptyPage smallCache ({ commands := {}, index := {} } : BandStore MemoryMedium)
          Unlimited.mk).replayed band = .ok before ∧
        (deepCopy.serve (Writer.onEmptyPage smallCache
          ({ commands := {}, index := {} } : BandStore MemoryMedium) Unlimited.mk)).2.replayed band =
            .ok after ∧
        drawing after = drawing before ++ calls band) ∧
      BitmapCopy.Arrives ⟨firstRow, ⟨0, 0, 8, 2⟩, .mono ⟨0, 0x105⟩, none, none, false⟩ smallCache
        (fun x y => Rect.HasPixel ⟨0, 0, 8, 2⟩ x y ∧ smallCache.pageRect.HasPixel x y)
        ((List.range smallCache.nbands).flatMap calls)) ∧
    wideReader.validate = .ok () ∧
    ((Intent.copyMono firstRow none ⟨0, 0, 8, 2⟩ ⟨0, 1⟩).serve (Writer.onEmptyPage wideReader
      ({ commands := {}, index := {} } : BandStore MemoryMedium) Unlimited.mk)).1 ≠ .ok () := by
  refine ⟨by decide +kernel, ?_, rfl, by decide +kernel⟩
  rintro ⟨calls, hbands, parts, -, hparts⟩
  obtain ⟨before, after, hbefore, hafter, hdrawing⟩ := hbands 0 (by decide)
  have hnothing : ((Writer.onEmptyPage smallCache
      ({ commands := {}, index := {} } : BandStore MemoryMedium) Unlimited.mk).replayed 0).map
        (List.map TargetCall.copied?) = .ok [] := by
    decide +kernel
  have hshallow : ((deepCopy.serve (Writer.onEmptyPage smallCache
      ({ commands := {}, index := {} } : BandStore MemoryMedium) Unlimited.mk)).2.replayed 0).map
        (fun after => (drawing after).map TargetCall.copied?) =
      .ok [some (.mono ⟨0, 5⟩, firstRow, ⟨0, 0, 8, 2⟩)] := by
    decide +kernel
  rw [hbefore] at hnothing
  rw [hafter] at hshallow
  have hempty : before = [] := List.map_eq_nil_iff.mp (Except.ok.inj hnothing)
  have hcopied : (calls 0).map TargetCall.copied? =
      [some (.mono ⟨0, 5⟩, firstRow, ⟨0, 0, 8, 2⟩)] := by
    have hcalls : drawing after = calls 0 := by rw [hdrawing, hempty]; rfl
    exact hcalls ▸ Except.ok.inj hshallow
  have hmem : some (CopyPaint.mono ⟨0, 5⟩, firstRow, (⟨0, 0, 8, 2⟩ : Rect)) ∈
      ((List.range smallCache.nbands).flatMap calls).map TargetCall.copied? := by
    rw [List.map_flatMap]
    exact List.mem_flatMap.mpr ⟨0, by decide, hcopied ▸ List.mem_singleton_self _⟩
  rw [hparts] at hmem
  obtain ⟨p, -, hp⟩ := List.mem_map.mp hmem
  cases hp

end BandedPage
