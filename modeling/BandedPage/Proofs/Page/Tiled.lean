import Mathlib
import BandedPage.Proofs.Page.Copied
import BandedPage.Proofs.Target.Painting
import BandedPage.Proofs.Tile.Pattern

/-!
# Tiled rectangles are painted pixel for pixel

A band fills its part of a rectangle with the tile that the cache has, or copies pieces of the tile
there. Drawn on a raster, both give every pixel of the part the color that the tile has for it, once.
-/

namespace BandedPage

/-! ### Calls that paint on a raster -/

namespace Raster

variable {r r' page : Raster} {box : Rect} {calls : List TargetCall}

/-- The rasters may only differ in the colors of their pixels. -/
theorem SamePage.placed (h : r.SamePage r') (hr : r.Placed) : r'.Placed := by
  constructor
  · rw [h.clipBox]
    exact hr.x
  · rw [h.clipBox]
    exact hr.y

/-- A call leaves the size of the page and its area alone. -/
theorem samePage_perform (hr : r.Placed) {call : TargetCall}
    (h : (call.perform : DrawM Raster Unit) r = .ok () r') : r.SamePage r' := by
  obtain ⟨answer, dots, -, hdraws⟩ := draws_perform hr call
  rw [hdraws r (.refl r)] at h
  cases answer with
  | ok u =>
    cases h
    exact samePage_putAll r dots
  | error e => cases h

def performAll : List TargetCall → DrawM Raster Unit
  | [] => pure ()
  | call :: calls => call.perform >>= fun _ => performAll calls

@[simp] theorem performAll_append (calls more : List TargetCall) :
    performAll (calls ++ more) = performAll calls >>= fun _ => performAll more := by
  induction calls with
  | nil => rw [List.nil_append, performAll, pure_bind]
  | cons call calls ih => rw [List.cons_append, performAll, performAll, bind_assoc, ih]

/-- No call changes the area, so a raster accepts what can be drawn on it. -/
theorem accepts_iff (hr : r.Placed) :
    TargetCall.Accepts r.clipBox calls r r' ↔ performAll calls r = .ok () r' := by
  induction calls generalizing r with
  | nil =>
    show r' = r ∧ r.clipBox = r.clipBox ↔ EStateM.Result.ok () r = .ok () r'
    rw [and_iff_left rfl, EStateM.Result.ok.injEq, and_iff_right rfl, eq_comm]
  | cons call calls ih =>
    rw [performAll, bind_eq_ok_iff]
    refine ⟨fun ⟨_, r₁, hcall, h⟩ => ⟨(), r₁, hcall, ?_⟩,
      fun ⟨_, r₁, hcall, h⟩ => ⟨rfl, r₁, hcall, ?_⟩⟩
    all_goals have hsame := samePage_perform hr hcall
    · exact (ih (hsame.placed hr)).mp (hsame.clipBox ▸ h)
    · exact hsame.clipBox ▸ (ih (hsame.placed hr)).mpr h

/-- And so do calls one after another. -/
theorem samePage_performAll (hr : r.Placed) (h : performAll calls r = .ok () r') : r.SamePage r' := by
  induction calls generalizing r with
  | nil =>
    cases h
    exact .refl _
  | cons call calls ih =>
    obtain ⟨_, r₁, hcall, h⟩ := bind_eq_ok_iff.mp h
    have hsame := samePage_perform hr hcall
    exact hsame.trans (ih (hsame.placed hr) h)

/-- Settings mean nothing to a raster. -/
@[simp] theorem performAll_drawing (calls : List TargetCall) :
    performAll (drawing calls) = performAll calls := by
  induction calls with
  | nil => rfl
  | cons call calls ih =>
    cases hsetting : call.isSetting with
    | false =>
      have hkept : drawing (call :: calls) = call :: drawing calls :=
        List.filter_cons_of_pos (by simp [hsetting])
      rw [hkept, performAll, performAll, ih]
    | true =>
      have hleft : drawing (call :: calls) = drawing calls :=
        List.filter_cons_of_neg (by simp [hsetting])
      have hcall : (call.perform : DrawM Raster Unit) = pure () := by
        cases call with
        | putParams | installHalftone | installTransfer => rfl
        | _ => cases hsetting
      rw [hleft, ih, performAll, hcall, pure_bind]

/-- Calls after which dots are painted are drawn as the calls before them are, with the dots on top. -/
theorem performAll_eq_ok_iff (hpage : page.Placed) {before after : List TargetCall}
    (hdrawing : drawing after = drawing before ++ drawing calls) {dots : List Dot}
    (hdots : ∀ r, page.SamePage r → TargetCall.Accepts page.clipBox calls r (r.putAll dots))
    {r r' : Raster} (hr : page.SamePage r) : performAll after r = .ok () r' ↔
      ∃ r₁, performAll before r = .ok () r₁ ∧ r' = r₁.putAll dots := by
  have hplaced := hr.placed hpage
  have hlast : ∀ r₁, performAll before r = .ok () r₁ →
      performAll calls r₁ = .ok () (r₁.putAll dots) := by
    intro r₁ hbefore
    have hsame := samePage_performAll hplaced hbefore
    have haccepts := hdots r₁ (hr.trans hsame)
    rw [← (hr.trans hsame).clipBox] at haccepts
    exact (accepts_iff (hsame.placed hplaced)).mp haccepts
  rw [← performAll_drawing after, hdrawing, performAll_append, performAll_drawing,
    performAll_drawing, bind_eq_ok_iff]
  constructor
  · rintro ⟨_, r₁, hbefore, hcalls⟩
    rw [hlast r₁ hbefore] at hcalls
    cases hcalls
    exact ⟨r₁, hbefore, rfl⟩
  · rintro ⟨r₁, hbefore, rfl⟩
    exact ⟨(), r₁, hbefore, hlast r₁ hbefore⟩

end Raster

/-- On a raster like this one the calls are accepted. They give the pixels of an area their colors, each
of them once. -/
def TargetCall.PaintOnce (page : Raster) (colorAt : Int → Int → Color) (area : Int → Int → Prop)
    (calls : List TargetCall) : Prop :=
  ∃ dots, Raster.PaintedOnce dots colorAt area ∧
    ∀ r, page.SamePage r → TargetCall.Accepts page.clipBox calls r (r.putAll dots)

namespace TargetCall.PaintOnce

variable {page : Raster} {colorAt colorAt' : Int → Int → Color} {area area' : Int → Int → Prop}
variable {calls more : List TargetCall} {call : TargetCall} {rect : Rect}

theorem nil (harea : ∀ x y, ¬ area x y) : PaintOnce page colorAt area [] :=
  ⟨[], .nil harea, fun _ h => ⟨rfl, h.clipBox⟩⟩

theorem congr (h : PaintOnce page colorAt area calls) (harea : ∀ x y, area x y ↔ area' x y) :
    PaintOnce page colorAt area' calls := by
  obtain ⟨dots, hdots, haccepts⟩ := h
  exact ⟨dots, hdots.congr harea fun _ _ _ => rfl, haccepts⟩

theorem congr_color (h : PaintOnce page colorAt area calls)
    (hcolor : ∀ x y, area x y → colorAt x y = colorAt' x y) : PaintOnce page colorAt' area calls := by
  obtain ⟨dots, hdots, haccepts⟩ := h
  exact ⟨dots, hdots.congr (fun _ _ => .rfl) hcolor, haccepts⟩

theorem append (h : PaintOnce page colorAt area calls) (h' : PaintOnce page colorAt area' more)
    (hapart : ∀ x y, area x y → ¬ area' x y) :
    PaintOnce page colorAt (fun x y => area x y ∨ area' x y) (calls ++ more) := by
  obtain ⟨dots, hdots, haccepts⟩ := h
  obtain ⟨dots', hdots', haccepts'⟩ := h'
  refine ⟨dots ++ dots', hdots.append hdots' hapart, fun r hr => ?_⟩
  rw [Raster.putAll_append]
  exact accepts_append.mpr
    ⟨_, haccepts r hr, haccepts' _ (hr.trans (Raster.samePage_putAll r dots))⟩

theorem additive (page : Raster) (colorAt : Int → Int → Color) :
    Additive (PaintOnce page colorAt) :=
  ⟨nil, congr, append⟩

/-- A call that paints a rectangle that lies on the page and in the area. -/
theorem of_paint (hpage : page.Placed)
    (hin : ∀ x y, rect.HasPixel x y → page.pageRect.HasPixel x y ∧ page.clipBox.HasPixel x y)
    (hcall : ∀ r, page.SamePage r →
      (call.perform : DrawM Raster Unit) r = .ok () (r.paint rect colorAt)) :
    PaintOnce page colorAt rect.HasPixel [call] := by
  obtain ⟨dots, hdots, hpaint⟩ := Raster.exists_paintedOnce hpage rect colorAt
  refine ⟨dots, hdots.congr (fun x y => and_iff_left_of_imp (hin x y)) fun _ _ _ => rfl,
    fun r hr => ⟨hr.clipBox, r.putAll dots, ?_, rfl, ?_⟩⟩
  · rw [hcall r hr, hpaint r hr]
  · exact (Raster.samePage_putAll r dots).clipBox.trans hr.clipBox

end TargetCall.PaintOnce

/-- The color that a bitmap's value is painted in, where the bitmap alone tells. -/
def CopyPaint.colorOf? : CopyPaint → Option (Color → Color)
  | .mono colors => some fun v => colors.ofBit (v != 0)
  | .deep => some id
  | _ => none

theorem CopyPaint.plain_of_colorOf? {paint : CopyPaint} {f : Color → Color}
    (h : paint.colorOf? = some f) : paint.Plain := by
  rintro tile colors phase rfl
  cases h

/-- On a raster a copied bitmap paints its rectangle. -/
theorem TargetCall.perform_copied {call : TargetCall} {paint : CopyPaint} {bits : Bitmap} {rect : Rect}
    {f : Color → Color} {r : Raster} (hcall : call.copied? = some (paint, bits, rect))
    (hpaint : paint.colorOf? = some f) (hcovers : bits.Covers rect (paint.depth r.depth)) :
    (call.perform : DrawM Raster Unit) r =
      .ok () (r.paint rect fun x y => f (Raster.sample bits rect (paint.depth r.depth) x y)) := by
  have hchecked := hcovers.checkRows
  cases call with
  | copyMono bits rect colors =>
    cases hcall
    cases hpaint
    show Raster.copyMono bits rect colors r = _
    rw [Raster.copyMono, show Raster.checkRows bits rect 1 = .ok () from hchecked]
    rfl
  | copyColor bits rect =>
    cases hcall
    cases hpaint
    show Raster.copyColor bits rect r = _
    rw [Raster.copyColor, get_bind_run, show Raster.checkRows bits rect r.depth = .ok () from hchecked]
    rfl
  | copyAlpha bits rect color depth =>
    cases hcall
    cases hpaint
  | _ => cases hcall

namespace BitmapCopy

variable {c : BitmapCopy} {config : Config} {area : Int → Int → Prop} {calls : List TargetCall}
variable {page : Raster} {colorAt : Int → Int → Color}

/-- A copy that arrives on a raster is painted there. -/
theorem Arrives.paintOnce (h : c.Arrives config area calls) {f : Color → Color}
    (hpaint : c.paint.colorOf? = some f) (hplaced : page.Placed) (hdepth : page.depth = config.depth)
    (hin : ∀ x y, area x y → page.pageRect.HasPixel x y ∧ page.clipBox.HasPixel x y)
    (hcolor : ∀ x y, area x y →
      f (Raster.sample c.bitmap c.rect (c.paint.depth config.depth) x y) = colorAt x y) :
    TargetCall.PaintOnce page colorAt area calls := by
  obtain ⟨parts, hparts, hcalls⟩ := h
  have hturn : InTurn (fun p calls => ∃ call : TargetCall, calls = [call] ∧
      call.copied? = some (c.paint, p)) parts calls := by
    clear hparts
    induction parts generalizing calls with
    | nil =>
      cases List.map_eq_nil_iff.mp hcalls
      exact .nil
    | cons p parts ih =>
      obtain ⟨call, rest, rfl, hcall, hrest⟩ := List.map_eq_cons_iff.mp hcalls
      exact InTurn.cons ⟨call, rfl, hcall⟩ (ih hrest)
  refine ((TargetCall.PaintOnce.additive page colorAt).inTurn (fun p x y => p.2.HasPixel x y) hturn
    ?_ (hparts.apart.imp fun hapart x y hp hp' => hapart x y ⟨hp, hp'⟩)).congr fun x y => ?_
  · rintro p hp _ ⟨call, rfl, hcall⟩
    have hpart := fun x y (hpixel : p.2.HasPixel x y) => hparts.hasPixel hp hpixel
    have hpainted : TargetCall.PaintOnce page
        (fun x y => f (Raster.sample p.1 p.2 (c.paint.depth config.depth) x y)) p.2.HasPixel [call] := by
      refine .of_paint hplaced (fun x y hpixel => hin x y (hpart x y hpixel)) fun r hr => ?_
      rw [← hdepth, ← hr.depth]
      refine TargetCall.perform_copied hcall hpaint ?_
      rw [hr.depth, hdepth]
      exact hparts.complete p hp
    refine hpainted.congr_color fun x y hpixel => ?_
    rw [hparts.sample p hp x y hpixel]
    exact hcolor x y (hpart x y hpixel)
  · rw [← hparts.covered]
    simp only [Rect.Covered, List.mem_map, exists_exists_and_eq_and]

end BitmapCopy

/-! ### Parts of a tiled rectangle -/

def Raster.forBand (config : Config) (band : Nat) : Raster :=
  (Raster.ofSize config.width.toNat config.height.toNat config.depth).withBox (config.bandRect band)

/-- The tile is the only one that goes by its name. -/
def Tile.OwnsName (q : Terms) (tile : Tile) : Prop :=
  ∀ size bits, q.named tile.id size bits → tile.ShownBy size bits

/-- A tile that is shown for the tile's name paints in the tile's colors. -/
theorem Terms.ShowsTile.tileColor_eq {q : Terms} {config : Config} {tile shown : Tile}
    (h : q.ShowsTile config tile.id shown) (htiles : q.exactTiles)
    (hheap : config.tileBytes < 4294967296) (htile : tile.Single) (hname : tile.OwnsName q)
    {colors colors' : ColorPair} (hcolors : tile.size.depth = 1 → colors' = colors) (phase : Phase)
    (x y : Int) : Raster.tileColor shown colors' phase x y = Raster.tileColor tile colors phase x y := by
  obtain ⟨hpixel, hdepth⟩ := (hname _ _ (h htiles hheap)).pixel_eq htile shown.id x y phase
  rw [Raster.tileColor, Raster.tileColor, hpixel, hdepth]
  split
  · next hone => rw [hcolors hone]
  · rfl

namespace Session

variable {S : Session} {tile : Tile} {rect part : Rect} {colors : ColorPair} {phase : Phase}
variable {band : Nat} {calls : List TargetCall}

theorem placed_forBand (hS : S.Sound) (hband : band < S.config.nbands) :
    (Raster.forBand S.config band).Placed := by
  have hrect := hS.valid.bandRect_eq hS.height hband
  have hb := hS.valid.bandHeight
  refine ⟨?_, ?_⟩
  · show 0 ≤ (S.config.bandRect band).x1
    rw [hrect]
  · show 0 ≤ (S.config.bandRect band).y1
    rw [hrect]
    exact Int.mul_nonneg (Int.natCast_nonneg _) hb.le

/-- The pixels of a band are on the page. -/
theorem hasPixel_forBand (hS : S.Sound) (hwidth : S.config.width < 2147483648)
    (hband : band < S.config.nbands) {x y : Int} (h : (S.config.bandRect band).HasPixel x y) :
    (Raster.forBand S.config band).pageRect.HasPixel x y ∧
      (Raster.forBand S.config band).clipBox.HasPixel x y := by
  have hw := hS.valid.width
  have hh := hS.valid.height
  have hheight := hS.height
  have hpage : (Raster.forBand S.config band).pageRect = S.config.pageRect := by
    show Raster.rectOfSize S.config.width.toNat S.config.height.toNat = _
    rw [Raster.rectOfSize_eq (by omega) (by omega), hS.valid.pageRect_eq,
      Int.toNat_of_nonneg hw.le, Int.toNat_of_nonneg hh.le]
  rw [hpage]
  exact ⟨((hS.valid.bandRect_hasPixel hheight hband).mp h).1, h⟩

/-- A band that has the tile is painted with it. -/
theorem paintOnce_tilesRect
    (h : S.terms.TilesRect S.config .default band part tile colors phase calls) (hS : S.Sound)
    (hwidth : S.config.width < 2147483648) (hband : band < S.config.nbands)
    (hcolors : S.terms.exactColors) (htiles : S.terms.exactTiles)
    (hheap : S.config.tileBytes < 4294967296) (htile : tile.Single)
    (hname : tile.OwnsName S.terms) :
    TargetCall.PaintOnce (Raster.forBand S.config band) (Raster.tileColor tile colors phase)
      (fun x y => part.HasPixel x y ∧ (S.config.bandRect band).HasPixel x y) calls := by
  obtain ⟨b, shown, -, henabled, hphase, hshows, htileColors, rfl⟩ := h
  cases hpart : part.intersect (S.config.bandRect band) with
  | none => exact .nil fun x y => Rect.intersect_eq_none hpart x y
  | some visible =>
    have hpixel := Rect.hasPixel_of_intersect hpart
    have hcall : tileCall b shown visible = .stripTileRectangle shown visible b.tileColors phase := by
      rw [tileCall, henabled, hphase]
      rfl
    rw [Option.toList_some, List.map_singleton, hcall]
    have hpainted : TargetCall.PaintOnce (Raster.forBand S.config band)
        (Raster.tileColor shown b.tileColors phase) visible.HasPixel
        [.stripTileRectangle shown visible b.tileColors phase] :=
      .of_paint (placed_forBand hS hband)
        (fun x y h => hasPixel_forBand hS hwidth hband ((hpixel x y).mp h).2) fun _ _ => rfl
    refine (hpainted.congr hpixel).congr_color fun x y _ => ?_
    exact hshows.tileColor_eq htiles hheap htile hname (htileColors hcolors) phase x y

theorem ofNat_bne_zero {v : Nat} (hv : v < 4294967296) : (UInt64.ofNat v != 0) = (v != 0) := by
  have hzero : UInt64.ofNat v = 0 ↔ v = 0 := by
    rw [← UInt64.toNat_inj, UInt64.toNat_ofNat', Nat.mod_eq_of_lt (hv.trans (by decide))]
    rfl
  rw [Bool.eq_iff_iff, bne_iff_ne, bne_iff_ne, ne_eq, ne_eq, hzero]

/-- How a piece of a tile paints its values. -/
theorem colorOf?_pieceOf (hdepth : tile.size.depth = 1 ∨ tile.size.depth = S.config.depth)
    (rows columns : Span) : ∃ f,
      (pieceOf tile colors phase rows columns).paint.colorOf? = some f ∧
      (pieceOf tile colors phase rows columns).paint.depth S.config.depth = tile.size.depth ∧
      ∀ x y, f (UInt64.ofNat (tile.pixel x y phase)) = Raster.tileColor tile colors phase x y := by
  by_cases hone : tile.size.depth = 1
  · have hpaint : (pieceOf tile colors phase rows columns).paint = .mono colors := if_pos hone
    rw [hpaint]
    refine ⟨_, rfl, hone.symm, fun x y => ?_⟩
    rw [Raster.tileColor, if_pos hone]
    exact congrArg colors.ofBit (ofNat_bne_zero (tile.pixel_lt x y phase))
  · have hpaint : (pieceOf tile colors phase rows columns).paint = .deep := if_neg hone
    rw [hpaint]
    refine ⟨_, rfl, (hdepth.resolve_left hone).symm, fun x y => ?_⟩
    rw [Raster.tileColor, if_neg hone]
    rfl

theorem mem_piecesOf {c : BitmapCopy} : c ∈ piecesOf tile part colors phase ↔
    ∃ rows ∈ Span.cut tile.size.yPeriod (-phase.y) part.y1 part.y2,
      ∃ columns ∈ Span.cut tile.size.xPeriod (-tile.size.xOffset phase rows.start) part.x1 part.x2,
        pieceOf tile colors phase rows columns = c := by
  simp only [piecesOf, List.mem_flatMap, List.mem_map]

/-- The pieces of a part have no pixel in common. -/
theorem pairwise_piecesOf (htile : tile.Single) (hpart : part.x1 ≤ part.x2 ∧ part.y1 ≤ part.y2) :
    (piecesOf tile part colors phase).Pairwise fun c c' => ∀ x y,
      c.rect.HasPixel x y → ¬ c'.rect.HasPixel x y := by
  rw [piecesOf, List.pairwise_flatMap]
  refine ⟨fun rows _ => ?_, ?_⟩
  · rw [List.pairwise_map]
    refine (Span.chain_cut htile.xPeriod_pos hpart.1).pairwise.imp fun happart x y h h' => ?_
    exact happart x ⟨h.1, h.2.1⟩ ⟨h'.1, h'.2.1⟩
  · refine (Span.chain_cut htile.yPeriod_pos hpart.2).pairwise.imp fun happart c hc c' hc' x y h h' => ?_
    obtain ⟨columns, -, rfl⟩ := List.mem_map.mp hc
    obtain ⟨columns', -, rfl⟩ := List.mem_map.mp hc'
    exact happart y h.2.2 h'.2.2

/-- Every pixel of a part is in one of its pieces. -/
theorem exists_piecesOf (colors : ColorPair) (phase : Phase) (htile : tile.Single)
    (hpart : part.x1 ≤ part.x2 ∧ part.y1 ≤ part.y2)
    {x y : Int} : (∃ c ∈ piecesOf tile part colors phase, c.rect.HasPixel x y) ↔ part.HasPixel x y := by
  have hrows : Span.Chain part.y1 part.y2 (Span.cut tile.size.yPeriod (-phase.y) part.y1 part.y2) :=
    Span.chain_cut htile.yPeriod_pos hpart.2
  have hcolumns : ∀ rows : Span, Span.Chain part.x1 part.x2 (Span.cut tile.size.xPeriod
      (-tile.size.xOffset phase rows.start) part.x1 part.x2) :=
    fun _ => Span.chain_cut htile.xPeriod_pos hpart.1
  constructor
  · rintro ⟨c, hc, hx, hx', hy, hy'⟩
    obtain ⟨rows, hr, columns, hcol, rfl⟩ := mem_piecesOf.mp hc
    obtain ⟨htop, -, hbottom⟩ := hrows.of_mem hr
    obtain ⟨hleft, -, hright⟩ := (hcolumns rows).of_mem hcol
    exact ⟨hleft.trans hx, hx'.trans_le hright, htop.trans hy, hy'.trans_le hbottom⟩
  · rintro ⟨hx, hx', hy, hy'⟩
    obtain ⟨rows, hr, hrow⟩ := hrows.exists_has hy hy'
    obtain ⟨columns, hcol, hcolumn⟩ := (hcolumns rows).exists_has hx hx'
    exact ⟨_, mem_piecesOf.mpr ⟨rows, hr, columns, hcol, rfl⟩, hcolumn.1, hcolumn.2, hrow⟩

/-- A band that has not got the tile is painted with its pieces. -/
theorem paintOnce_pieces
    (h : InTurn (fun c => S.Copies c band) (piecesOf tile part colors phase) calls) (hS : S.Sound)
    (ht : S.AdmitsTiles tile rect colors phase) (hpart : part.OnPage S.terms)
    (hwidth : S.config.width < 2147483648) (hband : band < S.config.nbands)
    (hcolors : S.terms.exactColors) (htiles : S.terms.exactTiles)
    (hheap : S.config.tileBytes < 4294967296) (htile : tile.Single)
    (hdepth : tile.size.depth = 1 ∨ tile.size.depth = S.config.depth) :
    TargetCall.PaintOnce (Raster.forBand S.config band) (Raster.tileColor tile colors phase)
      (fun x y => part.HasPixel x y ∧ (S.config.bandRect band).HasPixel x y) calls := by
  have hsides : part.x1 ≤ part.x2 ∧ part.y1 ≤ part.y2 := ⟨hpart.x.2.1.le, hpart.y.2.1.le⟩
  have hdepths : tile.size.depth ≤ 32 := by
    have hdevice : ∀ n ∈ Config.depths, n ≤ 32 := by decide
    have := hdevice _ hS.valid.depth
    omega
  refine ((TargetCall.PaintOnce.additive _ _).inTurn (fun c x y => c.rect.HasPixel x y ∧
    (S.config.bandRect band).HasPixel x y) h ?_ ?_).congr fun x y => ?_
  · intro c hc calls hcalls
    obtain ⟨rows, hrows, columns, hcolumns, rfl⟩ := mem_piecesOf.mp hc
    obtain ⟨htop, hheight, -, hbottom⟩ := Span.of_mem_cut htile.yPeriod_pos hrows
    obtain ⟨hleft, hlength, -, hright⟩ := Span.of_mem_cut htile.xPeriod_pos hcolumns
    obtain ⟨f, hf, hdeep, hcolor⟩ := colorOf?_pieceOf hdepth rows columns
    have hadmits := ht.piece hpart ⟨htop, hheight, hbottom⟩ ⟨hleft, hlength, hright⟩
    have harrives := hcalls.arrives hS hadmits (CopyPaint.plain_of_colorOf? hf) rfl hcolors htiles hheap
      (hdeep.symm ▸ htile.covers_bitmapAt hrows hcolumns) hband
    refine harrives.paintOnce hf (placed_forBand hS hband) rfl
      (fun x y hpixel => hasPixel_forBand hS hwidth hband hpixel.2) fun x y hpixel => ?_
    rw [hdeep, ← hcolor x y]
    exact congrArg f (htile.sample_bitmapAt hdepths hrows hcolumns hpixel.1)
  · exact (pairwise_piecesOf htile hsides).imp fun happart x y h h' => happart x y h.1 h'.1
  · rw [← exists_piecesOf colors phase htile hsides]
    constructor
    · rintro ⟨c, hc, hpixel, hb⟩
      exact ⟨⟨c, hc, hpixel⟩, hb⟩
    · rintro ⟨⟨c, hc, hpixel⟩, hb⟩
      exact ⟨c, hc, hpixel, hb⟩

/-- A pixel of a part lies in the band of the part. -/
theorem eq_of_mem_partsOf (hS : S.Sound) {p : Nat × Rect} (hp : p ∈ S.partsOf rect)
    (hband : band < S.config.nbands) {x y : Int} (h : p.2.HasPixel x y)
    (hin : (S.config.bandRect band).HasPixel x y) : p.1 = band := by
  rw [partsOf] at hp
  cases hvisible : rect.intersect S.config.pageRect with
  | none =>
    rw [hvisible] at hp
    cases hp
  | some r =>
    rw [hvisible] at hp
    obtain ⟨hlt, hpart⟩ := hS.valid.of_mem_bandParts hp
    have hown := ((Rect.hasPixel_of_intersect hpart x y).mp h).2
    rw [← ((hS.valid.bandRect_hasPixel hS.height hlt).mp hown).2,
      ← ((hS.valid.bandRect_hasPixel hS.height hband).mp hin).2]

/-- Each band is painted with the tile, wherever the cache refuses it or not. -/
theorem paintOnce_tilesUnder
    (h : InTurn (fun p => S.TilesUnder .default tile colors phase p band) (S.partsOf rect) calls)
    (hS : S.Sound) (ht : S.AdmitsTiles tile rect colors phase)
    (hwidth : S.config.width < 2147483648) (hband : band < S.config.nbands)
    (hcolors : S.terms.exactColors) (htiles : S.terms.exactTiles)
    (hheap : S.config.tileBytes < 4294967296) (htile : tile.Single) (hname : tile.OwnsName S.terms)
    (hdepth : tile.size.depth = 1 ∨ tile.size.depth = S.config.depth) :
    TargetCall.PaintOnce (Raster.forBand S.config band) (Raster.tileColor tile colors phase)
      (fun x y => rect.HasPixel x y ∧ (S.config.bandRect band).HasPixel x y) calls := by
  refine ((TargetCall.PaintOnce.additive _ _).inTurn (fun p x y => p.1 = band ∧ p.2.HasPixel x y ∧
    (S.config.bandRect band).HasPixel x y) h ?_ ?_).congr fun x y => ?_
  · rintro p hp calls (hcalls | hcalls)
    · rw [InBand] at hcalls
      by_cases heq : band = p.1
      · subst heq
        rw [if_pos rfl] at hcalls
        exact (paintOnce_tilesRect hcalls hS hwidth hband hcolors htiles hheap htile hname).congr
          fun x y => (and_iff_right rfl).symm
      · rw [if_neg heq] at hcalls
        rw [hcalls]
        exact .nil fun x y hpixel => heq hpixel.1.symm
    · have hpart := (ht.reaches.of_mem hS hp).2
      exact (paintOnce_pieces hcalls hS ht hpart hwidth hband hcolors htiles hheap htile hdepth).congr
        fun x y => (and_iff_right_of_imp fun h => eq_of_mem_partsOf hS hp hband h.1 h.2).symm
  · refine (S.pairwise_partsOf rect).imp fun hne x y hpixel hpixel' => ?_
    exact hne (hpixel.1.trans hpixel'.1.symm)
  · rw [← exists_mem_partsOf hS hband]
    constructor
    · rintro ⟨p, hp, heq, hpixel, -⟩
      exact ⟨p, hp, heq, hpixel⟩
    · rintro ⟨p, hp, rfl, hpixel⟩
      exact ⟨p, hp, rfl, hpixel, ((exists_mem_partsOf hS hband).mp ⟨p, hp, rfl, hpixel⟩).2⟩

end Session

variable {μ ν : Type} [Medium μ]

/-- What replay of a band draws on a raster for the later writer is what it draws for the earlier one,
with some dots on top. -/
def Writer.Redraws (w w' : Writer μ (Watched μ ν)) (config : Config) (band : Nat)
    (dots : List Raster.Dot) : Prop :=
  ∃ before after, w.replayed band = .ok before ∧ w'.replayed band = .ok after ∧
    ∀ r r', (Raster.forBand config band).SamePage r →
      (Raster.performAll after r = .ok () r' ↔
        ∃ r₁, Raster.performAll before r = .ok () r₁ ∧ r' = r₁.putAll dots)

/-- Between the writers an area was painted: together the dots of all bands give each of its pixels, and
no other one, its color once. -/
def Writer.PaintsOnce (w w' : Writer μ (Watched μ ν)) (config : Config)
    (colorAt : Int → Int → Color) (area : Int → Int → Prop) : Prop :=
  ∃ dots : Nat → List Raster.Dot,
    Raster.PaintedOnce ((List.range config.nbands).flatMap dots) colorAt area ∧
    ∀ band < config.nbands, (∀ d ∈ dots band, (config.bandRect band).HasPixel d.x d.y) ∧
      w.Redraws w' config band (dots band)

variable [LawfulMedium μ] [MemoryPolicy μ ν]

/-- Wherever a session has come to with the default logical operation, a rectangle that is filled with a
tile is painted in the tile's colors as far as it is on the page. -/
theorem tiled_rectangle_is_painted {config : Config} {q : Terms} (hcolors : q.exactColors)
    (htiles : q.exactTiles) (hended : ∀ band, ¬ q.ended band) (hvalid : config.validate = .ok ())
    (hwidth : config.width < 2147483648) (hheight : config.height < 2147483648)
    (hheap : config.tileBytes < 4294967296) (hlack : MemoryPolicy.RefusesForLack μ ν)
    {w w' : Writer μ (Watched μ ν)} (hw : (Session.forgiving config q).Reached w)
    (hlop : w.state.imager.logOp = .default) {tile : Tile} {rect : Rect} {colors : ColorPair}
    {phase : Phase} (htile : tile.Single) (hname : tile.OwnsName q)
    (hdepth : tile.size.depth = 1 ∨ tile.size.depth = config.depth)
    (hadmits : (Session.forgiving config q).AdmitsTiles tile rect colors phase)
    (hrun : Writer.tileRectangle tile rect colors phase w = .ok () w')
    (hlen : ∀ store ∈ w.stores ++ w'.stores, store.commandLength < 9223372036854775808) :
    w.PaintsOnce w' config (Raster.tileColor tile colors phase) fun x y =>
      rect.HasPixel x y ∧ config.pageRect.HasPixel x y := by
  have hroom : config.payloadRoom * 8 < 2147483648 := hadmits.room
  have hS := Session.forgiving_sequel (q := q) hvalid hheight (by omega) hended
  have henabled := (Writer.of_check_bind_eq_ok hrun).1
  obtain ⟨clip, drawn, hsession⟩ := hw.inSession hS hlack henabled
  have hcurrent : (Session.forgiving config q).Current clip w.state.imager w.state :=
    ⟨hsession.ready, rfl⟩
  have hmakes := Session.makes_tileRectangle hS.toSound hadmits (fun h => h.elim) w drawn hsession.told
    hcurrent
  obtain ⟨⟨hready, -⟩, calls, hcalls, htold⟩ := hmakes.ok hrun
  rw [hlop] at hcalls
  have hw' : w'.InSession _ clip _ := ⟨htold, hready⟩
  have hpaints := fun band (hband : band < config.nbands) => Session.paintOnce_tilesUnder (hcalls band)
    hS.toSound hadmits hwidth hband hcolors htiles hheap htile hname hdepth
  choose! dots hdots hdraws using hpaints
  have hadditive : Additive fun area l =>
      Raster.PaintedOnce l (Raster.tileColor tile colors phase) area :=
    ⟨.nil, fun h harea => h.congr harea fun _ _ _ => rfl, .append⟩
  refine ⟨dots, hS.toSound.additive_bands hadditive hdots, fun band hband => ?_⟩
  obtain ⟨before, hbefore, hdrawn⟩ := hsession.replayed hS.toSound
    (fun store hstore => hlen store (List.mem_append_left _ hstore)) hband
  obtain ⟨after, hafter, hdrawn'⟩ := hw'.replayed hS.toSound
    (fun store hstore => hlen store (List.mem_append_right _ hstore)) hband
  have hdrawing : drawing after = drawing before ++ drawing (calls band) := by rw [hdrawn', hdrawn]
  exact ⟨fun d hd => (((hdots band hband).mem d).mp hd).1.2, before, after, hbefore, hafter,
    fun r r' hr => Raster.performAll_eq_ok_iff (Session.placed_forBand hS.toSound hband) hdrawing
      (hdraws band hband) hr⟩

/-- Three rows of 32 pixels. The rows of tiles are shifted by two. -/
def shiftedTile : Tile where
  id := 6
  size := { repWidth := 32, repHeight := 3, repShift := 2, depth := 1 }
  data := #[0xa8, 0x50, 0x0f, 0x33, 0xf8, 0x01, 0x80, 0x00, 0x66, 0x0c, 0xff, 0x18]

/-- A small page whose cache has room for the tile in copies. -/
def roomyCache : Config := { smallCache with tileBytes := 512 }

def emptyPage (config : Config) : Writer MemoryMedium (Watched MemoryMedium Unlimited) :=
  .onEmptyPage config { commands := {}, index := {} } Unlimited.mk

/-- A rectangle of both bands is filled with the tile. -/
def tilePage (config : Config) :
    EStateM.Result Error (Writer MemoryMedium (Watched MemoryMedium Unlimited)) Unit :=
  Writer.tileRectangle shiftedTile ⟨-3, 14, 40, 18⟩ ⟨noColor, 5⟩ ⟨-7, 2⟩ (emptyPage config)

/-- The cache of the first page takes the tile, and that of the second does not. Both are painted with
it. -/
theorem shifted_tile_is_painted :
    (stateOf (tilePage roomyCache)).state.tiles.used = 1 ∧
    (stateOf (tilePage smallCache)).state.tiles.used = 0 ∧
    ∀ config ∈ [roomyCache, smallCache], ∃ w', tilePage config = .ok () w' ∧
      (emptyPage config).PaintsOnce w' config (Raster.tileColor shiftedTile ⟨noColor, 5⟩ ⟨-7, 2⟩)
        fun x y => Rect.HasPixel ⟨-3, 14, 40, 18⟩ x y ∧ config.pageRect.HasPixel x y := by
  let q : Terms := smallPixels.terms True True fun _ => shiftedTile.ShownBy
  have hsingle : shiftedTile.Single := ⟨⟨by decide, by decide⟩, rfl, rfl, by decide, by decide⟩
  refine ⟨by decide +kernel, by decide +kernel, fun config hconfig => ?_⟩
  have hruns : ∀ config ∈ [roomyCache, smallCache], (answerOf (tilePage config)).isOk = true ∧
      ∀ store ∈ (emptyPage config).stores ++ (stateOf (tilePage config)).stores,
        store.commandLength < 9223372036854775808 := by decide +kernel
  have hsmall : ∀ config ∈ [roomyCache, smallCache], config.validate = .ok () ∧
      config.width < 2147483648 ∧ config.height < 2147483648 ∧ config.tileBytes < 4294967296 := by
    decide
  have hadmits : (Session.forgiving config q).AdmitsTiles shiftedTile ⟨-3, 14, 40, 18⟩ ⟨noColor, 5⟩
      ⟨-7, 2⟩ := by
    rw [List.mem_pair] at hconfig
    rcases hconfig with rfl | rfl
    all_goals exact {
      reaches := fun r hr => by
        cases hr
        constructor <;> exact ⟨by decide, by decide, by decide, by decide⟩
      room := by decide
      sides := by decide
      tile := ⟨by constructor <;> decide, _, .inr rfl, rfl, rfl⟩
      colors := fun _ slot => by
        cases slot with
        | zero => exact .inl rfl
        | one => exact .inr (by decide)
      phase := ⟨rfl, rfl⟩ }
  obtain ⟨hok, hlen⟩ := hruns config hconfig
  obtain ⟨hvalid, hwidth, hheight, hheap⟩ := hsmall config hconfig
  have hrun := eq_ok_of_isOk hok
  exact ⟨_, hrun, tiled_rectangle_is_painted (q := q) trivial trivial (fun _ h => h) hvalid hwidth
    hheight hheap MemoryPolicy.grants_unlimited.refusesForLack
    (.opened _ ⟨MemoryMedium.sound_empty, MemoryMedium.sound_empty, rfl, rfl⟩) rfl hsingle
    (fun _ _ h => h) (.inl rfl) hadmits hrun hlen⟩

def tinyPage : Config := { smallCache with width := 8, height := 2, bandHeight := 2 }

/-- The page is filled with a tile all of whose pixels have this color. -/
def darkTiles (color : Color) : Intent :=
  .tileRectangle { id := 5, size := .single 8 2 1, data := #[0xff, 0xff] } ⟨0, 0, 8, 2⟩ ⟨0, color⟩ {}

/-- A page on which a color of nine bits was used. -/
def deepPage : Writer MemoryMedium (Watched MemoryMedium Unlimited) :=
  ((darkTiles 0x103).serve (emptyPage tinyPage)).2

/-- The next color is sent as a difference. Replay has the low bits of the deep color only, and comes to
no color: nothing is painted. -/
theorem deep_color_hides_tile :
    ((darkTiles 0x103).serve (emptyPage tinyPage)).1 = .ok () ∧
    deepPage.state.imager.logOp = .default ∧
    ∃ w', (darkTiles 0xff).perform deepPage = .ok () w' ∧
      ¬ deepPage.PaintsOnce w' tinyPage
        (Raster.tileColor { id := 5, size := .single 8 2 1, data := #[0xff, 0xff] } ⟨0, 0xff⟩ {})
        fun x y => Rect.HasPixel ⟨0, 0, 8, 2⟩ x y ∧ tinyPage.pageRect.HasPixel x y := by
  refine ⟨by decide +kernel, by decide +kernel, _, eq_ok_of_isOk (by decide +kernel), ?_⟩
  rintro ⟨dots, hdots, hbands⟩
  obtain ⟨hin, before, after, hbefore, hafter, hredraws⟩ := hbands 0 (by decide)
  have hfirst : (deepPage.replayed 0).map (fun before =>
      (stateOf (Raster.performAll before (Raster.forBand tinyPage 0))).data.size) = .ok 16 := by
    decide +kernel
  have hshown : ((stateOf ((darkTiles 0xff).perform deepPage)).replayed 0).map (fun after =>
      ((answerOf (Raster.performAll after (Raster.forBand tinyPage 0))).isOk,
        (stateOf (Raster.performAll after (Raster.forBand tinyPage 0))).pixel 0 0)) =
      .ok (true, 3) := by decide +kernel
  rw [hbefore] at hfirst
  rw [hafter] at hshown
  obtain ⟨hok, hpixel⟩ := Prod.mk.inj (Except.ok.inj hshown)
  obtain ⟨r, hr, heq⟩ := (hredraws _ _ (.refl _)).mp (eq_ok_of_isOk hok)
  have hplaced : (Raster.forBand tinyPage 0).Placed := ⟨by decide, by decide⟩
  have hsame := Raster.samePage_performAll hplaced hr
  have hsize : r.data.size = r.width * r.height * r.pixelSize := by
    have hbytes : (stateOf (Raster.performAll before (Raster.forBand tinyPage 0))).data.size = 16 :=
      Except.ok.inj hfirst
    rw [hr] at hbytes
    rw [hsame.width, hsame.height, Raster.pixelSize, hsame.depth]
    exact hbytes
  have hwithin : ∀ d ∈ dots 0, d.x < r.width ∧ d.y < r.height := by
    intro d hd
    obtain ⟨-, hx, -, hy⟩ := hin d hd
    rw [hsame.width, hsame.height]
    exact ⟨Int.ofNat_lt.mp hx, Int.ofNat_lt.mp hy⟩
  have hone : (List.range tinyPage.nbands).flatMap dots = dots 0 := List.append_nil _
  rw [hone] at hdots
  have hpainted := hdots.pixel_putAll hsize hwithin (x := 0) (y := 0) (by decide) (by decide)
  rw [← heq, hpixel, Raster.pixelSize, hsame.depth] at hpainted
  exact absurd hpainted (by decide)

end BandedPage
