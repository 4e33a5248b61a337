import Mathlib
import BandedPage.Proofs.Guarded
import BandedPage.Proofs.Replay.Steps
import BandedPage.Proofs.Target.Painting

/-!
# Drawing that looks before it reads

A bitmap is read and a page is written at places that are worked out from coordinates. A guarded
call does so one access after another, and stops with `Fault.outside` at a place that is not there.
On a page that has all its bytes no call stops so: rows are checked before a bitmap is read, and
nothing is painted off the page. A guarded call then does what the plain one does.
-/

namespace BandedPage

/-! ### Tiles -/

namespace Tile

/-- The tile has all its rows. -/
def Full (t : Tile) : Prop := t.size.dataSize ≤ t.data.size

def pixel? (t : Tile) (x y : Int) (phase : Phase) : Option Nat :=
  if t.size.xPeriod = 0 || t.size.yPeriod = 0 then some 0
  else
    let row := t.size.rowAt phase y
    let column := t.size.columnAt phase x y
    (Bits.rowValue? t.data (row.toNat * t.raster) (column.toNat * t.size.depth) t.size.depth).map
      (· % 4294967296)

/-- A place within a side, as it counts between coordinates, is on the side. -/
theorem toNat_emod_wrap32_lt {n : Nat} (h : Word.wrap32 n ≠ 0) (x : Int) :
    (x % Word.wrap32 n).toNat < n := by
  have hlt := Int.emod_lt_abs x h
  have hle : |Word.wrap32 n| ≤ n := by
    rw [Word.wrap32_eq_bmod, Int.bmod_def]
    split <;> rw [abs_le] <;> omega
  have hpos := abs_pos.mpr h
  omega

/-- A tile that has all its rows has every pixel. -/
@[simp] theorem Full.pixel?_eq {t : Tile} (h : t.Full) (x y : Int) (phase : Phase) :
    t.pixel? x y phase = some (t.pixel x y phase) := by
  rw [pixel?, pixel]
  split
  · rfl
  · next hperiods =>
    simp only [Bool.or_eq_true, decide_eq_true_eq, not_or] at hperiods
    have hcolumn : (t.size.columnAt phase x y).toNat < t.size.width :=
      toNat_emod_wrap32_lt hperiods.1 _
    have hrow : (t.size.rowAt phase y).toNat < t.size.height := toNat_emod_wrap32_lt hperiods.2 _
    have hbits : ((t.size.columnAt phase x y).toNat + 1) * t.size.depth ≤ t.size.raster * 8 :=
      (Nat.mul_le_mul_right _ hcolumn).trans (Bits.width_le_shortRaster _)
    have hrows : ((t.size.rowAt phase y).toNat + 1) * t.size.raster ≤ t.data.size := by
      rw [Full, TileSize.dataSize, Nat.mul_comm] at h
      exact (Nat.mul_le_mul_right _ hrow).trans h
    rw [Nat.succ_mul] at hbits hrows
    have hplace : (t.size.rowAt phase y).toNat * t.raster * 8 +
        (t.size.columnAt phase x y).toNat * t.size.depth + t.size.depth ≤ t.data.size * 8 := by
      rw [Tile.raster]
      omega
    exact congrArg (Option.map (· % 4294967296)) (Bits.rowValue?_eq hplace)

end Tile

/-! ### Reading a bitmap -/

namespace Raster

def sample? (bits : Bitmap) (rect : Rect) (depth : Nat) (x y : Int) : Option Color :=
  if x < rect.x1 || y < rect.y1 then none
  else
    let row := (y - rect.y1).toNat
    let column := (x - rect.x1).toNat
    (Bits.rowValue? bits.data (row * bits.raster) ((bits.dataX + column) * depth) depth).map
      UInt64.ofNat

theorem size_of_checkRows {bits : Bitmap} {rect : Rect} {depth : Nat}
    (h : checkRows bits rect depth = .ok ()) (hrows : 0 < rect.height.toNat) :
    (rect.height.toNat - 1) * bits.raster +
      Bits.shortRaster ((bits.dataX + rect.width.toNat) * depth) ≤ bits.data.size := by
  rw [checkRows] at h
  by_contra hshort
  simp only [hrows, not_le.mp hshort, decide_true, Bool.and_self, if_true] at h
  cases h

/-- The rows of a bitmap that is not refused have all pixels of the rectangle. -/
@[simp] theorem sample?_eq {bits : Bitmap} {rect : Rect} {depth : Nat}
    (h : checkRows bits rect depth = .ok ()) {x y : Int} (hp : rect.HasPixel x y) :
    sample? bits rect depth x y = some (sample bits rect depth x y) := by
  obtain ⟨hx, hx', hy, hy'⟩ := hp
  have hwidth : rect.width = rect.x2 - rect.x1 := rfl
  have hheight : rect.height = rect.y2 - rect.y1 := rfl
  have hsize := size_of_checkRows h (by omega)
  have hrow : (y - rect.y1).toNat * bits.raster ≤ (rect.height.toNat - 1) * bits.raster :=
    Nat.mul_le_mul_right _ (by omega)
  have hcolumn : (bits.dataX + (x - rect.x1).toNat + 1) * depth ≤
      Bits.shortRaster ((bits.dataX + rect.width.toNat) * depth) * 8 :=
    (Nat.mul_le_mul_right _ (by omega)).trans (Bits.width_le_shortRaster _)
  rw [Nat.succ_mul] at hcolumn
  rw [sample?, if_neg (by simp [hx, hy])]
  have hplace : (y - rect.y1).toNat * bits.raster * 8 +
      (bits.dataX + (x - rect.x1).toNat) * depth + depth ≤ bits.data.size * 8 := by
    omega
  exact congrArg (Option.map UInt64.ofNat) (Bits.rowValue?_eq hplace)

def tileColor? (tile : Tile) (colors : ColorPair) (phase : Phase) (x y : Int) : Option Color :=
  (tile.pixel? x y phase).map fun v =>
    if tile.size.depth = 1 then colors.ofBit (v != 0) else UInt64.ofNat v

theorem tileColor?_eq {tile : Tile} (h : tile.Full) (colors : ColorPair) (phase : Phase)
    (x y : Int) : tileColor? tile colors phase x y = some (tileColor tile colors phase x y) := by
  rw [tileColor?, h.pixel?_eq]
  rfl

/-! ### Writing a page -/

def put? (r : Raster) (x y : Nat) (color : Color) : Option Raster :=
  if (r.offPage x y).isSome then none
  else do
    let pixels ← Bits.slice? r.data (r.position x y) r.data.size
    let _ ← Bits.slice? pixels 0 r.pixelSize
    return r.put x y color

def paintPixel? (colorAt : Int → Int → Option Color) (r : Raster) (p : Nat × Nat) :
    Option Raster := do
  let color ← colorAt p.1 p.2
  if color = noColor then return r else r.put? p.1 p.2 color

/-- Give every pixel of an area the color that is found for it. A negative coordinate is no place
of a page. -/
def paintArea? (r : Raster) (colorAt : Int → Int → Option Color) : Option Rect → Option Raster
  | none => some r
  | some area =>
    if 0 ≤ area.x1 ∧ 0 ≤ area.y1 then (pixelsOf area).foldlM (paintPixel? colorAt) r else none

def paint? (r : Raster) (rect : Rect) (colorAt : Int → Int → Option Color) : Option Raster :=
  r.paintArea? colorAt (r.visible rect)

def paintSpan? (color : Color) (clip : Option ClipRegion) (r : Raster) (y x1 x2 : Int) :
    Option Raster :=
  let row := Rect.ofCorners x1 y x2 (y + 1)
  let pieces := match clip with
    | some clip => clip.intersections row
    | none => [row]
  pieces.foldlM (fun r piece => r.paint? piece fun _ _ => some color) r

def paintRows? (polygons : List Polygon) (rule : FillRule) (color : Color)
    (clip : Option ClipRegion) (first stop : Int) (r : Raster) : Option Raster :=
  (List.range (stop - first).toNat).foldlM (fun r (i : Nat) =>
    let y := first + (i : Int)
    let crossings := Outline.crossings polygons (Float.ofInt y + 0.5)
    (Outline.spans (insideOf rule) 0 crossings).foldlM
      (fun r (x1, x2) => paintSpan? color clip r y x1 x2) r) r

/-- The page has all its bytes, and its sides are coordinates. -/
structure Sound (r : Raster) : Prop where
  width : r.width < 2147483648
  height : r.height < 2147483648
  size : r.data.size = r.width * r.height * r.pixelSize

/-- The page at the start has all its bytes. -/
theorem sound_ofSize {width height : Nat} (hw : width < 2147483648) (hh : height < 2147483648)
    (depth : Nat) : (ofSize width height depth).Sound where
  width := hw
  height := hh
  size := Array.size_replicate

variable {r r' : Raster}

theorem Sound.put (h : r.Sound) (x y : Nat) (color : Color) : (r.put x y color).Sound where
  width := h.width
  height := h.height
  size := (Bits.size_overwrite ..).trans h.size

theorem Sound.withBox (h : r.Sound) (box : Rect) : (r.withBox box).Sound :=
  ⟨h.width, h.height, h.size⟩

theorem Sound.put?_eq (h : r.Sound) {x y : Nat} (hx : x < r.width) (hy : y < r.height)
    (color : Color) : r.put? x y color = some (r.put x y color) := by
  have hroom : r.position x y + r.pixelSize ≤ r.data.size := by
    rw [h.size]
    exact position_add_le hx hy
  have hsize : (r.data.extract (r.position x y) r.data.size).size =
      r.data.size - r.position x y := by
    rw [Array.size_extract, Nat.min_self]
  have hpage : r.offPage x y = none := by
    rw [offPage, if_neg (not_le.mpr hx), if_neg (not_le.mpr hy)]
  rw [put?, hpage, Bits.slice?_eq (by omega) (le_refl _)]
  show (Bits.slice? _ 0 r.pixelSize).bind _ = _
  rw [Bits.slice?_eq (Nat.zero_le _) (by omega)]
  rfl

/-- A pixel that is painted is on the page. -/
theorem Sound.paintPixel?_eq (h : r.Sound) {colorAt? : Int → Int → Option Color}
    {colorAt : Int → Int → Color} {p : Nat × Nat} (hx : p.1 < r.width) (hy : p.2 < r.height)
    (hcolor : colorAt? p.1 p.2 = some (colorAt p.1 p.2)) :
    paintPixel? colorAt? r p = some (paintPixel colorAt r p) ∧ (paintPixel colorAt r p).Sound ∧
      r.SamePage (paintPixel colorAt r p) := by
  rw [paintPixel?, hcolor, paintPixel]
  show (if colorAt p.1 p.2 = noColor then some r else r.put? p.1 p.2 (colorAt p.1 p.2)) = _ ∧ _
  split
  · exact ⟨rfl, h, .refl r⟩
  · exact ⟨h.put?_eq hx hy _, h.put _ _ _, samePage_put _ _ _ _⟩

/-- What can be painted of a rectangle lies in it and on the page. -/
theorem Sound.of_visible (h : r.Sound) {rect area : Rect} (harea : r.visible rect = some area) :
    (0 ≤ area.x1 ∧ 0 ≤ area.y1) ∧ ∀ p ∈ pixelsOf area,
      (p.1 < r.width ∧ p.2 < r.height) ∧ rect.HasPixel p.1 p.2 := by
  obtain ⟨onPage, hon, hbox⟩ := visible_eq_some.mp harea
  have hpage : r.pageRect = ⟨0, 0, r.width, r.height⟩ := rectOfSize_eq h.width h.height
  have hlow : 0 ≤ area.x1 ∧ 0 ≤ area.y1 := by
    rw [(Rect.intersect_eq_some hbox).1, (Rect.intersect_eq_some hon).1, hpage]
    dsimp only
    omega
  refine ⟨hlow, ?_⟩
  intro p hp
  have hin := (mem_pixelsOf (x := p.1) (y := p.2) hlow.1 hlow.2).mp hp
  obtain ⟨honPixel, -⟩ := (Rect.hasPixel_of_intersect hbox p.1 p.2).mp hin
  obtain ⟨hrect, hpagePixel⟩ := (Rect.hasPixel_of_intersect hon p.1 p.2).mp honPixel
  exact ⟨lt_of_pageRect hpagePixel, hrect⟩

/-- On a page that has all its bytes a rectangle can be painted with colors that are found. -/
theorem Sound.paint?_eq (h : r.Sound) {rect : Rect} {colorAt? : Int → Int → Option Color}
    {colorAt : Int → Int → Color}
    (hcolor : ∀ x y, rect.HasPixel x y → colorAt? x y = some (colorAt x y)) :
    r.paint? rect colorAt? = some (r.paint rect colorAt) ∧ (r.paint rect colorAt).Sound := by
  cases harea : r.visible rect with
  | none =>
    rw [paint?, paint, harea]
    exact ⟨rfl, h⟩
  | some area =>
    obtain ⟨hlow, hpixels⟩ := h.of_visible harea
    have hstep : ∀ r', (r'.Sound ∧ r.SamePage r') → ∀ p ∈ pixelsOf area,
        paintPixel? colorAt? r' p = some (paintPixel colorAt r' p) ∧
          (paintPixel colorAt r' p).Sound ∧ r.SamePage (paintPixel colorAt r' p) := by
      rintro r' ⟨hr', hsame⟩ p hp
      obtain ⟨⟨hpx, hpy⟩, hrect⟩ := hpixels p hp
      rw [← hsame.width] at hpx
      rw [← hsame.height] at hpy
      obtain ⟨heq, hsound, hsame'⟩ := hr'.paintPixel?_eq hpx hpy (hcolor _ _ hrect)
      exact ⟨heq, hsound, hsame.trans hsame'⟩
    obtain ⟨hfold, hsound, -⟩ := foldlM_eq_some hstep ⟨h, .refl r⟩
    rw [paint?, paint, harea, paintArea?, if_pos hlow]
    exact ⟨hfold, hsound⟩

theorem Sound.paintSpan?_eq (h : r.Sound) (color : Color) (clip : Option ClipRegion)
    (y x1 x2 : Int) : paintSpan? color clip r y x1 x2 = some (paintSpan color clip r y x1 x2) ∧
      (paintSpan color clip r y x1 x2).Sound :=
  foldlM_eq_some (fun _ hr _ _ => hr.paint?_eq fun _ _ _ => rfl) h

theorem Sound.paintRows?_eq (h : r.Sound) (polygons : List Polygon) (rule : FillRule)
    (color : Color) (clip : Option ClipRegion) (first stop : Int) :
    paintRows? polygons rule color clip first stop r =
        some (r.paintRows polygons rule color clip first stop) ∧
      (r.paintRows polygons rule color clip first stop).Sound :=
  foldlM_eq_some (fun _ hr _ _ =>
    foldlM_eq_some (fun _ hr' _ _ => hr'.paintSpan?_eq color clip _ _ _) hr) h

/-- Any colors may be painted. -/
theorem Sound.paint (h : r.Sound) (rect : Rect) (colorAt : Int → Int → Color) :
    (r.paint rect colorAt).Sound :=
  (h.paint?_eq fun x y _ => (rfl : some (colorAt x y) = _)).2

/-! ### Guarded calls -/

/-- Change the page if all places are there. -/
def change (f : Raster → Option Raster) : EStateM Fault Raster Unit := do
  let r ← get
  let r ← found (f r)
  set r

def fillRows? (path : Path) (rule : FillRule) (color : Color) (clip : Option ClipRegion)
    (r : Raster) : Option (Int × Int) → Option Rect → Option Raster
  | some (y, height), some area =>
    paintRows? (Outline.polygons path) rule color clip (max y area.y1) (min (y + height) area.y2) r
  | _, _ => some r

/-- The guarded call does what the plain one does, and leaves a page that has all its bytes. -/
structure Agrees (r : Raster) (guarded : EStateM Fault Raster Unit) (plain : DrawM Raster Unit) :
    Prop where
  eq : guarded r = unguarded plain r
  sound : (stateOf (plain r)).Sound

namespace Agrees

theorem of_eq {guarded guarded' : EStateM Fault Raster Unit} {plain plain' : DrawM Raster Unit}
    (h : r.Agrees guarded' plain') (hguarded : guarded r = guarded' r)
    (hplain : plain r = plain' r) : r.Agrees guarded plain where
  eq := by
    rw [hguarded, h.eq, unguarded, unguarded, hplain]
  sound := by
    rw [hplain]
    exact h.sound

theorem of_change {f? : Raster → Option Raster} {f : Raster → Raster}
    (h : f? r = some (f r) ∧ (f r).Sound) : r.Agrees (change f?) (modify f) where
  eq := by
    rw [change, get_bind_run, h.1]
    rfl
  sound := h.2

/-- A check of what is to be painted comes first. -/
theorem check (h : r.Sound) {check : Except Error Unit} {guarded : EStateM Fault Raster Unit}
    {plain : DrawM Raster Unit} (hrest : check = .ok () → r.Agrees guarded plain) :
    r.Agrees (do unguarded (liftM check); guarded)
      (do (liftM check : DrawM Raster Unit); plain) := by
  cases check with
  | error e => exact ⟨rfl, h⟩
  | ok _ =>
    obtain ⟨heq, hsound⟩ := hrest rfl
    exact ⟨heq, hsound⟩

end Agrees

end Raster

namespace TargetCall

/-- Make the call on a page and look at every place before it is read or written. Other calls than
these are refused or ignored by a page. -/
def guarded : TargetCall → EStateM Fault Raster Unit
  | fillRectangle rect color => Raster.change (·.paint? rect fun _ _ => some color)
  | copyMono bits rect colors => do
    unguarded (liftM (Raster.checkRows bits rect 1))
    Raster.change (·.paint? rect fun x y =>
      (Raster.sample? bits rect 1 x y).map fun v => colors.ofBit (v != 0))
  | copyColor bits rect => do
    let depth := (← get).depth
    unguarded (liftM (Raster.checkRows bits rect depth))
    Raster.change (·.paint? rect (Raster.sample? bits rect depth))
  | copyAlpha bits rect color depth => do
    if depth = 0 then throw (.failed (.target "alpha depth 0"))
    unguarded (liftM (Raster.checkRows bits rect depth.toNat))
    let half : Color := 1 <<< (depth.toUInt64 - 1)
    Raster.change (·.paint? rect fun x y =>
      (Raster.sample? bits rect depth.toNat x y).map fun v => if half ≤ v then color else noColor)
  | stripTileRectangle tile rect colors phase =>
    Raster.change (·.paint? rect (Raster.tileColor? tile colors phase))
  | fillPath _ path rule color clip => do
    let color ← unguarded (liftM (Raster.solidColor color))
    Raster.change fun r =>
      Raster.fillRows? path rule color clip r path.rowSpan (r.visible r.clipBox)
  | call => unguarded call.perform

/-- Every tile of the call has all its rows. -/
def HasRows : TargetCall → Prop
  | stripTileRectangle tile _ _ _ => tile.Full
  | _ => True

end TargetCall

namespace Raster

variable {r : Raster}

theorem Sound.agrees_copyAlpha (h : r.Sound) (bits : Bitmap) (rect : Rect) (color : Color)
    (depth : UInt8) : r.Agrees (TargetCall.copyAlpha bits rect color depth).guarded
      (copyAlpha bits rect color depth) := by
  by_cases hzero : depth = 0
  · simp only [TargetCall.guarded, copyAlpha, if_pos hzero]
    exact ⟨rfl, h⟩
  · simp only [TargetCall.guarded, copyAlpha, if_neg hzero]
    apply Agrees.check h
    intro hrows
    apply Agrees.of_change
    apply h.paint?_eq
    intro x y hp
    rw [sample?_eq hrows hp]
    rfl

theorem Sound.agrees_copyColor (h : r.Sound) (bits : Bitmap) (rect : Rect) :
    r.Agrees (TargetCall.copyColor bits rect).guarded (copyColor bits rect) := by
  have hchecked : r.Agrees
      (do
        unguarded (liftM (checkRows bits rect r.depth))
        change (·.paint? rect (sample? bits rect r.depth)))
      (do
        (liftM (checkRows bits rect r.depth) : DrawM Raster Unit)
        modify (Raster.paint · rect (sample bits rect r.depth))) := by
    apply Agrees.check h
    intro hrows
    apply Agrees.of_change
    exact h.paint?_eq fun x y hp => sample?_eq hrows hp
  exact hchecked.of_eq rfl rfl

def fillRows (path : Path) (rule : FillRule) (color : Color) (clip : Option ClipRegion)
    (r : Raster) : Option (Int × Int) → Option Rect → Raster
  | some (y, height), some area =>
    r.paintRows (Outline.polygons path) rule color clip (max y area.y1) (min (y + height) area.y2)
  | _, _ => r

theorem fillPath_run {color : DrawingColor} {c : Color} (hcolor : solidColor color = .ok c)
    (path : Path) (rule : FillRule) (clip : Option ClipRegion) (r : Raster) :
    fillPath path rule color clip r =
      .ok () (fillRows path rule c clip r path.rowSpan (r.visible r.clipBox)) := by
  rw [fillPath, hcolor, lift_ok_bind_run, get_bind_run]
  generalize r.visible r.clipBox = area
  cases path.rowSpan <;> cases area <;> rfl

theorem Sound.fillRows?_eq (h : r.Sound) (path : Path) (rule : FillRule) (color : Color)
    (clip : Option ClipRegion) (span : Option (Int × Int)) (area : Option Rect) :
    fillRows? path rule color clip r span area =
        some (fillRows path rule color clip r span area) ∧
      (fillRows path rule color clip r span area).Sound := by
  match span, area with
  | some (y, height), some area => exact h.paintRows?_eq _ rule color clip _ _
  | none, _ => exact ⟨rfl, h⟩
  | some _, none => exact ⟨rfl, h⟩

theorem Sound.agrees_fillPath (h : r.Sound) (state : ImagerState) (path : Path) (rule : FillRule)
    (color : DrawingColor) (clip : Option ClipRegion) :
    r.Agrees (TargetCall.fillPath state path rule color clip).guarded
      (fillPath path rule color clip) := by
  rw [TargetCall.guarded]
  cases hcolor : solidColor color with
  | error e =>
    rw [fillPath, hcolor]
    exact ⟨rfl, h⟩
  | ok c =>
    have hplain := fillPath_run hcolor path rule clip r
    obtain ⟨hrows, hsound⟩ := h.fillRows?_eq path rule c clip path.rowSpan (r.visible r.clipBox)
    have hguarded : change (fun r => fillRows? path rule c clip r path.rowSpan
        (r.visible r.clipBox)) r =
          .ok () (fillRows path rule c clip r path.rowSpan (r.visible r.clipBox)) := by
      rw [change, get_bind_run, hrows]
      rfl
    constructor
    · rw [unguarded_of_ok hplain]
      exact hguarded
    · rw [hplain]
      exact hsound

/-- On a page that has all its bytes no place is asked for that is not there. -/
theorem Sound.agrees (h : r.Sound) {call : TargetCall} (hcall : call.HasRows) :
    r.Agrees call.guarded call.perform := by
  cases call with
  | fillRectangle rect color => exact .of_change (h.paint?_eq fun _ _ _ => rfl)
  | copyMono bits rect colors =>
    apply Agrees.check h
    intro hrows
    apply Agrees.of_change
    apply h.paint?_eq
    intro x y hp
    rw [sample?_eq hrows hp]
    rfl
  | copyColor bits rect => exact h.agrees_copyColor bits rect
  | copyAlpha bits rect color depth => exact h.agrees_copyAlpha bits rect color depth
  | stripTileRectangle tile rect colors phase =>
    exact .of_change (h.paint?_eq fun x y _ => tileColor?_eq hcall colors phase x y)
  | fillPath state path rule color clip => exact h.agrees_fillPath state path rule color clip
  | fillMask | stripCopyRop | strokePath | beginImage | imageData | endImage | putParams |
    installHalftone | installTransfer => exact ⟨rfl, h⟩

/-- Whatever is drawn, the page keeps all its bytes. -/
theorem Sound.perform (h : r.Sound) (call : TargetCall) :
    (stateOf ((call.perform : DrawM Raster Unit) r)).Sound := by
  by_cases hcall : call.HasRows
  · exact (h.agrees hcall).sound
  · cases call with
    | stripTileRectangle tile rect colors phase =>
      have hpaint : ((TargetCall.stripTileRectangle tile rect colors phase).perform :
          DrawM Raster Unit) r = .ok () (r.paint rect (tileColor tile colors phase)) := rfl
      rw [hpaint, stateOf]
      exact h.paint rect (tileColor tile colors phase)
    | _ => exact (hcall trivial).elim

end Raster

end BandedPage
