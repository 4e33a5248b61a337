import Mathlib
import BandedPage.Proofs.Page.Draws
import BandedPage.Proofs.Target.Raster
import BandedPage.Proofs.Writer.Rectangle

/-!
# Filled rectangles come out as if they were filled directly

Filling rectangles on a page that is stored and replayed band by band gives the raster that filling
the same rectangles directly gives: what a pixel shows is the color of the last fill over it, and
every pixel is in just one band, which is sent the fills in order.
-/

namespace BandedPage

def filledColor (fills : List (Rect × Color)) (before : Color) (x y : Nat) : Color :=
  fills.foldl (fun color (rect, c) => if rect.HasPixel x y ∧ c ≠ noColor then c else color) before

def fillAll {τ : Type} [Target τ] (fills : List (Rect × Color)) : DrawM τ Unit :=
  fills.forM fun (rect, color) => Target.fillRectangle rect color

theorem fillAll_cons {τ : Type} [Target τ] (fill : Rect × Color) (fills : List (Rect × Color)) :
    (fillAll (fill :: fills) : DrawM τ Unit) =
      Target.fillRectangle fill.1 fill.2 >>= fun _ => fillAll fills := rfl

namespace Raster

variable {r : Raster} {f : Nat → Nat → Color}

@[simp] theorem fillRectangle_run (r : Raster) (rect : Rect) (color : Color) :
    (Target.fillRectangle rect color : DrawM Raster Unit) r =
      .ok () (r.paint rect fun _ _ => color) := rfl

/-- What fills on a raster show, and the calls that they are. -/
theorem Shows.fillAll (h : r.Shows f) (hw : r.width < 2147483648) (hh : r.height < 2147483648)
    (fills : List (Rect × Color)) :
    ∃ r', BandedPage.fillAll fills r = .ok () r' ∧ r.SamePage r' ∧
      TargetCall.Accepts r.clipBox (fills.map fun fill => .fillRectangle fill.1 fill.2) r r' ∧
      r'.Shows fun x y =>
        if r.clipBox.HasPixel x y then filledColor fills (f x y) x y else f x y := by
  induction fills generalizing r f with
  | nil =>
    refine ⟨r, rfl, .refl r, ⟨rfl, rfl⟩, h.congr fun x _ y _ => ?_⟩
    rw [filledColor, List.foldl_nil, ite_self]
  | cons fill fills ih =>
    obtain ⟨rect, color⟩ := fill
    obtain ⟨hsame, hshows⟩ := h.paint hw hh rect fun _ _ => color
    obtain ⟨r', hrun, hsame', haccepts, hshows'⟩ := ih hshows (hsame.width.trans_lt hw)
      (hsame.height.trans_lt hh)
    have hcall := fillRectangle_run r rect color
    refine ⟨r', ?_, hsame.trans hsame', ?_, hshows'.congr fun x _ y _ => ?_⟩
    · rw [fillAll_cons, bind_of_ok hcall]
      exact hrun
    · refine ⟨rfl, _, hcall, ?_⟩
      rw [hsame.clipBox] at haccepts
      exact haccepts
    · rw [hsame.clipBox, filledColor, filledColor, List.foldl_cons]
      by_cases hbox : r.clipBox.HasPixel x y
      · simp only [hbox, and_true, if_true]
      · simp only [hbox, and_false, false_and, if_false]

end Raster

variable {config : Config} {fills : List (Rect × Color)}

/-- Within its band a pixel is filled as it is on the page. -/
theorem filledColor_fillsIn (hvalid : config.Valid) (hheight : config.height < 2147483648)
    {band : Nat} (hband : band < config.nbands) {x y : Nat}
    (hp : (config.bandRect band).HasPixel x y) (before : Color) :
    filledColor (config.fillsIn fills band) before x y = filledColor fills before x y := by
  induction fills generalizing before with
  | nil => rfl
  | cons fill fills ih =>
    obtain ⟨rect, color⟩ := fill
    have hpage := ((hvalid.bandRect_hasPixel hheight hband).mp hp).1
    have hsplit : config.fillsIn ((rect, color) :: fills) band =
        ((rect.intersect config.pageRect).bind (·.intersect (config.bandRect band))).toList.map
          (·, color) ++ config.fillsIn fills band := rfl
    have hcons : ∀ c, filledColor ((rect, color) :: fills) c x y =
        filledColor fills (if rect.HasPixel x y ∧ color ≠ noColor then color else c) x y :=
      fun c => rfl
    rw [hsplit, hcons, ← ih]
    cases hpart : (rect.intersect config.pageRect).bind (·.intersect (config.bandRect band)) with
    | none =>
      have hout : ¬ rect.HasPixel x y := by
        intro hin
        obtain ⟨onPage, hon, hin⟩ := Rect.exists_intersect_hasPixel.mpr ⟨hin, hpage⟩
        obtain ⟨part, hsome, -⟩ := Rect.exists_intersect_hasPixel.mpr ⟨hin, hp⟩
        rw [Option.mem_def] at hon hsome
        rw [hon, Option.bind_some, hsome] at hpart
        cases hpart
      rw [if_neg fun h => hout h.1]
      rfl
    | some part =>
      obtain ⟨onPage, hon, hsome⟩ := Option.bind_eq_some_iff.mp hpart
      have hiff : part.HasPixel x y ↔ rect.HasPixel x y := by
        rw [Rect.hasPixel_of_intersect hsome, Rect.hasPixel_of_intersect hon]
        exact ⟨fun h => h.1.1, fun h => ⟨⟨h, hpage⟩, hp⟩⟩
      simp only [Option.toList_some, List.map_cons, List.map_nil, List.singleton_append,
        filledColor, List.foldl_cons, hiff]

variable {μ : Type} [Medium μ] [LawfulMedium μ]

omit [LawfulMedium μ] in
/-- The bands that are replayed get their fills, and no other pixel changes. -/
theorem forM_playBand_fills {store : BandStore μ} (hvalid : config.Valid)
    (hwidth : config.width < 2147483648) (hheight : config.height < 2147483648)
    (hsum : Word.fits32 (config.height + config.bandHeight) = true)
    (hdraws : store.Draws config fun band => fillCalls (config.fillsIn fills band))
    {bands : List Nat} (hbands : ∀ band ∈ bands, band < config.nbands) (hnodup : bands.Nodup)
    {r : Replayer Raster} (hr : r.config = config) (hw : (r.target.width : Int) = config.width)
    (hh : (r.target.height : Int) = config.height) {f : Nat → Nat → Color}
    (hshows : r.target.Shows f) :
    ∃ r', bands.forM (Replayer.playBand store) r = .ok () r' ∧ r'.config = config ∧
      r'.target.width = r.target.width ∧ r'.target.height = r.target.height ∧
      r'.target.depth = r.target.depth ∧ r'.target.Shows fun x y =>
        if config.bandOf y ∈ bands then filledColor fills (f x y) x y else f x y := by
  induction bands generalizing r f with
  | nil => exact ⟨r, rfl, hr, rfl, rfl, rfl, hshows.congr fun x _ y _ => by simp⟩
  | cons band bands ih =>
    have hband := hbands band List.mem_cons_self
    obtain ⟨hnew, hnodup⟩ := List.nodup_cons.mp hnodup
    -- the area of the band is set, its fills are drawn, and the others follow
    have hshows₀ : Raster.Shows { r.target with clipBox := config.bandRect band } f :=
      ⟨hshows.size, hshows.pixels⟩
    obtain ⟨t, -, hsame, haccepts, hshows₁⟩ := hshows₀.fillAll
      (show r.target.width < 2147483648 by omega) (show r.target.height < 2147483648 by omega)
      (config.fillsIn fills band)
    obtain ⟨known, hplay⟩ := hdraws band hband r _ t hr rfl haccepts
    obtain ⟨r', hrun, hconfig, hwidth', hheight', hdepth', hshows'⟩ :=
      ih (fun b hb => hbands b (List.mem_cons_of_mem _ hb)) hnodup
        (r := { r with target := t, progress := .endOfPage, known }) hr
        (by rw [hsame.width]; exact hw) (by rw [hsame.height]; exact hh) hshows₁
    refine ⟨r', ?_, hconfig, hwidth'.trans hsame.width, hheight'.trans hsame.height,
      hdepth'.trans hsame.depth, hshows'.congr fun x hx y hy => ?_⟩
    · show (Replayer.playBand store band >>= fun _ => _) r = _
      rw [← hr] at hsum hplay
      rw [bind_of_ok ((Replayer.playBand_of_fits hsum store band).trans hplay)]
      exact hrun
    · have hx' : x < r.target.width := by
        rw [hwidth', hsame.width] at hx
        exact hx
      have hy' : y < r.target.height := by
        rw [hheight', hsame.height] at hy
        exact hy
      have hpage : config.pageRect.HasPixel x y := by
        rw [hvalid.pageRect_eq]
        simp only [Rect.HasPixel]
        omega
      have hin : (config.bandRect band).HasPixel x y ↔ config.bandOf y = band := by
        rw [hvalid.bandRect_hasPixel hheight hband]
        exact ⟨fun h => h.2, fun h => ⟨hpage, h⟩⟩
      dsimp only
      by_cases heq : config.bandOf y = band
      · have hp := hin.mpr heq
        rw [if_neg (heq ▸ hnew), if_pos hp, if_pos (heq ▸ List.mem_cons_self),
          filledColor_fillsIn hvalid hheight hband hp]
      · have hcons : config.bandOf y ∈ band :: bands ↔ config.bandOf y ∈ bands := by
          simp [heq]
        simp only [hcons, if_neg fun h => heq (hin.mp h)]

/-- A new raster shows color zero everywhere. -/
theorem Raster.shows_ofSize (width height depth : Nat) :
    (Raster.ofSize width height depth).Shows fun _ _ => 0 := by
  refine ⟨Array.size_replicate, fun x hx y hy => ?_⟩
  have hroom := position_add_le hx hy
  have hzero : ∀ n, Word.bigEndian n (0 : Color).toNat = List.replicate n 0 := by
    intro n
    induction n with
    | zero => rfl
    | succ n ih =>
      rw [Word.bigEndian, ih, List.replicate_succ, UInt64.toNat_zero, Nat.zero_shiftRight]
      rfl
  have hdata : (Raster.ofSize width height depth).data =
      Array.replicate (width * height * bytesPerPixel depth) 0 := rfl
  have hsize : width * height * bytesPerPixel depth = (Raster.ofSize width height depth).width *
      (Raster.ofSize width height depth).height * (Raster.ofSize width height depth).pixelSize := rfl
  rw [hzero, pixelBytes, hdata, Array.extract_replicate, Array.toList_replicate,
    Nat.min_eq_left (hsize ▸ hroom), Nat.add_sub_cancel_left]

/-- Fills on a page that is stored with memory without a limit. -/
theorem Writer.fillRectangles_draw {store : BandStore μ} (hvalid : config.Valid)
    (hwidth : config.width < 2147483648) (hheight : config.height < 2147483648)
    (hstore : store.Contains []) (hcolors : ∀ fill ∈ fills, fill.2.IsOf config.depth) :
    ∃ w : Writer μ Unlimited,
      (do fills.forM fun fill => Writer.fillRectangle fill.1 fill.2
          Writer.endPage) ({ state := .fresh config store {} } : Writer μ Unlimited) = .ok () w ∧
      (w.state.buffer.store.commandLength < 9223372036854775808 →
        w.state.buffer.store.Draws config fun band => fillCalls (config.fillsIn fills band)) := by
  have hnbands := hvalid.nbands_le
  obtain ⟨w, calls, hrun, hw, hcalls⟩ := (Fills.fresh (μ := μ) hvalid hstore).forM_fillRectangle
    hwidth hheight hcolors
  obtain ⟨store', hclose, -, hdraws⟩ := hw.synced.closePage (by rw [hw.config_eq]; omega)
  have hend := endPage_of_closePage hw.enabled hw.image hclose
  refine ⟨_, (bind_of_ok hrun _).trans hend, fun hlen => ?_⟩
  have hpage := hdraws hlen
  rw [hw.config_eq] at hpage
  exact hpage.congr hcalls

omit [LawfulMedium μ] in
/-- A page of fills is replayed on a new raster as if the rectangles were filled directly, up to the
area that may be drawn in. -/
theorem playPage_fills {store : BandStore μ} (hvalid : config.Valid)
    (hwidth : config.width < 2147483648) (hheight : config.height < 2147483648)
    (hsum : Word.fits32 (config.height + config.bandHeight) = true)
    (hdraws : store.Draws config fun band => fillCalls (config.fillsIn fills band))
    {r : Replayer Raster} (hr : r.config = config)
    (ht : r.target = .ofSize config.width.toNat config.height.toNat config.depth) :
    ∃ r' direct, Replayer.playPage store r = .ok () r' ∧
      fillAll fills r.target = .ok () direct ∧
      { r'.target with clipBox := direct.clipBox } = direct := by
  have hwpos := hvalid.width
  have hhpos := hvalid.height
  have hshows : r.target.Shows fun _ _ => 0 := ht ▸ Raster.shows_ofSize ..
  have hw : (r.target.width : Int) = config.width := by
    rw [ht]
    exact Int.toNat_of_nonneg hwpos.le
  have hh : (r.target.height : Int) = config.height := by
    rw [ht]
    exact Int.toNat_of_nonneg hhpos.le
  have hbox : r.target.clipBox = config.pageRect := by
    rw [ht, hvalid.pageRect_eq]
    refine (Raster.rectOfSize_eq (by omega) (by omega)).trans ?_
    rw [Int.toNat_of_nonneg hwpos.le, Int.toNat_of_nonneg hhpos.le]
  obtain ⟨direct, hdirect, hsame, -, hshows₁⟩ := hshows.fillAll (by omega) (by omega) fills
  obtain ⟨r', hplay, -, hwidth', hheight', hdepth', hshows₂⟩ := forM_playBand_fills hvalid hwidth
    hheight hsum hdraws (fun _ => List.mem_range.mp) List.nodup_range hr hw hh hshows
  refine ⟨r', direct, ?_, hdirect, ?_⟩
  · rw [← hr] at hsum hplay
    exact (Replayer.playPage_of_fits hsum store).trans hplay
  · have hpixels : ∀ x < r'.target.width, ∀ y < r'.target.height,
        (if config.bandOf y ∈ List.range config.nbands then filledColor fills 0 x y else 0) =
          if r.target.clipBox.HasPixel x y then filledColor fills 0 x y else 0 := by
      intro x hx y hy
      rw [hwidth'] at hx
      rw [hheight'] at hy
      have hlt := hvalid.bandOf_lt (y := (y : Int)) (by omega) (by omega)
      rw [if_pos (List.mem_range.mpr hlt), if_pos]
      rw [hbox, hvalid.pageRect_eq]
      simp only [Rect.HasPixel]
      omega
    have hdata := (hshows₂.congr hpixels).data_eq hshows₁ (hsame.width.trans hwidth'.symm)
      (hsame.height.trans hheight'.symm) (hsame.depth.trans hdepth'.symm)
    obtain ⟨dw, dh, dd, ddata, dbox⟩ := direct
    rw [Raster.mk.injEq]
    exact ⟨hwidth'.trans hsame.width.symm, hheight'.trans hsame.height.symm,
      hdepth'.trans hsame.depth.symm, hdata.symm, rfl⟩

/-- Filling rectangles with memory without a limit, closing the page and replaying it on a new
raster succeeds, and gives the raster that filling the same rectangles directly gives, up to the
area that may be drawn in. The bands of the page can be counted, or else nothing is written. -/
theorem replayed_fills_eq_direct {store : BandStore μ} (hconfig : config.validate = .ok ())
    (hwidth : config.width < 2147483648) (hheight : config.height < 2147483648)
    (hsum : Word.fits32 (config.height + config.bandHeight) = true)
    (hstore : store.Contains []) (hcolors : ∀ fill ∈ fills, fill.2.IsOf config.depth) :
    ∃ w₀ w : Writer μ Unlimited, Writer.ofConfig config store {} = .ok w₀ ∧
      (do fills.forM fun fill => Writer.fillRectangle fill.1 fill.2
          Writer.endPage) w₀ = .ok () w ∧
      (w.state.buffer.store.commandLength < 9223372036854775808 →
        ∃ (r₀ r : Replayer Raster) (direct : Raster),
          Replayer.ofConfig config
            (.ofSize config.width.toNat config.height.toNat config.depth) = .ok r₀ ∧
          Replayer.playPage w.state.buffer.store r₀ = .ok () r ∧
          fillAll fills (.ofSize config.width.toNat config.height.toNat config.depth) =
            .ok () direct ∧
          { r.target with clipBox := direct.clipBox } = direct) := by
  have hvalid := Config.valid_of_validate hconfig
  obtain ⟨w, hrun, hdraws⟩ := Writer.fillRectangles_draw hvalid hwidth hheight hstore hcolors
  refine ⟨_, w, Writer.ofConfig_eq_ok_iff.mpr ⟨hconfig, hsum, rfl⟩, hrun, fun hlen => ?_⟩
  obtain ⟨r, direct, hplay, hdirect, heq⟩ := playPage_fills hvalid hwidth hheight hsum (hdraws hlen)
    (r := { config, target := .ofSize config.width.toNat config.height.toNat config.depth })
    rfl rfl
  refine ⟨_, r, direct, ?_, hplay, hdirect, heq⟩
  simp only [Replayer.ofConfig, hconfig, bind, Except.bind, pure, Except.pure]

/-- Overlapping fills, one of them without a color, on the default page. -/
theorem three_replayed_fills_eq_direct :
    (default : Config).validate = .ok () ∧ ∃ w₀ w : Writer MemoryMedium Unlimited,
      Writer.ofConfig default { commands := {}, index := {} } {} = .ok w₀ ∧
      (do [((⟨-5, 10, 100, 200⟩ : Rect), (3 : Color)), (⟨50, 60, 700, 70⟩, 7),
            (⟨0, 0, 64, 64⟩, noColor)].forM fun fill => Writer.fillRectangle fill.1 fill.2
          Writer.endPage) w₀ = .ok () w ∧
      (w.state.buffer.store.commandLength < 9223372036854775808 →
        ∃ (r₀ r : Replayer Raster) (direct : Raster),
          Replayer.ofConfig default (.ofSize 612 792 8) = .ok r₀ ∧
          Replayer.playPage w.state.buffer.store r₀ = .ok () r ∧
          fillAll [(⟨-5, 10, 100, 200⟩, 3), (⟨50, 60, 700, 70⟩, 7), (⟨0, 0, 64, 64⟩, noColor)]
            (.ofSize 612 792 8) = .ok () direct ∧
          { r.target with clipBox := direct.clipBox } = direct) := by
  have hvalid : (default : Config).validate = .ok () := rfl
  have hempty : BandStore.Contains ({ commands := {}, index := {} } : BandStore MemoryMedium) [] :=
    ⟨MemoryMedium.sound_empty, MemoryMedium.sound_empty, rfl, rfl⟩
  have hcolors : ∀ fill ∈ [((⟨-5, 10, 100, 200⟩ : Rect), (3 : Color)), (⟨50, 60, 700, 70⟩, 7),
      (⟨0, 0, 64, 64⟩, noColor)], fill.2.IsOf 8 := by
    simp only [List.forall_mem_cons]
    exact ⟨.inr (by decide), .inr (by decide), .inl rfl, fun _ h => absurd h List.not_mem_nil⟩
  exact ⟨hvalid,
    replayed_fills_eq_direct hvalid (by decide) (by decide) (by decide) hempty hcolors⟩

/-- A fill shows on a raster of two rows, but no page of that size is written for bands that have as
many rows as 32 bits can tell. -/
theorem fills_of_uncountable_bands_are_not_replayed :
    let config : Config := { width := 1, height := 2, bandHeight := 2147483647 }
    let store : BandStore MemoryMedium := { commands := {}, index := {} }
    let direct := stateOf (fillAll [(⟨0, 0, 1, 2⟩, 5)] (Raster.ofSize 1 2 8))
    let replayed : Except Error Raster := do
      let w ← Writer.ofConfig config store ({} : Unlimited)
      match (do Writer.fillRectangle ⟨0, 0, 1, 2⟩ 5; Writer.endPage) w with
      | .ok _ w =>
        let r ← Replayer.ofConfig config (Raster.ofSize 1 2 8)
        match Replayer.playPage w.state.buffer.store r with
        | .ok _ r => return r.target
        | .error e _ => throw e
      | .error e _ => throw e
    config.validate = .ok () ∧ direct.data = #[5, 5] ∧ replayed = .error .uncountable :=
  ⟨rfl, by decide +kernel, rfl⟩

end BandedPage
