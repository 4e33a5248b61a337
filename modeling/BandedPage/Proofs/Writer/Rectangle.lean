import Mathlib
import BandedPage.Proofs.Config
import BandedPage.Proofs.Writer.Drafting
import BandedPage.Proofs.Writer.Lengths
import BandedPage.Proofs.Writer.Recovery
import BandedPage.Proofs.Writer.Sync
import BandedPage.Writer.Rectangle
import BandedPage.Writer.Session

/-!
# Rectangles that are filled

What a rectangle's draft tells a band, and what replay draws for it. With memory without a limit
every fill is held for the bands it meets.
-/

namespace BandedPage

namespace BandDraft

def fill (d : BandDraft) (depth : Nat) (lop : LogicalOp) (r : Rect) (color : Color) : BandDraft :=
  (((d.switchClip false).useLop lop true).useColor depth .one color).rect Opcode.fillRect r

@[simp]
theorem fill_band (d : BandDraft) (depth : Nat) (lop : LogicalOp) (r : Rect) (color : Color) :
    (d.fill depth lop r color).band = d.band := by
  show (((d.switchClip false).useLop lop true).useColor depth .one color).band = _
  simp

end BandDraft

/-- Without a clip a rectangle is visible where it lies in the area. -/
@[simp]
theorem ReplayState.visible_of_not_clipEnabled (r : ReplayState) (h : r.band.clipEnabled = false)
    (box rect : Rect) : r.visible box rect = (rect.intersect box).toList := by
  have hactive : r.activeClip = none := by
    rw [ReplayState.activeClip, h]
    rfl
  rw [ReplayState.visible, hactive]
  cases rect.intersect box <;> rfl

variable {μ ν : Type} {q : Terms} {s : WriterState μ ν}

/-- Without a clip a rectangle is filled where it lies in the band. -/
theorem drafts_fill (hdepth : s.config.depth ∈ Config.depths) (band : Nat) {rect : Rect}
    (hrect : (SizedRect.ofRect rect).Within q) {color : Color}
    (hcolor : q.exactColors → color.IsOf s.config.depth) (lop : LogicalOp) :
    Drafts q s (BandDraft.fill { band, state := s.band band } s.config.depth lop rect color)
      fun calls => ∃ b : BandState, b.lop = lop ∧ b.lopEnabled = (lop != .default) ∧
        (q.exactColors → b.colors.one = color) ∧
        calls = (rect.intersect (s.config.bandRect band)).toList.map (fillCall b) := by
  intro r₀ hm ht
  rw [BandDraft.fill_band] at hm ht
  obtain ⟨r₁, h₁⟩ := (Drafted.start hm).switchClip false
  obtain ⟨r₂, h₂⟩ := h₁.useLop lop true
  obtain ⟨r₃, h₃⟩ := h₂.useColor hdepth .one hcolor
  obtain ⟨r₄, h₄⟩ := h₃.fillRect hrect
  refine ⟨_, r₄, ?_, h₄⟩
  have hband : r₃.band.clipEnabled = false ∧ r₃.band.lop = lop ∧
      r₃.band.lopEnabled = (lop != .default) := by
    have hm₃ := h₃.mirrors
    rw [hm₃.clipEnabled, hm₃.lop, hm₃.lopEnabled, BandDraft.useColor_state,
      BandDraft.useLop_state, BandDraft.switchClip_state]
    exact ⟨rfl, rfl, rfl⟩
  obtain ⟨hclip, hlop, hlopEnabled⟩ := hband
  refine ⟨r₃.band, hlop, hlopEnabled, fun hq => ?_, ?_⟩
  · rw [h₃.mirrors.colors hq, BandDraft.useColor_state]
    rfl
  · simp [r₃.visible_of_not_clipEnabled hclip]

end BandedPage

/-!
## Pages of filled rectangles

With memory without a limit every fill is held for the bands it meets, clipped to the page and to
the band.
-/

namespace BandedPage

/-- Exact colors within the coordinates of a page. -/
def Terms.page : Terms where
  exactColors := True
  exactImager := False
  least := 0
  greatest := 2147483647
  least_le := Int.natCast_nonneg 0
  le_greatest := by decide
  span := by decide

def Config.fillsIn (c : Config) (fills : List (Rect × Color)) (band : Nat) : List (Rect × Color) :=
  fills.flatMap fun (rect, color) =>
    ((rect.intersect c.pageRect).bind (·.intersect (c.bandRect band))).toList.map (·, color)

def fillCalls (fills : List (Rect × Color)) : List TargetCall :=
  fills.map fun fill => .fillRectangle fill.1 fill.2

/-- A rectangle of coordinates from zero on is within the terms of a page. -/
theorem SizedRect.within_page {r : Rect} (hx : 0 ≤ r.x1 ∧ r.x1 < r.x2 ∧ r.x2 < 2147483648)
    (hy : 0 ≤ r.y1 ∧ r.y1 < r.y2 ∧ r.y2 < 2147483648) : (SizedRect.ofRect r).Within .page := by
  have hallows : ∀ v : Int, 0 ≤ v → v < 2147483648 → Terms.page.Allows v := fun v hlo hhi =>
    ⟨hlo, Int.le_of_lt_add_one hhi⟩
  have hwidth : (SizedRect.ofRect r).width = r.x2 - r.x1 := rfl
  have hheight : (SizedRect.ofRect r).height = r.y2 - r.y1 := rfl
  refine ⟨hallows _ hx.1 ?_, hallows _ hy.1 ?_, hallows _ ?_ ?_, hallows _ ?_ ?_⟩
  · exact hx.2.1.trans hx.2.2
  · exact hy.2.1.trans hy.2.2
  · omega
  · omega
  · omega
  · omega

/-- A part of the page is within the terms of a page. -/
theorem Config.Valid.within_page {c : Config} (h : c.Valid) (hw : c.width < 2147483648)
    (hh : c.height < 2147483648) {rect r box part : Rect}
    (hpage : rect.intersect c.pageRect = some r) (hpart : r.intersect box = some part) :
    (SizedRect.ofRect part).Within .page := by
  obtain ⟨heq, -, -⟩ := Rect.intersect_eq_some hpage
  obtain ⟨heq', hx, hy⟩ := Rect.intersect_eq_some hpart
  rw [h.pageRect_eq] at heq
  refine SizedRect.within_page ⟨?_, hx, ?_⟩ ⟨?_, hy, ?_⟩ <;> rw [heq', heq] <;> dsimp only <;> omega

/-- Within a band a part of it is whole. -/
theorem Rect.intersect_part {r box part : Rect} (h : r.intersect box = some part) :
    part.intersect box = some part := by
  obtain ⟨heq, hx, hy⟩ := intersect_eq_some h
  have hx1 : box.x1 ≤ part.x1 ∧ part.x2 ≤ box.x2 := by
    rw [heq]
    exact ⟨le_max_right _ _, min_le_right _ _⟩
  have hy1 : box.y1 ≤ part.y1 ∧ part.y2 ≤ box.y2 := by
    rw [heq]
    exact ⟨le_max_right _ _, min_le_right _ _⟩
  rw [intersect_eq, max_eq_left hx1.1, max_eq_left hy1.1, min_eq_left hx1.2, min_eq_left hy1.2,
    if_pos ⟨hx, hy⟩]

namespace Writer

variable {μ : Type} [Medium μ] [LawfulMedium μ] {config : Config}

/-- A writer with memory without a limit has been sent fills that draw these `calls`. -/
structure Fills (w : Writer μ Unlimited) (config : Config) (calls : Nat → List TargetCall) :
    Prop where
  enabled : w.disabled = false
  config_eq : w.state.config = config
  image : w.state.image = none
  logOp : w.state.imager.logOp = .default
  synced : Synced .page w.state calls

namespace Fills

variable {w : Writer μ Unlimited} {calls : Nat → List TargetCall} {color : Color}

/-- A part of a rectangle is drawn when its band is replayed. -/
theorem fillBand (h : w.Fills config calls) {band : Nat} (hband : band < config.nbands)
    {rect : Rect} (hrect : (SizedRect.ofRect rect).Within .page) (hcolor : color.IsOf config.depth) :
    ∃ w', withRecovery (WriterState.fillBand band rect color) w = .ok () w' ∧
      w'.Fills config (extendCalls calls band
        ((rect.intersect (config.bandRect band)).toList.map (.fillRectangle · color))) := by
  obtain ⟨henabled, rfl, himage, hlogOp, hsynced⟩ := h
  have hdepth := hsynced.valid.depth
  have hbuffer := hsynced.valid.bufferSize
  have hreader := hsynced.valid.readerSize
  have hlookahead : Buffered.lookahead = 128 := rfl
  let d := BandDraft.fill { band, state := w.state.band band } w.state.config.depth
    w.state.imager.logOp rect color
  have hd : d.band = band := BandDraft.fill_band ..
  have hshort : d.Short 21 := by
    refine (((BandDraft.Short.start 21 band _).switchClip (by decide) false).useLop (by decide) _
      true).useColor (by decide) hdepth .one color |>.rect (by decide) _ _
  have hlt : d.band < w.state.config.nbands := hd.symm ▸ hband
  have hdrafts := drafts_fill (s := w.state) hdepth band hrect (fun _ => hcolor)
    w.state.imager.logOp
  have hreserve : MemoryPolicy.reserve μ d.commands.toList.flatten.length w.state.memory =
    .ok () w.state.memory := rfl
  obtain ⟨state, hcommit⟩ := hsynced.commit_of_fit hlt
    (fun c hc => (hshort c hc).trans (by omega)) hreserve
  rcases hsynced.commit hdrafts hlt with ⟨state', more, hcommit', halike, -, hmore, hs⟩ |
    ⟨e, memory, hcommit'⟩
  · refine ⟨{ w with state := state' }, withRecovery_of_ok henabled hcommit', henabled,
      halike.config, halike.image.trans himage, ?_, ?_⟩
    · rw [halike.imager]
      exact hlogOp
    · obtain ⟨b, hlop, hlopEnabled, hone, rfl⟩ := hmore
      have hcall : fillCall b = (.fillRectangle · color) := by
        funext piece
        rw [fillCall, hlopEnabled, hlogOp, hone trivial]
        rfl
      rw [hcall, hd] at hs
      exact hs
  · rw [hcommit] at hcommit'
    cases hcommit'

theorem forM_fillBand (h : w.Fills config calls) {parts : List (Nat × Rect)}
    (hparts : ∀ p ∈ parts, p.1 < config.nbands ∧ (SizedRect.ofRect p.2).Within .page ∧
      p.2.intersect (config.bandRect p.1) = some p.2) (hcolor : color.IsOf config.depth) :
    ∃ w', (parts.forM fun (band, part) =>
        withRecovery (WriterState.fillBand band part color)) w = .ok () w' ∧
      w'.Fills config fun band => calls band ++
        (parts.filter (·.1 == band)).map fun p => .fillRectangle p.2 color := by
  induction parts generalizing w calls with
  | nil => exact ⟨w, rfl, by simpa using h⟩
  | cons p parts ih =>
    obtain ⟨hband, hwithin, hpart⟩ := hparts p List.mem_cons_self
    obtain ⟨w₁, hrun₁, hw₁⟩ := h.fillBand hband hwithin hcolor
    obtain ⟨w₂, hrun₂, hw₂⟩ := ih hw₁ fun p' hp' => hparts p' (List.mem_cons_of_mem _ hp')
    refine ⟨w₂, ?_, ?_⟩
    · show (withRecovery (WriterState.fillBand p.1 p.2 color) >>= fun _ => _) w = _
      rw [bind_of_ok hrun₁]
      exact hrun₂
    · convert hw₂ using 2 with band
      rw [extendCalls, hpart, List.filter_cons, List.append_assoc]
      by_cases heq : band = p.1
      · subst heq
        simp
      · simp [heq, Ne.symm heq]

/-- A fill is drawn in every band it meets. -/
theorem fillRectangle (h : w.Fills config calls) (hwidth : config.width < 2147483648)
    (hheight : config.height < 2147483648) (rect : Rect) (hcolor : color.IsOf config.depth) :
    ∃ w' calls', Writer.fillRectangle rect color w = .ok () w' ∧ w'.Fills config calls' ∧
      ∀ band < config.nbands, calls' band =
        calls band ++ fillCalls (config.fillsIn [(rect, color)] band) := by
  have hvalid := h.config_eq ▸ h.synced.valid
  rw [Writer.fillRectangle, bind_of_ok (check_eq h.enabled)]
  simp only [get_bind_run, h.config_eq]
  cases hpage : rect.intersect config.pageRect with
  | none =>
    refine ⟨w, calls, rfl, h, fun band _ => ?_⟩
    simp [fillCalls, Config.fillsIn, hpage]
  | some r =>
    have hparts : ∀ p ∈ config.bandParts r, p.1 < config.nbands ∧
        (SizedRect.ofRect p.2).Within .page ∧
        p.2.intersect (config.bandRect p.1) = some p.2 := by
      intro p hp
      obtain ⟨hband, hpart⟩ := hvalid.of_mem_bandParts hp
      exact ⟨hband, hvalid.within_page hwidth hheight hpage hpart, Rect.intersect_part hpart⟩
    obtain ⟨w', hrun, hw'⟩ := h.forM_fillBand hparts hcolor
    refine ⟨w', _, hrun, hw', fun band hband => ?_⟩
    rw [hvalid.filter_bandParts hheight r hband]
    cases hpart : r.intersect (config.bandRect band) with
    | none => simp [fillCalls, Config.fillsIn, hpage, hpart]
    | some part => simp [fillCalls, Config.fillsIn, hpage, hpart]

/-- All fills are drawn, in order. -/
theorem forM_fillRectangle (h : w.Fills config calls) (hwidth : config.width < 2147483648)
    (hheight : config.height < 2147483648) {fills : List (Rect × Color)}
    (hcolors : ∀ fill ∈ fills, fill.2.IsOf config.depth) :
    ∃ w' calls', (fills.forM fun fill => Writer.fillRectangle fill.1 fill.2) w = .ok () w' ∧
      w'.Fills config calls' ∧ ∀ band < config.nbands, calls' band =
        calls band ++ fillCalls (config.fillsIn fills band) := by
  induction fills generalizing w calls with
  | nil => exact ⟨w, calls, rfl, h, fun band _ => by simp [fillCalls, Config.fillsIn]⟩
  | cons fill fills ih =>
    obtain ⟨rect, color⟩ := fill
    obtain ⟨w₁, calls₁, hrun₁, hw₁, hcalls₁⟩ := h.fillRectangle hwidth hheight rect
      (hcolors _ List.mem_cons_self)
    obtain ⟨w₂, calls₂, hrun₂, hw₂, hcalls₂⟩ := ih hw₁ fun fill hfill =>
      hcolors fill (List.mem_cons_of_mem _ hfill)
    refine ⟨w₂, calls₂, ?_, hw₂, fun band hband => ?_⟩
    · show (Writer.fillRectangle rect color >>= fun _ => _) w = _
      rw [bind_of_ok hrun₁]
      exact hrun₂
    · rw [hcalls₂ band hband, hcalls₁ band hband, List.append_assoc]
      simp [fillCalls, Config.fillsIn]

/-- A new page has no fills. -/
theorem fresh {store : BandStore μ} (hvalid : config.Valid) (hstore : store.Contains []) :
    Fills { state := .fresh config store {} } config fun _ => [] := by
  refine ⟨rfl, rfl, rfl, rfl, synced_fresh hvalid rfl Array.size_replicate (fun band => ?_)
    (CommandBuffer.keeps_empty hstore config.bufferSize hvalid.nbands_pos)
    Array.size_replicate Array.size_replicate rfl (TileCache.entryAt_empty _ _ _) rfl
    fun im him => ?_⟩
  · by_cases hband : band < config.nbands
    · simp [WriterState.band, WriterState.fresh, hband]
    · simp [WriterState.band, WriterState.fresh, hband]
  · cases him

end Fills

end Writer

end BandedPage
