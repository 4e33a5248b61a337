import Mathlib
import BandedPage.Proofs.Replay.Clip
import BandedPage.Proofs.Writer.Drafting

/-!
# Clips in step with replay

A band that is told a clip then shows what the clip shows.
-/

namespace BandedPage

variable {μ ν : Type} {q : Terms} {s : WriterState μ ν}

def ClipPath.Within (q : Terms) (clip : ClipPath) : Prop :=
  ∀ rect ∈ clip.rects, (SizedRect.ofRect rect).Within q

/-- Commands carry rectangles of which all numbers are allowed. -/
theorem carried_of_within {last : SizedRect} {rects : List Rect} (hlast : last.Within q)
    (hrects : ∀ rect ∈ rects, (SizedRect.ofRect rect).Within q) :
    Rect.Carried last rects ∧ (SizedRect.lastOf last rects).Within q := by
  induction rects generalizing last with
  | nil => exact ⟨trivial, hlast⟩
  | cons rect rects ih =>
    have hrect := hrects rect List.mem_cons_self
    obtain ⟨hcarried, hlast'⟩ := ih hrect fun r hr => hrects r (List.mem_cons_of_mem rect hr)
    exact ⟨⟨hrect.fits, hrect.minus_fits hlast, hcarried⟩, hlast'⟩

namespace BandDraft

@[simp] theorem foldl_rect (base : UInt8) (rects : List Rect) (d : BandDraft) :
    rects.foldl (fun d r => d.rect base r) d =
      { d with
        commands := d.commands ++ RectCommand.encodeAll base d.state.rect rects
        state := { d.state with rect := .lastOf d.state.rect rects } } := by
  induction rects generalizing d with
  | nil => simp [RectCommand.encodeAll, SizedRect.lastOf]
  | cons rect rects ih =>
    rw [List.foldl_cons, ih]
    simp [RectCommand.encodeAll, SizedRect.lastOf, BandDraft.rect, BandDraft.emit]

/-- A band that does not know a clip is told one. -/
theorem tellClip_eq {d : BandDraft} (h : d.state.known.contains .clip = false) (area : Rect)
    (clip : ClipPath) :
    d.tellClip area clip =
      { d with
        commands := d.commands ++ clip.commands area d.state.rect
        state := { d.state with
          rect := .lastOf d.state.rect (clip.rectsInRows area.y1 area.y2)
          known := d.state.known.insert .clip } } := by
  have hcommands : ∀ rects : List Command, ((d.commands.push Command.beginClip) ++ rects).push
      (Command.endClip clip.outside) =
        d.commands ++ (Command.beginClip :: (rects ++ [Command.endClip clip.outside])) := by
    intro rects
    refine Array.ext' ?_
    simp
  rw [tellClip, if_neg (by simp [h])]
  simp [BandDraft.emit, ClipPath.commands, hcommands]

@[simp] theorem tellClip_band (d : BandDraft) (area : Rect) (clip : ClipPath) :
    (d.tellClip area clip).band = d.band := by
  cases h : d.state.known.contains .clip with
  | true => rw [tellClip, if_pos h]
  | false => rw [tellClip_eq h]

@[simp] theorem useClip_band (d : BandDraft) (area : Rect) (clip : Option ClipPath) :
    (d.useClip area clip).band = d.band := by
  cases clip with
  | none => exact switchClip_band d false
  | some clip =>
    show ((d.tellClip area clip).switchClip true).band = _
    simp

/-- A band that draws with a clip was told a clip. -/
theorem useClip_state (d : BandDraft) (area : Rect) (clip : Option ClipPath) :
    (d.useClip area clip).state.clipEnabled = clip.isSome ∧
      (clip.isSome = true → (d.useClip area clip).state.known.contains .clip = true) := by
  cases clip with
  | none =>
    refine ⟨?_, fun h => by cases h⟩
    show (d.switchClip false).state.clipEnabled = false
    rw [switchClip_state]
  | some clip =>
    show ((d.tellClip area clip).switchClip true).state.clipEnabled = true ∧
      (true = true → ((d.tellClip area clip).switchClip true).state.known.contains .clip = true)
    rw [switchClip_state]
    refine ⟨rfl, fun _ => ?_⟩
    show (d.tellClip area clip).state.known.contains .clip = true
    rw [tellClip]
    split
    · assumption
    · simp

/-- What a band is sent to draw with a clip that it does not know. -/
theorem toList_useClip {b : BandState} (hknown : b.known.contains .clip = false) (band : Nat)
    (area : Rect) (clip : ClipPath) :
    (({ band, state := b } : BandDraft).useClip area (some clip)).commands.toList =
      clip.commands area b.rect ++ if b.clipEnabled then [] else [Command.clipSwitch true] := by
  rw [useClip, tellClip_eq (d := { band, state := b }) hknown, switchClip]
  cases hon : b.clipEnabled with
  | true => simp
  | false => simp [emit]

/-- A band that does not know a clip is told it, and then draws with it. -/
theorem replaysAll_useClip {r : ReplayState} {b : BandState} {clip : ClipPath} {area : Rect}
    (hknown : b.known.contains .clip = false) (hrect : r.band.rect = b.rect)
    (henabled : r.band.clipEnabled = b.clipEnabled)
    (hcarried : Rect.Carried b.rect (clip.rectsInRows area.y1 area.y2)) (band : Nat) :
    ∃ r', ReplaysAll area
        (({ band, state := b } : BandDraft).useClip area (some clip)).commands.toList r [] r' ∧
      r'.band.clipEnabled = true ∧ r'.clip = clip.regionIn area := by
  have hclip := replaysAll_clip (hrect ▸ hcarried)
  rw [hrect] at hclip
  rw [toList_useClip hknown]
  cases hon : b.clipEnabled with
  | true =>
    rw [if_pos rfl, List.append_nil]
    exact ⟨_, hclip, henabled.trans hon, rfl⟩
  | false =>
    have hswitch : ReplaysAll area [Command.clipSwitch true] (r.withClip clip area) []
        { r.withClip clip area with
          band := { (r.withClip clip area).band with clipEnabled := true } } :=
      .single (replays_clipSwitch true)
    exact ⟨_, hclip.append hswitch, rfl, rfl⟩

/-- What a band is sent for a clip that it does not know leaves of every rectangle just what the
clip shows of it within the band, in pieces that lie apart. -/
theorem visible_of_useClip (config : Config) (band : Nat) (clip : ClipPath) (b : BandState)
    (r : ReplayState) (hknown : b.known.contains .clip = false) (hrect : r.band.rect = b.rect)
    (henabled : r.band.clipEnabled = b.clipEnabled)
    (hcarried : Rect.Carried b.rect
      (clip.rectsInRows (config.bandRect band).y1 (config.bandRect band).y2))
    {σ τ : Type} [ByteSource σ] [LawfulSource σ] [Target τ] (source : σ) (target : τ)
    (rest : List UInt8)
    (hsource : LawfulSource.Holds source
      ((({ band, state := b } : BandDraft).useClip (config.bandRect band)
        (some clip)).commands.toList.flatten ++ Opcode.endPage :: rest))
    (hbox : Target.clipBox target = config.bandRect band) :
    ∃ source' r', Replay.run ⟨source, target, r⟩ = .ok () ⟨source', target, r'⟩ ∧
      LawfulSource.Holds source' rest ∧
      ∀ rect, (r'.visible (Target.clipBox target) rect).Pairwise Rect.Apart ∧
        ∀ x y, Rect.Covered (r'.visible (Target.clipBox target) rect) x y ↔
          rect.HasPixel x y ∧ (config.bandRect band).HasPixel x y ∧ clip.Shows x y := by
  obtain ⟨r', hreplays, hon, hregion⟩ := replaysAll_useClip hknown hrect henabled hcarried
    band
  have haccepts : TargetCall.Accepts _ [] target target := ⟨rfl, hbox⟩
  obtain ⟨source', hrun, hrest⟩ := Replay.run_eq hreplays hsource haccepts
  refine ⟨source', r', hrun, hrest, fun rect => ?_⟩
  rw [hbox]
  exact ReplayState.visible_regionIn hon hregion rect

/-- What a band is sent for two rectangles that overlap, to draw outside them. -/
theorem visible_of_useClip_outside :
    let clip : ClipPath := { id := 1, rects := [⟨0, 0, 20, 20⟩, ⟨10, 10, 30, 90⟩], outside := true }
    let target : ClipCollector := { clipBox := (default : Config).bandRect 0 }
    let source : Cursor := { rest :=
      (({ band := 0, state := {} } : BandDraft).useClip ((default : Config).bandRect 0)
        (some clip)).commands.toList.flatten ++ [Opcode.endPage] }
    ∃ source' r', Replay.run ⟨source, target, .fresh default⟩ = .ok () ⟨source', target, r'⟩ ∧
      LawfulSource.Holds source' [] ∧
      ∀ rect, (r'.visible (Target.clipBox target) rect).Pairwise Rect.Apart ∧
        ∀ x y, Rect.Covered (r'.visible (Target.clipBox target) rect) x y ↔
          rect.HasPixel x y ∧ ((default : Config).bandRect 0).HasPixel x y ∧ clip.Shows x y := by
  intro clip target source
  exact visible_of_useClip default 0 clip {} (.fresh default) rfl rfl rfl (by decide) source target
    [] rfl rfl

end BandDraft

namespace Drafted

variable {r₀ r : ReplayState} {d : BandDraft} {calls : List TargetCall}

theorem tellClip (h : Drafted q s r₀ d calls r) {clip : ClipPath} (hwithin : clip.Within q)
    (hclip : ∀ c ∈ q.clip, c = clip) :
    ∃ r', Drafted q s r₀ (d.tellClip (s.config.bandRect d.band) clip) calls r' := by
  cases hknown : d.state.known.contains .clip with
  | true => exact ⟨r, by rw [BandDraft.tellClip, if_pos hknown]; exact h⟩
  | false =>
    obtain ⟨box, hbox⟩ : ∃ box, box = s.config.bandRect d.band := ⟨_, rfl⟩
    obtain ⟨hcarried, hlast⟩ := carried_of_within h.mirrors.within
      fun rect (hrect : rect ∈ clip.rectsInRows box.y1 box.y2) =>
        hwithin rect (List.mem_filter.mp hrect).1
    have hm := h.mirrors
    rw [← hm.rect] at hcarried
    have hreplays := replaysAll_clip hcarried
    have hinsert : ∀ {g : StateField}, g ≠ .clip →
        (d.state.known.insert .clip).contains g = true → d.state.known.contains g = true := by
      intro g hg hmem
      rw [FieldSet.contains_insert, Bool.or_eq_true, decide_eq_true_iff] at hmem
      exact hmem.resolve_right (Ne.symm hg)
    rw [← hbox, BandDraft.tellClip_eq hknown]
    refine ⟨r.withClip clip box, ?_, ?_, h.tileSize, h.tiles⟩
    · have := h.replays.append (hbox ▸ hreplays)
      rw [hm.rect] at this
      simpa [hbox] using this
    · refine { hm with
        rect := ?_, within := hlast, known := ?_, imager := ?_, colorSpace := ?_, clip := ?_
        collector := rfl }
      · show SizedRect.lastOf r.band.rect _ = _
        rw [hm.rect]
      · intro g hg
        show (r.band.known.insert .clip).contains g = true
        by_cases heq : g = .clip
        · simp [heq]
        · simp [hm.known g (hinsert heq hg)]
      · intro hq g hg
        by_cases heq : g = .clip
        · rw [heq]
          rfl
        · exact hm.imager hq g (hinsert heq hg)
      · intro hg
        exact hm.colorSpace (hinsert (by decide) hg)
      · rintro - c hc
        rw [hclip c hc, ← hbox]
        rfl

theorem useClip (h : Drafted q s r₀ d calls r) {clip : Option ClipPath}
    (hwithin : ∀ c ∈ clip, c.Within q) (hclip : ∀ c ∈ clip, ∀ c' ∈ q.clip, c' = c) :
    ∃ r', Drafted q s r₀ (d.useClip (s.config.bandRect d.band) clip) calls r' := by
  cases clip with
  | none => exact h.switchClip false
  | some clip =>
    obtain ⟨r₁, h₁⟩ := h.tellClip (hwithin clip rfl) (hclip clip rfl)
    exact h₁.switchClip true

end Drafted

end BandedPage
