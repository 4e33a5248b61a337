import Mathlib
import BandedPage.Proofs.Imager.Agreement
import BandedPage.Proofs.Replay.Clip
import BandedPage.Proofs.Replay.Fields
import BandedPage.Proofs.Replay.Commands
import BandedPage.Proofs.Replay.Settings
import BandedPage.Proofs.Writer.Mirror

/-!
# Drafts are replayed as they are meant

Each step of a draft that tells a band something leaves a replay in the state that the draft
records.
-/

namespace BandedPage

@[simp]
theorem ColorPair.set_get (c : ColorPair) (slot : ColorSlot) : c.set slot (c.get slot) = c := by
  cases slot <;> rfl

namespace BandDraft

variable (d : BandDraft)

@[simp] theorem switchClip_state (on : Bool) :
    (d.switchClip on).state = { d.state with clipEnabled := on } := by
  rw [switchClip]
  split
  · next heq => rw [← heq]
  · rfl

@[simp] theorem useLop_state (lop : LogicalOp) (forRects : Bool) :
    (d.useLop lop forRects).state =
      { d.state with lop, lopEnabled := forRects && lop != .default } := by
  have htold : (if d.state.lop = lop then d
      else { d.emit (Command.lop lop) with state := { d.state with lop } }).state =
        { d.state with lop } := by
    split
    · next heq => rw [← heq]
    · rfl
  simp only [useLop]
  generalize (if d.state.lop = lop then d
    else { d.emit (Command.lop lop) with state := { d.state with lop } }) = d₁ at htold
  split
  · next heq => rw [← heq, htold]
  · rw [htold]

@[simp] theorem useColor_state (depth : Nat) (slot : ColorSlot) (color : Color) :
    (d.useColor depth slot color).state =
      { d.state with colors := d.state.colors.set slot color } := by
  simp only [useColor]
  split
  · next heq => rw [← heq, ColorPair.set_get]
  · rfl

@[simp] theorem useTileColor_state (depth : Nat) (slot : ColorSlot) (color : Color) :
    (d.useTileColor depth slot color).state =
      { d.state with tileColors := d.state.tileColors.set slot color } := by
  simp only [useTileColor]
  split
  · next heq => rw [← heq, ColorPair.set_get]
  · rfl

@[simp] theorem useTilePhase_state (phase : Phase) :
    (d.useTilePhase phase).state = { d.state with tilePhase := phase } := by
  rw [useTilePhase]
  split
  · next heq => rw [← heq]
  · rfl

@[simp] theorem useCopyMode_state (alpha : Bool) :
    (d.useCopyMode alpha).state = { d.state with copiesAlpha := alpha } := by
  rw [useCopyMode]
  split
  · next heq => rw [← heq]
  · rfl

@[simp] theorem useTileIndex_state (index : Nat) :
    (d.useTileIndex index).state = { d.state with tileIndex := index } := by
  rw [useTileIndex]
  split
  · next heq => rw [← heq]
  · rfl

def tellField (d : BandDraft) (s : ImagerState) (cs : ColorSpace) (f : StateField) : BandDraft :=
  { d.emit (Command.ofField s cs f) with
    state := { d.state with known := d.state.known.insert f } }

@[simp] theorem foldl_tellField (s : ImagerState) (cs : ColorSpace) (fields : List StateField)
    (d : BandDraft) :
    fields.foldl (fun d f => d.tellField s cs f) d =
      { d with
        state := { d.state with known := fields.foldl FieldSet.insert d.state.known }
        commands := d.commands ++ fields.map (Command.ofField s cs) } := by
  induction fields generalizing d with
  | nil => simp
  | cons f fields ih =>
    have hcommands : d.commands.push (Command.ofField s cs f) ++ fields.map (Command.ofField s cs) =
        d.commands ++ (f :: fields).map (Command.ofField s cs) := by
      simp
    rw [List.foldl_cons, ih, List.foldl_cons, ← hcommands]
    rfl

def fieldsToTell (d : BandDraft) (required : FieldSet) : List StateField :=
  StateField.all.filter (d.state.missing required \ .singleton .clip).contains

@[simp] theorem mem_fieldsToTell {required : FieldSet} {f : StateField} :
    f ∈ d.fieldsToTell required ↔
      required.contains f = true ∧ d.state.known.contains f = false ∧ f ≠ .clip := by
  simp only [fieldsToTell, List.mem_filter, BandState.missing, FieldSet.contains_sdiff,
    FieldSet.contains_singleton, Bool.and_eq_true, Bool.not_eq_true', decide_eq_false_iff_not,
    and_assoc]
  constructor
  · rintro ⟨-, hrequired, hknown, hne⟩
    exact ⟨hrequired, hknown, Ne.symm hne⟩
  · rintro ⟨hrequired, hknown, hne⟩
    exact ⟨StateField.mem_all f, hrequired, hknown, Ne.symm hne⟩

/-- The required fields are told one by one. -/
theorem tellFields_eq (required : FieldSet) (s : ImagerState) (cs : ColorSpace) :
    d.tellFields required s cs =
      (d.fieldsToTell required).foldl (fun d f => d.tellField s cs f) d := by
  have hknown : d.state.known ∪ (d.state.missing required \ .singleton .clip) =
      (d.fieldsToTell required).foldl FieldSet.insert d.state.known := by
    refine FieldSet.ext_contains fun f => ?_
    rw [FieldSet.contains_foldl_insert, FieldSet.contains_union]
    congr 1
    rw [Bool.eq_iff_iff, decide_eq_true_iff, mem_fieldsToTell]
    simp [BandState.missing, and_assoc, eq_comm (a := f)]
  rw [foldl_tellField, ← hknown]
  rfl

/-! ### What the steps of a draft leave alone -/

@[simp] theorem tellFields_band (required : FieldSet) (s : ImagerState) (cs : ColorSpace) :
    (d.tellFields required s cs).band = d.band := rfl

@[simp] theorem tellFields_sent (required : FieldSet) (s : ImagerState) (cs : ColorSpace) :
    (d.tellFields required s cs).sent = d.sent := rfl

@[simp] theorem switchClip_band (on : Bool) : (d.switchClip on).band = d.band := by
  rw [switchClip]
  split <;> rfl

@[simp] theorem switchClip_sent (on : Bool) : (d.switchClip on).sent = d.sent := by
  rw [switchClip]
  split <;> rfl

@[simp] theorem useLop_band (lop : LogicalOp) (forRects : Bool) :
    (d.useLop lop forRects).band = d.band := by
  simp only [useLop]
  split <;> split <;> rfl

@[simp] theorem useLop_sent (lop : LogicalOp) (forRects : Bool) :
    (d.useLop lop forRects).sent = d.sent := by
  simp only [useLop]
  split <;> split <;> rfl

@[simp] theorem useColor_band (depth : Nat) (slot : ColorSlot) (color : Color) :
    (d.useColor depth slot color).band = d.band := by
  simp only [useColor]
  split <;> rfl

@[simp] theorem useColor_sent (depth : Nat) (slot : ColorSlot) (color : Color) :
    (d.useColor depth slot color).sent = d.sent := by
  simp only [useColor]
  split <;> rfl

@[simp] theorem useTileColor_band (depth : Nat) (slot : ColorSlot) (color : Color) :
    (d.useTileColor depth slot color).band = d.band := by
  simp only [useTileColor]
  split <;> rfl

@[simp] theorem useTileColor_sent (depth : Nat) (slot : ColorSlot) (color : Color) :
    (d.useTileColor depth slot color).sent = d.sent := by
  simp only [useTileColor]
  split <;> rfl

@[simp] theorem useTilePhase_band (phase : Phase) : (d.useTilePhase phase).band = d.band := by
  rw [useTilePhase]
  split <;> rfl

@[simp] theorem useTilePhase_sent (phase : Phase) : (d.useTilePhase phase).sent = d.sent := by
  rw [useTilePhase]
  split <;> rfl

@[simp] theorem useCopyMode_band (alpha : Bool) : (d.useCopyMode alpha).band = d.band := by
  rw [useCopyMode]
  split <;> rfl

@[simp] theorem useCopyMode_sent (alpha : Bool) : (d.useCopyMode alpha).sent = d.sent := by
  rw [useCopyMode]
  split <;> rfl

@[simp] theorem useTileIndex_band (index : Nat) : (d.useTileIndex index).band = d.band := by
  rw [useTileIndex]
  split <;> rfl

@[simp] theorem useTileIndex_sent (index : Nat) : (d.useTileIndex index).sent = d.sent := by
  rw [useTileIndex]
  split <;> rfl

end BandDraft

variable {μ ν : Type} {q : Terms} {s : WriterState μ ν}

/-- A field of the current imager state that a band was told. -/
theorem Mirrors.told {band : Nat} {b : BandState} {r : ReplayState} (h : Mirrors q s band b r)
    {f : StateField} (hf : f ≠ .clip) :
    Mirrors q s band { b with known := b.known.insert f } (r.told s.imager s.colorSpace f) := by
  have hinsert : ∀ {g : StateField}, (b.known.insert f).contains g = true →
      f = g ∨ b.known.contains g = true := by
    intro g hg
    rw [FieldSet.contains_insert, Bool.or_eq_true, decide_eq_true_iff] at hg
    exact hg.symm
  refine { h with known := ?_, imager := ?_, colorSpace := ?_, clip := ?_ }
  · intro g hg
    have hlearn : (r.told s.imager s.colorSpace f).band.known = r.band.known.insert f := rfl
    rw [hlearn, FieldSet.contains_insert, Bool.or_eq_true, decide_eq_true_iff]
    exact (hinsert hg).symm.imp_left (h.known g)
  · intro hq g hg
    show (r.imager.withField s.imager.sent f).withField s.imager.sent g =
      r.imager.withField s.imager.sent f
    by_cases heq : f = g
    · subst heq
      exact ImagerState.withField_withField _ _ f
    · rw [ImagerState.withField_comm, h.imager hq g ((hinsert hg).resolve_left heq)]
  · intro hg
    show (if f = StateField.colorSpace then s.colorSpace else r.colorSpace) = s.colorSpace
    split
    · rfl
    · next heq => exact h.colorSpace ((hinsert hg).resolve_left heq)
  · intro hg
    exact h.clip ((hinsert hg).resolve_left hf)

namespace Drafted

variable {r₀ r : ReplayState} {d : BandDraft} {calls : List TargetCall}

theorem switchClip (h : Drafted q s r₀ d calls r) (on : Bool) :
    ∃ r', Drafted q s r₀ (d.switchClip on) calls r' := by
  rw [BandDraft.switchClip]
  split
  · exact ⟨r, h⟩
  · exact ⟨_, h.tell (replays_clipSwitch on) { h.mirrors with clipEnabled := rfl } rfl rfl⟩

theorem tellLop (h : Drafted q s r₀ d calls r) (lop : LogicalOp) :
    ∃ r', Drafted q s r₀ (if d.state.lop = lop then d
      else { d.emit (Command.lop lop) with state := { d.state with lop } }) calls r' := by
  split
  · exact ⟨r, h⟩
  · refine ⟨_, h.tell (replays_lop lop) { h.mirrors with lop := rfl, imager := ?_ } rfl rfl⟩
    intro hq f hf
    have := h.mirrors.imager hq f hf
    exact ImagerState.withField_withLogOp this lop

theorem useLop (h : Drafted q s r₀ d calls r) (lop : LogicalOp) (forRects : Bool) :
    ∃ r', Drafted q s r₀ (d.useLop lop forRects) calls r' := by
  obtain ⟨r₁, h₁⟩ := h.tellLop lop
  simp only [BandDraft.useLop]
  generalize (if d.state.lop = lop then d
    else { d.emit (Command.lop lop) with state := { d.state with lop } }) = d₁ at h₁
  split
  · exact ⟨r₁, h₁⟩
  · exact ⟨_, h₁.tell (replays_lopSwitch _) { h₁.mirrors with lopEnabled := rfl } rfl rfl⟩

theorem useColor (h : Drafted q s r₀ d calls r) (hdepth : s.config.depth ∈ Config.depths)
    (slot : ColorSlot) {color : Color} (hc : q.exactColors → color.IsOf s.config.depth) :
    ∃ r', Drafted q s r₀ (d.useColor s.config.depth slot color) calls r' := by
  have hm := h.mirrors
  have hsame : r.config.depth = s.config.depth := by rw [hm.config]
  simp only [BandDraft.useColor]
  split
  · exact ⟨r, h⟩
  · next hne =>
    obtain ⟨color', hreplays, heq⟩ := replays_color (s.config.bandRect d.band) slot
      (fun h => hne h.symm) (hsame ▸ hdepth)
    rw [hsame] at hreplays heq
    refine ⟨_, h.tell hreplays { hm with colors := fun hq => ?_ } rfl rfl⟩
    have hcolor := heq (by rw [hm.colors hq]) (hc hq)
    show r.band.colors.set slot color' = d.state.colors.set slot color
    rw [hcolor, hm.colors hq]

theorem useTileColor (h : Drafted q s r₀ d calls r) (hdepth : s.config.depth ∈ Config.depths)
    (slot : ColorSlot) {color : Color} (hc : q.exactColors → color.IsOf s.config.depth) :
    ∃ r', Drafted q s r₀ (d.useTileColor s.config.depth slot color) calls r' := by
  have hm := h.mirrors
  have hsame : r.config.depth = s.config.depth := by rw [hm.config]
  simp only [BandDraft.useTileColor]
  split
  · exact ⟨r, h⟩
  · next hne =>
    obtain ⟨color', hreplays, heq⟩ := replays_tileColor (s.config.bandRect d.band)
      slot (fun h => hne h.symm) (hsame ▸ hdepth)
    rw [hsame] at hreplays heq
    refine ⟨_, h.tell hreplays { hm with tileColors := fun hq => ?_ } rfl rfl⟩
    have hcolor := heq (by rw [hm.tileColors hq]) (hc hq)
    show r.band.tileColors.set slot color' = d.state.tileColors.set slot color
    rw [hcolor, hm.tileColors hq]

theorem useColors (h : Drafted q s r₀ d calls r) (hdepth : s.config.depth ∈ Config.depths)
    {colors : ColorPair} (hc : q.exactColors → ∀ slot, (colors.get slot).IsOf s.config.depth) :
    ∃ r', Drafted q s r₀ (d.useColors s.config.depth colors) calls r' := by
  obtain ⟨r₁, h₁⟩ := h.useColor hdepth .zero fun hq => hc hq .zero
  exact h₁.useColor hdepth .one fun hq => hc hq .one

theorem useTileColors (h : Drafted q s r₀ d calls r) (hdepth : s.config.depth ∈ Config.depths)
    {colors : ColorPair} (hc : q.exactColors → ∀ slot, (colors.get slot).IsOf s.config.depth) :
    ∃ r', Drafted q s r₀ (d.useTileColors s.config.depth colors) calls r' := by
  obtain ⟨r₁, h₁⟩ := h.useTileColor hdepth .zero fun hq => hc hq .zero
  exact h₁.useTileColor hdepth .one fun hq => hc hq .one

theorem useTilePhase (h : Drafted q s r₀ d calls r) {phase : Phase}
    (hx : Word.fits32 phase.x = true) (hy : Word.fits32 phase.y = true) :
    ∃ r', Drafted q s r₀ (d.useTilePhase phase) calls r' := by
  rw [BandDraft.useTilePhase]
  split
  · exact ⟨r, h⟩
  · exact ⟨_, h.tell (replays_tilePhase hx hy) { h.mirrors with tilePhase := rfl } rfl rfl⟩

theorem useCopyMode (h : Drafted q s r₀ d calls r) (alpha : Bool) :
    ∃ r', Drafted q s r₀ (d.useCopyMode alpha) calls r' := by
  rw [BandDraft.useCopyMode]
  split
  · exact ⟨r, h⟩
  · exact ⟨_, h.tell (replays_copyMode alpha) { h.mirrors with copiesAlpha := rfl } rfl rfl⟩

theorem useTileIndex (h : Drafted q s r₀ d calls r) {index : Nat} (hindex : index < 4096) :
    ∃ r', Drafted q s r₀ (d.useTileIndex index) calls r' := by
  rw [BandDraft.useTileIndex]
  split
  · exact ⟨r, h⟩
  · exact ⟨_, h.tell (replays_tileIndex hindex h.mirrors.tileIndex)
      { h.mirrors with tileIndex := rfl, tileIndex_lt := hindex } rfl rfl⟩

theorem tellFields (h : Drafted q s r₀ d calls r) (himager : s.imager.Sendable)
    (hspace : s.colorSpace.Sendable) (required : FieldSet) :
    ∃ r', Drafted q s r₀ (d.tellFields required s.imager s.colorSpace) calls r' := by
  rw [BandDraft.tellFields_eq]
  have hclip : ∀ f ∈ d.fieldsToTell required, f ≠ .clip := fun f hf =>
    (BandDraft.mem_fieldsToTell d).mp hf |>.2.2
  generalize d.fieldsToTell required = fields at hclip
  induction fields generalizing d r with
  | nil => exact ⟨r, h⟩
  | cons f fields ih =>
    have hf := hclip f List.mem_cons_self
    have h' : Drafted q s r₀ (d.tellField s.imager s.colorSpace f) calls _ :=
      h.tell (replays_ofField _ r himager hspace hf) (h.mirrors.told hf) rfl rfl
    exact ih h' fun g hg => hclip g (List.mem_cons_of_mem f hg)

/-- A rectangle is filled in its visible parts. -/
theorem fillRect (h : Drafted q s r₀ d calls r) {rect : Rect}
    (hrect : (SizedRect.ofRect rect).Within q) :
    ∃ r', Drafted q s r₀ (d.rect Opcode.fillRect rect)
      (calls ++ (r.visible (s.config.bandRect d.band) (SizedRect.ofRect rect).toRect).map
        (fillCall r.band)) r' := by
  have hm := h.mirrors
  have hd : ((SizedRect.ofRect rect).minus r.band.rect).Fits := by
    rw [hm.rect]
    exact hrect.minus_fits hm.within
  have hreplays := replays_fillRect (s.config.bandRect d.band) hrect.fits hd hm.collector
  rw [hm.rect] at hreplays
  exact ⟨_, h.emit hreplays { hm with rect := rfl, within := hrect } rfl rfl⟩

end Drafted

end BandedPage
