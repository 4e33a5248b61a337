import Mathlib
import BandedPage.Proofs.Imager.Agreement
import BandedPage.Proofs.Replay.Fields
import BandedPage.Proofs.Writer.Sync

/-!
# What is current, in step with replay

A new imager state, color space or clip becomes current without a word to any band. Bands forget the
fields that changed, so what they still know is what is current.
-/

namespace BandedPage

namespace ImagerState

/-- What is sent of a field is the same. -/
def Keeps (a b : ImagerState) (f : StateField) : Prop :=
  ∀ c : ImagerState, c.withField b.sent f = c.withField a.sent f

theorem keeps_withField_of_ne (a b : ImagerState) {f g : StateField} (hne : f ≠ g) :
    a.Keeps (a.withField b g) f := by
  intro c
  cases f <;> cases g <;> first | exact absurd rfl hne | rfl

theorem keeps_withLogOp (a : ImagerState) (lop : LogicalOp) (f : StateField) :
    a.Keeps { a with logOp := lop } f := by
  intro c
  cases f <;> rfl

theorem Keeps.trans {a b c : ImagerState} {f : StateField} (h : a.Keeps b f) (h' : b.Keeps c f) :
    a.Keeps c f :=
  fun d => (h' d).trans (h d)

/-- A state that has a field of another one agrees with it there. -/
theorem Has.agrees {a b : ImagerState} {f : StateField} (h : a.Has b f) : a.Agrees b f := by
  by_cases hdiffers : a.differs b f = true
  · have := agrees_withField a b f
    rwa [h hdiffers] at this
  · exact agrees_of_differs (by simpa using hdiffers)

end ImagerState

variable {μ ν : Type}

namespace WriterState

variable {s s' : WriterState μ ν} {new : ImagerState} {fields : List StateField}
variable {changed : FieldSet}

/-- The fields that were taken over are counted, and numbers that commands carry are taken over as
such. -/
theorem meets_adoptFields (new : ImagerState) (fields : List StateField) (s : WriterState μ ν) :
    Meets (adoptFields new fields) s
      (fun changed s' => ∃ imager, s' = { s with imager } ∧
        (∀ f, changed.contains f = false → s.imager.Keeps imager f) ∧
        (s.imager.Sendable → (Word.fits32 new.fillAdjust.x = true ∧
          Word.fits32 new.fillAdjust.y = true) → imager.Sendable))
      fun _ s' => ∃ imager, s' = { s with imager } ∧
        (s.imager.Sendable → (Word.fits32 new.fillAdjust.x = true ∧
          Word.fits32 new.fillAdjust.y = true) → imager.Sendable) := by
  induction fields generalizing s with
  | nil => exact Meets.pure ⟨s.imager, rfl, fun _ _ _ => rfl, fun h _ => h⟩
  | cons f fields ih =>
    by_cases hdiffers : s.imager.differs new f = true
    · rw [Meets, adoptFields_cons_of_differs hdiffers]
      by_cases hlong : f = .dash ∧ Dash.maxLength < new.dash.pattern.length
      · rw [if_pos hlong]
        exact ⟨s.imager, rfl, fun h _ => h⟩
      · rw [if_neg hlong]
        have hsendable : s.imager.Sendable → (Word.fits32 new.fillAdjust.x = true ∧
            Word.fits32 new.fillAdjust.y = true) → (s.imager.withField new f).Sendable := by
          intro hs hnew
          cases f with
          | dash => exact ⟨hs.fillAdjust, Nat.not_lt.mp fun hlt => hlong ⟨rfl, hlt⟩⟩
          | fillAdjust => exact ⟨hnew, hs.dash⟩
          | _ => exact ⟨hs.fillAdjust, hs.dash⟩
        refine Meets.bind ((ih { s with imager := s.imager.withField new f }).mono (fun _ _ h => h)
          fun _ s' h => ?_) fun changed s' h => Meets.pure ?_
        · obtain ⟨imager, rfl, hlast⟩ := h
          exact ⟨imager, rfl, fun hs hnew => hlast (hsendable hs hnew) hnew⟩
        · obtain ⟨imager, rfl, hkeeps, hlast⟩ := h
          refine ⟨imager, rfl, fun g hg => ?_, fun hs hnew => hlast (hsendable hs hnew) hnew⟩
          rw [FieldSet.contains_insert, Bool.or_eq_false_iff, decide_eq_false_iff_not] at hg
          exact (ImagerState.keeps_withField_of_ne _ new (Ne.symm hg.2)).trans (hkeeps g hg.1)
    · rw [Meets, adoptFields_cons_of_not_differs hdiffers]
      exact ih s

end WriterState

section

variable {q : Terms} {s s' : WriterState μ ν} {band : Nat} {b : BandState} {r : ReplayState}

/-- A band forgets what changed; what it still knows is current. -/
theorem Mirrors.forget (h : Mirrors q s band b r) {fields : FieldSet} {clip : Option ClipPath}
    (hconfig : s'.config = s.config) (himage : s'.image = s.image)
    (himager : q.exactImager → ∀ f, fields.contains f = false → s.imager.Keeps s'.imager f)
    (hspace : fields.contains .colorSpace = false → s'.colorSpace = s.colorSpace)
    (hclip : fields.contains .clip = false → ∀ c ∈ clip, c ∈ q.clip) :
    Mirrors { q with clip } s' band (b.forget fields) r := by
  have hknown : ∀ {f}, (b.forget fields).known.contains f = true →
      b.known.contains f = true ∧ fields.contains f = false := by
    intro f hf
    rw [BandState.forget, FieldSet.contains_sdiff, Bool.and_eq_true, Bool.not_eq_true'] at hf
    exact hf
  exact { h with
    config := h.config.trans hconfig.symm
    within := ⟨h.within.x, h.within.y, h.within.width, h.within.height⟩
    known := fun f hf => h.known f (hknown hf).1
    imager := fun hexact f hf =>
      (himager hexact f (hknown hf).2 r.imager).trans (h.imager hexact f (hknown hf).1)
    colorSpace := fun hf => (h.colorSpace (hknown hf).1).trans (hspace (hknown hf).2).symm
    clip := fun hf c hc => hconfig ▸ h.clip (hknown hf).1 c (hclip (hknown hf).2 c hc)
    image := himage ▸ h.image }

end

variable [Medium μ] [LawfulMedium μ]

namespace Synced

variable {q : Terms} {s s' : WriterState μ ν} {calls : Nat → List TargetCall}

/-- Something else became current, and bands forgot what changed. -/
theorem forget (h : Synced q s calls) {fields : FieldSet} {clip : Option ClipPath}
    (hs' : s' = { s with
      bands := s.bands.map (·.forget fields), imager := s'.imager, colorSpace := s'.colorSpace
      clipId := s'.clipId, params := s'.params, halftone := s'.halftone, transfers := s'.transfers })
    (himager : q.exactImager → ∀ f, fields.contains f = false → s.imager.Keeps s'.imager f)
    (hspace : fields.contains .colorSpace = false → s'.colorSpace = s.colorSpace)
    (hclip : fields.contains .clip = false → ∀ c ∈ clip, c ∈ q.clip) :
    Synced { q with clip } s' calls := by
  have hconfig : s'.config = s.config := by rw [hs']
  have htiles : s'.tiles = s.tiles := by rw [hs']
  have hbands : s'.bands = s.bands.map (·.forget fields) := by rw [hs']
  refine h.adapt hconfig (by rw [hs']) (by rw [hbands, Array.size_map]) ?_ fun band hband r hm ht => ?_
  · obtain ⟨hlayout, hheap, htable, hsendable, hnamed⟩ := h.cache
    rw [← htiles, ← hconfig] at hheap htable
    rw [← htiles] at hlayout hsendable hnamed
    exact ⟨hlayout, hheap, htable, hsendable, hnamed⟩
  · have hknows : s'.band band = (s.band band).forget fields := by
      have hlt : band < s.bands.size := h.size.symm ▸ hband
      simp [WriterState.band, hbands, hlt]
    rw [hknows]
    refine ⟨hm.forget hconfig (by rw [hs']) himager hspace hclip, ?_⟩
    have hsize : s'.tileSize = s.tileSize := by rw [hs']
    exact ⟨htiles ▸ ht.tiles, hsize ▸ ht.size⟩

/-- A clip becomes current. The one that was current has another name, unless it is the same. -/
theorem useClip (h : Synced q s calls) {clips : UInt64 → Option ClipPath}
    (hcurrent : ∀ id, s.clipId = some id → q.clip = clips id) (clip : ClipPath) :
    Synced { q with clip := clips clip.id } (s.useClip (some clip)) calls := by
  simp only [WriterState.useClip]
  split
  · next hsame =>
    rw [← hcurrent _ hsame]
    exact h
  · exact h.forget rfl (fun _ f _ _ => rfl) (fun _ => rfl)
      fun (hnot : (FieldSet.singleton .clip).contains .clip = false) => nomatch hnot

/-- A color space becomes current. -/
theorem useColorSpace (h : Synced q s calls) (space : ColorSpace) :
    Synced q (s.useColorSpace space) calls := by
  simp only [WriterState.useColorSpace]
  split
  · exact h
  · exact h.forget rfl (fun _ f _ _ => rfl)
      (fun (hnot : (FieldSet.singleton .colorSpace).contains .colorSpace = false) => nomatch hnot)
      fun _ c hc => hc

/-- What no band is told of before it is needed may change. -/
theorem setLogicalOp (h : Synced q s calls) (op : LogicalOp) :
    Synced q { s with imager := { s.imager with logOp := op } } calls :=
  h.adapt rfl rfl rfl { h.cache with } fun _ _ r hm ht =>
    ⟨{ hm with
      imager := fun hexact f hf =>
        (s.imager.keeps_withLogOp op f r.imager).trans (hm.imager hexact f hf) }, { ht with }⟩

/-- An imager state becomes current as far as it is selected. After a dash pattern that is too long
bands take more for current than is. -/
theorem updateImager (h : Synced q s calls) (new : ImagerState) (selected : FieldSet) :
    Meets (WriterState.updateImager new selected) s
      (fun _ s' => ∃ imager changed, s' = { s with imager }.forget changed ∧
        imager.logOp = new.logOp ∧ (∀ f, selected.contains f = true → imager.Agrees new f) ∧
        (s.imager.Sendable → (Word.fits32 new.fillAdjust.x = true ∧
          Word.fits32 new.fillAdjust.y = true) → imager.Sendable) ∧ Synced q s' calls)
      fun _ s' => ∃ imager, s' = { s with imager } ∧
        (s.imager.Sendable → (Word.fits32 new.fillAdjust.x = true ∧
          Word.fits32 new.fillAdjust.y = true) → imager.Sendable) ∧
        (¬ q.exactImager → Synced q s' calls) := by
  have hadopt := WriterState.meets_adoptFields new (StateField.all.filter selected.contains) s
  have himprecise : ¬ q.exactImager → ∀ imager, Synced q { s with imager } calls :=
    fun hnot imager => h.adapt rfl rfl rfl { h.cache with } fun _ _ r hm ht =>
      ⟨{ hm with imager := fun hexact => absurd hexact hnot }, { ht with }⟩
  rw [WriterState.updateImager]
  cases hrun : WriterState.adoptFields new (StateField.all.filter selected.contains) s with
  | error e s' =>
    obtain ⟨imager, rfl, hsendable⟩ := hadopt.error hrun
    rw [Meets, bind_of_error hrun]
    exact ⟨imager, rfl, hsendable, fun hnot => himprecise hnot imager⟩
  | ok changed s' =>
    obtain ⟨imager, rfl, hkeeps, hsendable⟩ := hadopt.ok hrun
    obtain ⟨imager', himager, -, -, hhas⟩ := WriterState.has_of_adoptFields hrun
    rw [Meets, bind_of_ok hrun]
    have hsame : imager' = imager := congrArg WriterState.imager himager.symm
    subst hsame
    refine ⟨{ imager' with logOp := new.logOp }, changed, rfl, rfl, fun f hf => ?_,
      fun hs hnew => ⟨(hsendable hs hnew).fillAdjust, (hsendable hs hnew).dash⟩, ?_⟩
    · have := (hhas f (List.mem_filter.mpr ⟨f.mem_all, hf⟩)).1.agrees
      cases f <;> exact this
    · exact h.forget rfl (fun _ f hf => (hkeeps f hf).trans (imager'.keeps_withLogOp new.logOp f))
        (fun _ => rfl) fun _ c hc => hc

end Synced

end BandedPage
