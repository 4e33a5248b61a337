import Mathlib
import BandedPage.Proofs.Replay.Commands
import BandedPage.Proofs.Writer.Current
import BandedPage.Proofs.Writer.Operations
import BandedPage.Writer.Image

/-!
# Images in step with replay

An image begins in a band with the first rows that the band is sent, whatever has become current
since it was begun on the page. When its rows are refused the band has been told of the image all the
same, and is told the rows alone next time.
-/

namespace BandedPage

namespace OpenImage

/-- The image but for the bands in which it has begun. -/
def unstarted (im : OpenImage) : OpenImage := { im with started := .empty 0 }

/-- What commands carry of an image. -/
structure Fits (im : OpenImage) (q : Terms) (config : Config) : Prop where
  width : im.header.width < 4294967296
  height : im.header.height < 4294967296
  mask : im.header.mask = true → im.header.bitsPerComponent = 1
  space : im.space.Sendable
  fillAdjust : Word.fits32 im.state.fillAdjust.x = true ∧ Word.fits32 im.state.fillAdjust.y = true
  color : ∀ color, im.color = .pure color → q.exactColors → color.IsOf config.depth
  clip : ∀ clip ∈ im.clip, clip.Within q

/-- The call that begins what is left of the image. -/
def BegunBy (im : OpenImage) (call : TargetCall) : Prop :=
  ∃ state color clip, call = .beginImage state (im.remaining.sent im.space) im.space color clip

theorem remaining_eq (im : OpenImage) : im.remaining = { im.header with rect := im.remaining.rect } := by
  rw [remaining]
  split <;> rfl

/-- What is left of an image has as many planes. -/
theorem planes_remaining (im : OpenImage) (hmask : im.header.mask = true → im.header.bitsPerComponent = 1) :
    (im.remaining.sent im.space).planes im.space = im.header.planes im.space := by
  rw [ImageHeader.sent_planes (by rw [remaining_eq]; exact hmask), remaining_eq]
  rfl

end OpenImage

namespace BandDraft

/-- The draft of an image up to the command that begins it. -/
def forImage (d : BandDraft) (area : Rect) (im : OpenImage) (imager : ImagerState)
    (space : ColorSpace) (depth : Nat) : BandDraft :=
  let d := ((d.tellFields .image imager space).useClip area im.clip).useLop imager.logOp false
  match im.header.mask, im.color with
  | true, .pure color => d.useColor depth .one color
  | _, _ => d

@[simp] theorem forImage_band (d : BandDraft) (area : Rect) (im : OpenImage) (imager : ImagerState)
    (space : ColorSpace) (depth : Nat) : (d.forImage area im imager space depth).band = d.band := by
  rw [forImage]
  split
  · simp
  · simp

/-- A band that is about to begin an image knows the image's color space. -/
theorem forImage_known (d : BandDraft) (area : Rect) (im : OpenImage) (imager : ImagerState)
    (space : ColorSpace) (depth : Nat) :
    (d.forImage area im imager space depth).state.known.contains .colorSpace = true := by
  have hknown : ((d.tellFields .image imager space).useClip area im.clip).state.known.contains
      .colorSpace = true := by
    rw [contains_useClip, contains_tellFields]
    simp [show FieldSet.image.contains .colorSpace = true by decide]
  rw [forImage]
  split
  · rw [useColor_state, useLop_state]
    exact hknown
  · rw [useLop_state]
    exact hknown

end BandDraft

namespace WriterState

variable {μ ν : Type}

/-- The same page is written with the same image, in whatever bands it has begun. A clip that is
current was current before. -/
structure SamePage (s s' : WriterState μ ν) : Prop where
  config : s'.config = s.config
  params : s'.params = s.params
  halftone : s'.halftone = s.halftone
  transfers : s'.transfers = s.transfers
  image : s'.image.map OpenImage.unstarted = s.image.map OpenImage.unstarted
  clipId : ∀ id, s'.clipId = some id → s.clipId = some id

variable {s s' s'' : WriterState μ ν}

theorem SamePage.refl (s : WriterState μ ν) : s.SamePage s := ⟨rfl, rfl, rfl, rfl, rfl, fun _ h => h⟩

theorem SamePage.trans (h : s.SamePage s') (h' : s'.SamePage s'') : s.SamePage s'' :=
  ⟨h'.config.trans h.config, h'.params.trans h.params, h'.halftone.trans h.halftone,
    h'.transfers.trans h.transfers, h'.image.trans h.image, fun id hid => h.clipId id (h'.clipId id hid)⟩

theorem alike_useColorSpace (s : WriterState μ ν) (space : ColorSpace) :
    ({ s with colorSpace := space } : WriterState μ ν).Alike (s.useColorSpace space) := by
  rw [useColorSpace]
  split
  · next heq => exact ⟨rfl, rfl, rfl, heq, rfl, rfl, rfl, rfl⟩
  · exact ⟨rfl, rfl, rfl, rfl, rfl, rfl, rfl, rfl⟩

end WriterState

variable {μ ν : Type} {q : Terms} {s : WriterState μ ν} {band : Nat} {im : OpenImage}

/-- An image is begun in a band when its state and its color space are current. -/
theorem drafts_beginImage (himager : s.imager.Sendable) (hspace : s.colorSpace = im.space)
    (hdepth : s.config.depth ∈ Config.depths) (himage : s.image = some im)
    (hfits : im.Fits q s.config) (hclip : q.clip = none) {c : Command}
    (hc : Command.imageBegin im.remaining im.space = .ok c) {r₀ : ReplayState}
    (hm : Mirrors q s band (s.band band) r₀) :
    ∃ call r, im.BegunBy call ∧
      Drafted q s r₀ ((BandDraft.forImage { band, state := s.band band } (s.config.bandRect band) im
        s.imager s.colorSpace s.config.depth).emit c) [call] r ∧
      r.image = some (im.remaining.sent im.space, im.space) := by
  obtain ⟨d, hd⟩ : ∃ d, d = BandDraft.forImage { band, state := s.band band }
    (s.config.bandRect band) im s.imager s.colorSpace s.config.depth := ⟨_, rfl⟩
  have hknown := BandDraft.forImage_known { band, state := s.band band } (s.config.bandRect band) im
    s.imager s.colorSpace s.config.depth
  obtain ⟨r₁, h₁⟩ := (Drafted.start hm).tellFields himager (hspace ▸ hfits.space) .image
  obtain ⟨r₂, h₂⟩ := h₁.useClip hfits.clip fun clip _ c' hc' => by
    rw [hclip] at hc'
    cases hc'
  obtain ⟨r₃, h₃⟩ := h₂.useLop s.imager.logOp false
  have hd' : ∃ r, Drafted q s r₀ d [] r := by
    rw [hd, BandDraft.forImage]
    split
    · next color _ hcolor =>
      exact h₃.useColor hdepth .one (hfits.color color hcolor)
    · exact ⟨r₃, h₃⟩
  obtain ⟨r, h⟩ := hd'
  rw [← hd] at hknown ⊢
  have hbegin : Replays (s.config.bandRect d.band) c r _ _ :=
    replays_imageBegin hc ((h.mirrors.colorSpace hknown).trans hspace)
      (by rw [im.remaining_eq]; exact hfits.width) (by rw [im.remaining_eq]; exact hfits.height)
  refine ⟨_, _, ⟨_, _, _, rfl⟩, h.emit hbegin { h.mirrors with
    imager := fun hexact f hf => ?_
    image := fun im' him' _ _ => ?_ } rfl rfl, rfl⟩
  · exact ImagerState.withField_withLogOp (h.mirrors.imager hexact f hf) _
  · rw [himage] at him'
    cases him'
    exact ⟨_, _, rfl, im.planes_remaining hfits.mask⟩

namespace Synced

variable [Medium μ] [LawfulMedium μ] [MemoryPolicy μ ν] {calls : Nat → List TargetCall}

/-- An image begins in a band, or the band is told nothing. -/
theorem beginImageBand (h : Synced q s calls) (hexact : ¬ q.exactImager)
    (himager : s.imager.Sendable) (himage : s.image = some im) (hfits : im.Fits q s.config)
    (hclip : q.clip = none) (hband : band < s.config.nbands) :
    Meets (WriterState.beginImageBand band im) s
      (fun _ s' => (∃ imager, imager.Sendable ∧
          ({ s with imager, colorSpace := im.space } : WriterState μ ν).Alike s') ∧
        ∃ call, im.BegunBy call ∧ Synced q (s'.markStarted band) (extendCalls calls band [call]))
      fun _ s' => (∃ imager, imager.Sendable ∧
          ({ s with imager, colorSpace := im.space } : WriterState μ ν).Alike s') ∧
        Synced q s' calls := by
  have halike := s.alike_useColorSpace im.space
  have h₁ := h.useColorSpace im.space
  refine Meets.bind (P := fun _ s₁ => s₁ = s.useColorSpace im.space) (Meets.modify rfl) fun _ s₁ hs₁ => ?_
  rw [← hs₁] at h₁ halike
  refine ((h₁.updateImager im.state .image).mono (fun _ _ h => h) fun _ s₂ h₂ => ?_).bind
    fun _ s₂ h₂ => ?_
  · obtain ⟨imager, rfl, hsendable, hsynced⟩ := h₂
    refine ⟨⟨imager, hsendable (halike.imager ▸ himager) hfits.fillAdjust, ?_⟩, hsynced hexact⟩
    exact { halike with imager := rfl }
  · obtain ⟨imager, changed, hs₂, -, -, hsendable, hsynced⟩ := h₂
    have halike₂ : ({ s with imager, colorSpace := im.space } : WriterState μ ν).Alike s₂ := by
      rw [hs₂]
      exact { halike with imager := rfl }
    have himager₂ := hsendable (halike.imager ▸ himager) hfits.fillAdjust
    have himage₂ : s₂.image = some im := halike₂.image.trans himage
    have hconfig₂ : s₂.config = s.config := halike₂.config
    have hspace₂ : s₂.colorSpace = im.space := halike₂.colorSpace
    refine .get_bind (.get_bind (.get_bind ?_))
    cases hc : Command.imageBegin im.remaining im.space with
    | error e =>
      exact Meets.of_error (bind_of_error (lift_error_run e s₂) _) ⟨⟨imager, himager₂, halike₂⟩, hsynced⟩
    | ok c =>
      obtain ⟨d, hd⟩ : ∃ d, d = (BandDraft.forImage { band, state := s₂.band band }
        (s₂.config.bandRect band) im s₂.imager s₂.colorSpace s₂.config.depth).emit c := ⟨_, rfl⟩
      have hdband : d.band = band := by
        rw [hd]
        exact BandDraft.forImage_band ..
      have hdrafted : ∀ r₀, Mirrors q s₂ d.band (s₂.band d.band) r₀ → s₂.TilesReach q d.band r₀ →
          ∃ more r, (∃ call, im.BegunBy call ∧ more = [call]) ∧ Drafted q s₂ r₀ d more r ∧
            r.image = some (im.remaining.sent im.space, im.space) := by
        intro r₀ hm _
        rw [hdband] at hm
        obtain ⟨call, r, hcall, hdrafted, hr⟩ := drafts_beginImage
          (show s₂.imager.Sendable by rw [hs₂]; exact himager₂) hspace₂ (hsynced.valid.depth) himage₂
          (hconfig₂ ▸ hfits) hclip hc hm
        exact ⟨[call], r, ⟨call, hcall, rfl⟩, hd ▸ hdrafted, hr⟩
      have hcommit := hsynced.commitThen hdrafted (by rw [hdband, hconfig₂]; exact hband)
        (·.map fun im => { im with started := im.started.insert band })
        (fun r hm hr => { hm with image := fun im' him' _ _ => ?_ })
        fun other r hne hm => { hm with image := fun im' him' hended hin => ?_ }
      · rcases hcommit with ⟨s', more, hrun, hs', -, ⟨call, hcall, rfl⟩, hsynced'⟩ | ⟨e, memory, hrun⟩
        · rw [hd] at hrun
          refine Meets.of_ok ((lift_ok_bind_run ..).trans hrun) ?_
          exact ⟨⟨imager, himager₂, halike₂.trans hs'⟩, call, hcall, hdband ▸ hsynced'⟩
        · rw [hd] at hrun
          refine Meets.of_error ((lift_ok_bind_run ..).trans hrun) ?_
          exact ⟨⟨imager, himager₂, halike₂.trans ⟨rfl, rfl, rfl, rfl, rfl, rfl, rfl, rfl⟩⟩,
            hsynced.withMemory memory⟩
      · obtain ⟨im₀, him₀, rfl⟩ := Option.mem_map.mp him'
        rw [himage₂] at him₀
        cases him₀
        exact ⟨_, _, hr, im.planes_remaining hfits.mask⟩
      · obtain ⟨im₀, him₀, rfl⟩ := Option.mem_map.mp him'
        refine hm.image im₀ him₀ hended ?_
        rwa [BandSet.contains_insert_of_ne _ (hdband ▸ hne.symm)] at hin

end Synced

end BandedPage
