import Mathlib
import BandedPage.Proofs.Imager.Agreement
import BandedPage.Proofs.Writer.Resumed
import BandedPage.Writer.Image

/-!
# Images resume

Rows of an image begin the image in a band if need be, and then it has begun there. To begin it, its
state is made current, which does nothing when it is done again.
-/

namespace BandedPage.WriterState

section

variable {μ ν : Type}

theorem useColorSpace_eq (s : WriterState μ ν) (cs : ColorSpace) :
    ∃ bands, s.useColorSpace cs = { s with colorSpace := cs, bands } ∧
      s.unlimited.useColorSpace cs = { s.unlimited with colorSpace := cs, bands } := by
  by_cases h : s.colorSpace = cs
  · have h' : s.unlimited.colorSpace = cs := h
    refine ⟨s.bands, ?_⟩
    rw [useColorSpace, useColorSpace, if_pos h, if_pos h', ← h]
    exact ⟨rfl, rfl⟩
  · have h' : ¬ s.unlimited.colorSpace = cs := h
    rw [useColorSpace, useColorSpace, if_neg h, if_neg h']
    exact ⟨_, rfl, rfl⟩

@[simp]
theorem useColorSpace_self (s : WriterState μ ν) : s.useColorSpace s.colorSpace = s := if_pos rfl

def useImageState (im : OpenImage) : WriteM μ ν Unit := do
  modify (·.useColorSpace im.space)
  updateImager im.state .image

/-- The state of an image becomes current in the same way however memory is got. Where it is current,
nothing happens. -/
theorem useImageState_cases (im : OpenImage) (s : WriterState μ ν) :
    ∃ colorSpace imager bands,
      (useImageState im s = .ok () { s with colorSpace, imager, bands } ∧
        useImageState im s.unlimited = .ok () { s.unlimited with colorSpace, imager, bands } ∧
        useImageState im { s.unlimited with colorSpace, imager, bands } =
          .ok () { s.unlimited with colorSpace, imager, bands }) ∨
      ∃ e, e.isRetryable = false ∧
        useImageState im s = .error e { s with colorSpace, imager, bands } ∧
        useImageState im s.unlimited = .error e { s.unlimited with colorSpace, imager, bands } := by
  have hrun : ∀ {ν : Type} (s : WriterState μ ν),
      useImageState im s = updateImager im.state .image (s.useColorSpace im.space) := fun _ => rfl
  obtain ⟨bands, hspace, hspace'⟩ := useColorSpace_eq s im.space
  rw [hrun, hrun, hspace, hspace']
  rcases updateImager_cases (μ := μ) im.state .image s.imager with
    ⟨changed, imager, hupdate⟩ | ⟨e, imager, hretry, hupdate⟩
  · have hok := hupdate { s with colorSpace := im.space, bands } rfl
    have hok' := hupdate { s.unlimited with colorSpace := im.space, bands } rfl
    have hagain := updateImager_again hok'
    refine ⟨im.space, imager, bands.map fun b : BandState => b.forget changed, .inl ⟨hok, hok', ?_⟩⟩
    rw [hrun]
    refine Eq.trans ?_ hagain
    exact congrArg (updateImager im.state .image) (useColorSpace_self _)
  · have herror' := hupdate { s.unlimited with colorSpace := im.space, bands } rfl
    exact ⟨im.space, imager, bands, .inr ⟨e, hretry, hupdate _ rfl, herror'⟩⟩

end

variable {μ ν α β : Type} [Medium μ] [LawfulMedium μ]

/-- In a state that is `ok` the operation resumes, and it does nothing where it has succeeded. -/
def SettlesWhen (ok : WriterState μ (Watched μ ν) → Prop) (op : WriteM μ (Watched μ ν) α)
    (op' : WriteM μ Unlimited α) : Prop :=
  ∀ s, s.buffer.Stored → ok s → match op s with
    | .ok a s' => s.Stays s' ∧ op' s.unlimited = .ok a s'.unlimited ∧
      op' s'.unlimited = .ok a s'.unlimited
    | .error e s' => s.Stays s' ∧
      if e.isRetryable then op' s'.unlimited = op' s.unlimited
      else op' s.unlimited = .error e s'.unlimited

/-- A step that is done or not done at all may follow what settles. -/
theorem SettlesWhen.bind {ok : WriterState μ (Watched μ ν) → Prop}
    {op : WriteM μ (Watched μ ν) α} {op' : WriteM μ Unlimited α} (h : SettlesWhen ok op op')
    {last : α → WriteM μ (Watched μ ν) β} {last' : α → WriteM μ Unlimited β}
    (hlast : ∀ a, Atomic (last a) (last' a)) : ResumesWhen ok (op >>= last) (op' >>= last') := by
  intro s hs hok
  have ho := h s hs hok
  cases hrun : op s with
  | error e s₁ =>
    rw [hrun] at ho
    obtain ⟨hstays, hresult⟩ := ho
    rw [bind_of_error hrun]
    refine ⟨hstays, ?_⟩
    split
    · next hretry =>
      rw [if_pos hretry] at hresult
      exact bind_of_same hresult _
    · next hretry =>
      rw [if_neg hretry] at hresult
      exact bind_of_error hresult _
  | ok a s₁ =>
    rw [hrun] at ho
    obtain ⟨hstays, hresult, hagain⟩ := ho
    have hrun' : (op' >>= last') s.unlimited = last' a s₁.unlimited := bind_of_ok hresult _
    rw [bind_of_ok hrun, hrun']
    have hl := hlast a s₁ hstays.stored
    cases hlastRun : last a s₁ with
    | ok b s₂ =>
      rw [hlastRun] at hl
      exact ⟨hstays.trans hl.1, hl.2⟩
    | error e s₂ =>
      rw [hlastRun] at hl
      refine ⟨hstays.trans hl.1, ?_⟩
      split
      · next hretry =>
        have hsame : s₂.unlimited = s₁.unlimited := by simpa [hretry] using hl.2
        rw [hsame]
        exact bind_of_ok hagain _
      · next hretry => simpa [hretry] using hl.2

theorem settles_useImageState (im : OpenImage) :
    SettlesWhen (fun _ => True) (useImageState im : WriteM μ (Watched μ ν) Unit)
      (useImageState im) := by
  intro s hs _
  obtain ⟨colorSpace, imager, bands, ⟨hok, hok', hagain⟩ | ⟨e, hretry, herror, herror'⟩⟩ :=
    useImageState_cases im s
  · rw [hok]
    exact ⟨.of_eq hs rfl rfl rfl rfl, hok', hagain⟩
  · rw [herror]
    refine ⟨.of_eq hs rfl rfl rfl rfl, ?_⟩
    rw [if_neg (by simp [hretry])]
    exact herror'

/-- The draft in which an image begins. -/
def imageDraft (s : WriterState μ ν) (band : Nat) (im : OpenImage) : BandDraft :=
  let d := { band, state := s.band band : BandDraft }.tellFields .image s.imager s.colorSpace
  let d := (d.useClip (s.config.bandRect band) im.clip).useLop s.imager.logOp false
  match im.header.mask, im.color with
  | true, .pure color => d.useColor s.config.depth .one color
  | _, _ => d

variable [MemoryPolicy μ ν]

def startImage (band : Nat) (im : OpenImage) : WriteM μ ν Unit := do
  let s ← get
  let begin ← Command.imageBegin im.remaining im.space
  commit ((s.imageDraft band im).emit begin)

omit [LawfulMedium μ] in
theorem beginImageBand_eq (band : Nat) (im : OpenImage) :
    (beginImageBand band im : WriteM μ ν Unit) =
      useImageState im >>= fun _ => startImage band im := by
  rw [useImageState, bind_assoc]
  simp only [beginImageBand]
  refine congrArg _ (funext fun _ => congrArg _ (funext fun _ => ?_))
  funext s
  simp only [get_bind_run, startImage]
  rfl

omit [LawfulMedium μ] in
/-- The image itself stays what it is. -/
theorem commit_image (d : BandDraft) (s : WriterState μ ν) :
    match commit d s with
    | .ok _ s' => s'.image = s.image
    | .error _ s' => s'.image = s.image := by
  obtain ⟨memory, buffer, hput | ⟨e, hput⟩⟩ := putBatch_eq (.band d.band) d.commands.toList s
  · simp [commit, bind_of_ok hput]
  · rw [commit, bind_of_error hput]

theorem atomic_startImage (hlack : MemoryPolicy.RefusesForLack μ ν) (band : Nat) (im : OpenImage) :
    Atomic (startImage band im : WriteM μ (Watched μ ν) Unit) (startImage band im) := by
  intro s hs
  simp only [startImage, get_bind_run]
  have hdraft : s.unlimited.imageDraft band im = s.imageDraft band im := rfl
  cases hbegin : Command.imageBegin im.remaining im.space with
  | ok begin =>
    rw [hdraft]
    exact atomic_commit hlack _ s hs
  | error e =>
    have hretry := NeverLacks.imageBegin _ _ e hbegin
    refine ⟨.of_eq hs rfl rfl rfl rfl, ?_⟩
    rw [if_neg (by simp [hretry])]
    rfl

theorem resumes_beginImageBand (hlack : MemoryPolicy.RefusesForLack μ ν) (band : Nat)
    (im : OpenImage) :
    Resumes (beginImageBand band im : WriteM μ (Watched μ ν) Unit) (beginImageBand band im) := by
  rw [beginImageBand_eq, beginImageBand_eq]
  exact (settles_useImageState im).bind fun _ => atomic_startImage hlack band im

omit [LawfulMedium μ] in
/-- Beginning an image in a band leaves the image itself what it is. -/
theorem beginImageBand_image (band : Nat) (im : OpenImage) (s : WriterState μ ν) :
    match beginImageBand band im s with
    | .ok _ s' => s'.image = s.image
    | .error _ s' => s'.image = s.image := by
  obtain ⟨colorSpace, imager, bands, ⟨hok, -, -⟩ | ⟨e, -, herror, -⟩⟩ := useImageState_cases im s
  · rw [beginImageBand_eq, bind_of_ok hok, startImage, get_bind_run]
    cases Command.imageBegin im.remaining im.space with
    | ok begin => exact commit_image _ { s with colorSpace, imager, bands }
    | error e => rfl
  · rw [beginImageBand_eq, bind_of_error herror]

/-- Begin the image in a band unless it has begun there. -/
def ensureBegun (band : Nat) : WriteM μ ν Unit := do
  let some im := (← get).image | throw (.malformed "image ended")
  if !im.started.contains band then
    beginImageBand band im
    modify (·.markStarted band)

omit [LawfulMedium μ] in
theorem imageDataBand_eq (band : Nat) (rows : Command) :
    (imageDataBand band rows : WriteM μ ν Unit) =
      ensureBegun band >>= fun _ => putBatch (.band band) [rows] := by
  funext s
  simp only [imageDataBand, ensureBegun, bind_assoc, get_bind_run]
  cases s.image with
  | none => rfl
  | some im =>
    by_cases h : (!im.started.contains band) = true
    · simp only [if_pos h, bind_assoc]
    · simp only [if_neg h]
      rfl

/-- There is room to note that the image has begun in a band. -/
def HasRoom (band : Nat) (s : WriterState μ ν) : Prop := ∀ im ∈ s.image, band < im.started.capacity

omit [LawfulMedium μ] [Medium μ] [MemoryPolicy μ ν] in
theorem hasRoom_iff {band : Nat} {s : WriterState μ ν} :
    s.HasRoom band ↔ ∀ im ∈ s.imageBands, band < im.2 := by
  cases h : s.image <;> simp [HasRoom, imageBands, h]

omit [LawfulMedium μ] [Medium μ] [MemoryPolicy μ ν] in
theorem contains_of_markStarted {band : Nat} {s : WriterState μ ν} (h : s.HasRoom band) {im : OpenImage}
    (him : (s.markStarted band).image = some im) : im.started.contains band = true := by
  obtain ⟨im₀, him₀, rfl⟩ := Option.map_eq_some_iff.mp him
  rw [BandSet.contains_insert _ _ _ (h im₀ him₀)]
  simp

theorem settles_ensureBegun (hlack : MemoryPolicy.RefusesForLack μ ν) (band : Nat) :
    SettlesWhen (HasRoom band) (ensureBegun band : WriteM μ (Watched μ ν) Unit)
      (ensureBegun band) := by
  intro s hs hroom
  have hrun : ∀ {ν : Type} [MemoryPolicy μ ν] (s : WriterState μ ν), ensureBegun band s =
      match s.image with
      | none => .error (.malformed "image ended") s
      | some im =>
        if im.started.contains band then .ok () s
        else (beginImageBand band im >>= fun _ => modify (·.markStarted band)) s := by
    intro ν _ s
    simp only [ensureBegun, get_bind_run]
    cases s.image with
    | none => rfl
    | some im =>
      dsimp only
      cases im.started.contains band <;> rfl
  have himage' : s.unlimited.image = s.image := rfl
  cases himage : s.image with
  | none =>
    rw [hrun, hrun, himage', himage]
    exact ⟨.of_eq hs rfl rfl rfl rfl, by rw [if_neg (by simp [Error.isRetryable])]⟩
  | some im =>
    by_cases hbegun : im.started.contains band = true
    · rw [hrun, hrun, himage', himage]
      simp only [if_pos hbegun]
      refine ⟨.of_eq hs rfl rfl rfl rfl, trivial, ?_⟩
      rw [hrun, himage', himage]
      exact if_pos hbegun
    · have hop : ensureBegun band s =
          (beginImageBand band im >>= fun _ => modify (·.markStarted band)) s := by
        rw [hrun, himage]
        exact if_neg hbegun
      have hop' : ∀ s' : WriterState μ Unlimited, s'.image = s.image → ensureBegun band s' =
          (beginImageBand band im >>= fun _ => modify (·.markStarted band)) s' := by
        intro s' hs'
        rw [hrun, hs', himage]
        exact if_neg hbegun
      rw [hop, hop' s.unlimited rfl]
      have hb := resumes_beginImageBand hlack band im s hs trivial
      have hkeep := beginImageBand_image band im s
      cases hbegin : beginImageBand band im s with
      | ok u s₁ =>
        rw [hbegin] at hb hkeep
        obtain ⟨hstays, hresult⟩ := hb
        rw [bind_of_ok hbegin, bind_of_ok hresult]
        have hmarked : (s₁.markStarted band).image =
            some { im with started := im.started.insert band } := by
          rw [markStarted, hkeep, himage]
          rfl
        have hroom' : s₁.HasRoom band := by rwa [HasRoom, hkeep]
        have hbands : (s₁.markStarted band).imageBands = s.imageBands := by
          simp [imageBands, hmarked, himage]
        refine ⟨⟨hstays.rendered, hstays.stored, hstays.config, hbands⟩, rfl, ?_⟩
        have hagain : (s₁.markStarted band).unlimited.image =
            some { im with started := im.started.insert band } := hmarked
        refine (hrun _).trans ?_
        rw [hagain]
        exact if_pos (contains_of_markStarted hroom' hmarked)
      | error e s₁ =>
        rw [hbegin] at hb hkeep
        obtain ⟨hstays, hresult⟩ := hb
        rw [bind_of_error hbegin]
        refine ⟨hstays, ?_⟩
        split
        · next hretry =>
          rw [if_pos hretry] at hresult
          rw [hop' s₁.unlimited hkeep]
          exact bind_of_same hresult _
        · next hretry =>
          rw [if_neg hretry] at hresult
          exact bind_of_error hresult _

/-- Rows of an image resume, for the image begins no more than once in a band. -/
theorem resumes_imageDataBand (hlack : MemoryPolicy.RefusesForLack μ ν) (band : Nat)
    (rows : Command) :
    ResumesWhen (HasRoom band) (imageDataBand band rows : WriteM μ (Watched μ ν) Unit)
      (imageDataBand band rows) := by
  rw [imageDataBand_eq, imageDataBand_eq]
  exact (settles_ensureBegun hlack band).bind fun _ => atomic_putBatch hlack (.band band) [rows]

end BandedPage.WriterState
