import Mathlib
import BandedPage.Proofs.Page.Requests
import BandedPage.Proofs.Path.Origin
import BandedPage.Proofs.Writer.Fitting

/-!
# Requests that are granted

A request that was granted with little memory is granted with memory without a limit. What it can
fail over then is a bitmap that has too few rows or none that fit the reader's buffer, and a dash
pattern that is too long, and these it would have failed over before.
-/

namespace BandedPage

/-! ### Imager states -/

namespace WriterState

variable {μ ν : Type} {new : ImagerState}

theorem adoptFields_ok {fields : List StateField}
    (hdash : StateField.dash ∈ fields → new.dash.pattern.length ≤ Dash.maxLength)
    (s : WriterState μ ν) : ∃ changed s', adoptFields new fields s = .ok changed s' := by
  induction fields generalizing s with
  | nil => exact ⟨∅, s, rfl⟩
  | cons f fields ih =>
    have hrest := ih fun hmem => hdash (List.mem_cons_of_mem f hmem)
    by_cases hdiffers : s.imager.differs new f = true
    · have hshort : ¬ (f = .dash ∧ Dash.maxLength < new.dash.pattern.length) := by
        rintro ⟨rfl, hlong⟩
        exact absurd (hdash List.mem_cons_self) (Nat.not_le.mpr hlong)
      rw [adoptFields_cons_of_differs hdiffers, if_neg hshort]
      obtain ⟨changed, s', hrun⟩ := hrest { s with imager := s.imager.withField new f }
      exact ⟨_, s', bind_of_ok hrun _⟩
    · rw [adoptFields_cons_of_not_differs hdiffers]
      exact hrest s

theorem updateImager_ok {selected : FieldSet}
    (hdash : selected.contains .dash = true → new.dash.pattern.length ≤ Dash.maxLength)
    (s : WriterState μ ν) : ∃ s', updateImager new selected s = .ok () s' := by
  obtain ⟨changed, s', hrun⟩ := adoptFields_ok
    (fun hmem => hdash (List.mem_filter.mp hmem).2) s
  exact ⟨_, bind_of_ok hrun _⟩

end WriterState

/-- A dash pattern that agrees with one that commands carry is carried too. -/
theorem Dash.Same.length_eq {a b : Dash} (h : a.Same b) : a.pattern.length = b.pattern.length :=
  h.pattern.length_eq

namespace PathDrawing

/-- Commands carry the dash pattern if the path depends on it. -/
def CarriesDash (p : PathDrawing) (ps : ImagerState) : Prop :=
  p.use.required.contains .dash = true → ps.dash.pattern.length ≤ Dash.maxLength

end PathDrawing

/-! ### Requests -/

variable {μ ν : Type} [Medium μ] [LawfulMedium μ] [MemoryPolicy μ ν]

/-- Wherever `I` holds, the request is granted. -/
def Granted (q : Terms) (config : Config) (I : WriterState μ (Watched μ ν) → Prop)
    (m : WriterM μ (Watched μ ν) Unit) : Prop :=
  ∀ (w : Writer μ (Watched μ ν)) (drawn : Nat → List TargetCall), w.Told q config drawn →
    I w.state → ∃ w', m w = .ok () w'

namespace Granted

variable {q : Terms} {config : Config} {I : WriterState μ (Watched μ ν) → Prop}
variable {m : WriterM μ (Watched μ ν) Unit}

omit [MemoryPolicy μ ν] in
theorem check_bind {f : Unit → WriterM μ (Watched μ ν) Unit} (h : Granted q config I (f ())) :
    Granted q config I (Writer.check >>= f) := by
  intro w drawn htold hw
  rw [bind_of_ok (Writer.check_eq htold.enabled)]
  exact h w drawn htold hw

omit [MemoryPolicy μ ν] in
/-- A request for each of some items. -/
theorem forM {ι : Type} {items : List ι} {f : ι → WriterM μ (Watched μ ν) Unit}
    {P : ι → Nat → List TargetCall → Prop} (hmakes : ∀ i ∈ items, Makes q config I (f i) (P i))
    (h : ∀ i ∈ items, Granted q config I (f i)) : Granted q config I (items.forM f) := by
  induction items with
  | nil => exact fun w _ _ _ => ⟨w, rfl⟩
  | cons i items ih =>
    intro w drawn htold hw
    obtain ⟨w₁, hrun⟩ := h i List.mem_cons_self w drawn htold hw
    obtain ⟨hw₁, more, -, htold₁⟩ := (hmakes i List.mem_cons_self w drawn htold hw).ok hrun
    obtain ⟨w', hrest⟩ := ih (fun i hi => hmakes i (List.mem_cons_of_mem _ hi))
      (fun i hi => h i (List.mem_cons_of_mem _ hi)) w₁ _ htold₁ hw₁
    refine ⟨w', ?_⟩
    show (f i >>= fun _ => items.forM f) w = _
    rw [bind_of_ok hrun]
    exact hrest

/-- An operation that is granted is not tried again. -/
theorem withRecovery {op : WriteM μ (Watched μ ν) Unit}
    (h : ∀ s calls, I s → Synced q s calls → ∃ s', op s = .ok () s') :
    Granted q config I (Writer.withRecovery op) := by
  intro w drawn htold hw
  obtain ⟨calls, hcalls, -⟩ := htold.extend
  obtain ⟨s', hrun⟩ := h w.state calls hw hcalls
  exact ⟨_, Writer.withRecovery_of_ok htold.enabled hrun⟩

end Granted

omit [Medium μ] [LawfulMedium μ] in
theorem MemoryPolicy.Grants.watched (h : MemoryPolicy.Grants μ ν) :
    MemoryPolicy.Grants μ (Watched μ ν) := by
  intro n memory
  obtain ⟨memory', hreserve⟩ := h n memory.memory
  exact ⟨{ memory with memory := memory' }, by
    simp only [MemoryPolicy.reserve] at hreserve ⊢
    simp only [Watched.onMemory, hreserve]⟩

namespace Session

variable {S : Session} {clip : Option ClipPath} {imager ps : ImagerState} {p : PathDrawing}

/-- The rows of all parts of a copy can be sent. -/
def CanSendCopy (S : Session) (c : BitmapCopy) : Prop :=
  ∀ p ∈ S.partsOf c.rect, ∃ d d', (c.restrict p.2).sendPieces S.config d = .ok d'

theorem granted_fillRectangle (hS : S.Sound) (hgrants : MemoryPolicy.Grants μ ν) {rect : Rect}
    (hrect : S.Reaches rect) {color : Color}
    (hcolor : S.terms.exactColors → color.IsOf S.config.depth)
    (hlop : S.terms.exactImager → S.lops imager.logOp) :
    Granted (S.on clip) S.config (S.Current (μ := μ) (ν := ν) clip imager)
      (Writer.fillRectangle rect color) := by
  intro w drawn htold hw
  rw [fillRectangle_eq rect color htold.enabled htold.config_eq]
  refine Granted.forM (fun p hp => makes_fillBand hS hrect hcolor hlop hp) (fun p hp => ?_) w drawn
    htold hw
  refine .withRecovery fun s calls hs hsynced => hsynced.fillBand_ok hgrants.watched ?_ p.2 color
  rw [hs.1.config_eq]
  exact (hrect.of_mem hS hp).1

theorem granted_copyBitmap (hS : S.Sound) (hgrants : MemoryPolicy.Grants μ ν) {c : BitmapCopy}
    (hlop : S.terms.exactImager → S.lops imager.logOp) (hc : S.AdmitsCopy c)
    (hclip : c.clip.isSome = true → clip = c.clip.bind fun k => S.clips k.id)
    (hname : c.name = none) (hplain : c.paint.Plain) (hsend : S.CanSendCopy c) :
    Granted (S.on clip) S.config (S.Current (μ := μ) (ν := ν) clip imager)
      (Writer.copyBitmap c) := by
  intro w drawn htold hw
  rw [copyBitmap_eq c htold.enabled htold.config_eq]
  refine Granted.forM (fun p hp => makes_copyBand hS hlop hc hclip hp) (fun p hp => ?_) w drawn
    htold hw
  refine .withRecovery fun s calls hs hsynced => ?_
  obtain ⟨d, d', hpieces⟩ := hsend p hp
  have hunnamed : (c.restrict p.2).name = none := by
    simp only [BitmapCopy.restrict, hname, ite_self]
  rw [← hs.1.config_eq] at hpieces
  refine hsynced.copyBand_ok hgrants.watched ?_ hplain fun d hd => ?_
  · rw [hs.1.config_eq]
    exact (hc.reaches.of_mem hS hp).1
  · obtain ⟨d', hsent, hd'⟩ := hsynced.sendCopy_ok_of_unnamed hunnamed hpieces hd
    exact ⟨d', s, hsent, hsynced, rfl, hd'⟩

theorem granted_drawPath (hS : S.Sound) (hgrants : MemoryPolicy.Grants μ ν) (hp : S.AdmitsPath ps p)
    (hop : ∀ source, (p.op source).source = source) (himager : imager.Sendable)
    (hlop : imager.logOp = ps.logOp)
    (hagrees : ∀ f, p.use.required.contains f = true → imager.Agrees ps f)
    (hclip : p.clip.isSome = true → clip = p.clip.bind fun k => S.clips k.id) {color : Color}
    (hcolor : p.color = .pure color) {bands : Option BandRange}
    (hbands : ∀ band ∈ bands.elim [] BandRange.toList, band < S.config.nbands)
    (rows : Rect → RowRange) :
    Granted (S.on clip) S.config (S.Current (μ := μ) (ν := ν) clip imager)
      (Writer.drawPath p bands rows) := by
  intro w drawn htold hw
  simp only [Writer.drawPath, get_bind_run, htold.config_eq]
  refine Granted.forM (fun band hband => makes_pathBand hS hp hop himager hlop hagrees hclip
    (hbands band hband) (rows (S.config.bandRect band))) (fun band hband => ?_) w drawn htold hw
  refine .withRecovery fun s calls hs hsynced => ?_
  refine hsynced.pathBand_ok hgrants.watched ?_ (hs.2 ▸ himager) hs.1.space hcolor _
  rw [hs.1.config_eq]
  exact hbands band hband

end Session

/-! ### What was granted can be sent -/

/-- A path in one color that is drawn with the default logical operation, and in which drawing goes
on after a close with a move. -/
structure PathDrawing.IsPlain (p : PathDrawing) (ps : ImagerState) : Prop where
  lop : ps.logOp = .default
  built : p.path.IsBuilt
  moves : p.path.MovesAfterCloses
  pure : ∃ color, p.color = .pure color

/-- A rectangle, a bitmap without a name, or a plain path. -/
def Intent.IsPlain : Intent → Prop
  | .fillRectangle _ _ => True
  | .copyMono _ name _ _ | .copyColor _ name _ | .copyAlpha _ name _ _ _ => name = none
  | .fillPath ps path rule color clip => (PathDrawing.ofFill path rule color clip).IsPlain ps
  | .strokePath ps path color clip => (PathDrawing.ofStroke path color clip).IsPlain ps
  | _ => False

theorem InTurn.exists_of_mem {ι : Type} {P : ι → List TargetCall → Prop} {items : List ι}
    {calls : List TargetCall} (h : InTurn P items calls) {i : ι} (hi : i ∈ items) :
    ∃ calls, P i calls := by
  induction h with
  | nil => cases hi
  | cons hcalls _ ih =>
    rcases List.mem_cons.mp hi with rfl | hi
    · exact ⟨_, hcalls⟩
    · exact ih hi

namespace Session

variable {S : Session} {clip : Option ClipPath} {ps : ImagerState} {p : PathDrawing}
variable {w w' : Writer μ (Watched μ ν)} {drawn : Nat → List TargetCall} {intent : Intent}
variable {intents : List Intent}

/-- Nothing of a plain request is too large for the commands that carry it. -/
def CanSend (S : Session) : Intent → Prop
  | .copyMono bitmap name rect colors => S.CanSendCopy { bitmap, rect, paint := .mono colors, name }
  | .copyColor bitmap name rect => S.CanSendCopy { bitmap, rect, paint := .deep, name }
  | .copyAlpha bitmap name rect color depth =>
    depth ∈ [1, 2, 4, 8] ∧ S.CanSendCopy { bitmap, rect, paint := .coverage color depth, name }
  | .fillPath ps path rule color clip =>
    path.rowSpan.isSome = true → (PathDrawing.ofFill path rule color clip).CarriesDash ps
  | .strokePath ps path color clip =>
    path.rowSpan.isSome = true → (PathDrawing.ofStroke path color clip).CarriesDash ps
  | _ => True

omit [Medium μ] [LawfulMedium μ] [MemoryPolicy μ ν] in
theorem canSendCopy_of_copies {c : BitmapCopy} (hname : c.name = none)
    (h : ∀ band, ∃ calls, S.Copies c band calls) : S.CanSendCopy c := by
  intro p hp
  obtain ⟨calls, hcalls⟩ := h p.1
  obtain ⟨calls, hpart⟩ := InTurn.exists_of_mem hcalls hp
  rw [InBand, if_pos rfl] at hpart
  obtain ⟨lop, -, hdrawn⟩ := hpart
  cases hdrawn with
  | pieces _ hsend => exact ⟨_, _, hsend⟩
  | cached _ hid =>
    have hunnamed : (c.restrict p.2).name = none := by
      simp only [BitmapCopy.restrict, hname, ite_self]
    rw [hunnamed] at hid
    cases hid

omit [MemoryPolicy μ ν] in
/-- A path whose imager state became current has a dash pattern that is carried. -/
theorem carriesDash_of_ok (hw : w.InSession S clip drawn) (hp : S.AdmitsPath ps p)
    {f : Unit → WriterM μ (Watched μ ν) Unit}
    (hrun : (Writer.useForPath ps p >>= f) w = .ok () w') : p.CarriesDash ps := by
  intro hdash
  obtain ⟨_, w₁, hused, -⟩ := bind_eq_ok_iff.mp hrun
  obtain ⟨-, hagrees, _, hw₁, -⟩ := (hw.useForPath hp).ok hused
  have hsame : w₁.state.imager.dash.Same ps.dash := hagrees .dash hdash
  exact hsame.length_eq ▸ hw₁.ready.imager.dash

theorem canSend_of_ok (hS : S.Sound) (hadmits : S.Admits intent) (hplain : intent.IsPlain)
    (hw : w.InSession S clip drawn) (hrun : intent.perform w = .ok () w') : S.CanSend intent := by
  obtain ⟨_, more, hmore, -⟩ := (serves_perform hS hadmits clip w drawn hw).ok hrun
  cases intent with
  | copyMono bitmap name rect colors =>
    exact canSendCopy_of_copies hplain fun band => ⟨_, hmore band⟩
  | copyColor bitmap name rect =>
    exact canSendCopy_of_copies hplain fun band => ⟨_, hmore band⟩
  | copyAlpha bitmap name rect color depth =>
    refine ⟨?_, canSendCopy_of_copies hplain fun band => ⟨_, hmore band⟩⟩
    by_contra hdepth
    simp only [Intent.perform, Writer.copyAlpha, if_pos hdepth] at hrun
    cases hrun
  | fillPath ps path rule color clip =>
    intro hsome
    obtain ⟨⟨y, height⟩, hspan⟩ := Option.isSome_iff_exists.mp hsome
    rw [Intent.perform, Writer.fillPath_eq hspan,
      bind_of_ok (Writer.check_eq hw.told.enabled)] at hrun
    exact carriesDash_of_ok hw hadmits hrun
  | strokePath ps path color clip =>
    intro hsome
    obtain ⟨⟨y, height⟩, hspan⟩ := Option.isSome_iff_exists.mp hsome
    rw [Intent.perform] at hrun
    cases hreach : ps.strokeReach with
    | none =>
      rw [Writer.strokePath_eq_of_none hspan hreach,
        bind_of_ok (Writer.check_eq hw.told.enabled)] at hrun
      exact carriesDash_of_ok hw hadmits hrun
    | some reach =>
      rw [Writer.strokePath_eq_of_some hspan hreach,
        bind_of_ok (Writer.check_eq hw.told.enabled)] at hrun
      exact carriesDash_of_ok hw hadmits hrun
  | _ => trivial

/-- The requests of a page that were granted could be sent. -/
theorem canSend_of_serveAll (hS : S.Sound) (hadmits : ∀ i ∈ intents, S.Admits i)
    (hplain : ∀ i ∈ intents, i.IsPlain) (hw : w.InSession S clip drawn)
    (hok : ∀ answer ∈ (Intent.serveAll intents w).1, answer = .ok ()) :
    ∀ i ∈ intents, S.CanSend i := by
  induction intents generalizing w clip drawn with
  | nil => exact fun i hi => absurd hi List.not_mem_nil
  | cons intent intents ih =>
    simp only [Intent.serveAll, Intent.serve] at hok
    cases hrun : intent.perform w with
    | error e w' =>
      rw [hrun] at hok
      cases hok _ List.mem_cons_self
    | ok u w' =>
      rw [hrun] at hok
      have hadmits₁ := hadmits intent List.mem_cons_self
      obtain ⟨_, _, -, hw'⟩ := (serves_perform hS hadmits₁ clip w drawn hw).ok hrun
      intro i hi
      rcases List.mem_cons.mp hi with rfl | hi
      · exact canSend_of_ok hS hadmits₁ (hplain i List.mem_cons_self) hw hrun
      · exact ih (fun i hi => hadmits i (List.mem_cons_of_mem _ hi))
          (fun i hi => hplain i (List.mem_cons_of_mem _ hi)) hw'
          (fun answer hanswer => hok answer (List.mem_cons_of_mem _ hanswer)) i hi

/-! ### What can be sent is granted -/

omit [Medium μ] [LawfulMedium μ] [MemoryPolicy μ ν] in
theorem useForPath_ok (hdash : p.CarriesDash ps) (w : Writer μ (Watched μ ν)) :
    ∃ w', Writer.useForPath ps p w = .ok () w' := by
  obtain ⟨s, hrun⟩ := WriterState.updateImager_ok hdash w.state
  have hused : Writer.onState (WriterState.updateImager ps p.use.required) w =
      .ok () ⟨s, w.disabled⟩ := Writer.onState_of_ok hrun
  exact ⟨_, bind_of_ok hused _⟩

theorem path_ok (hS : S.Sound) (hgrants : MemoryPolicy.Grants μ ν) (hp : S.AdmitsPath ps p)
    (hop : ∀ source, (p.op source).source = source) (hdash : p.CarriesDash ps) {color : Color}
    (hcolor : p.color = .pure color) (bands : Config → Option BandRange)
    (hbands : ∀ band ∈ (bands S.config).elim [] BandRange.toList, band < S.config.nbands)
    (rows : Rect → RowRange) (hw : w.InSession S clip drawn) :
    ∃ w', (Writer.check >>= fun _ => Writer.useForPath ps p >>= fun _ => get >>=
      fun w : Writer μ (Watched μ ν) => Writer.drawPath p (bands w.state.config) rows) w =
        .ok () w' := by
  obtain ⟨w₁, hused⟩ := useForPath_ok hdash w
  obtain ⟨hlogOp, hagrees, clip', hw₁, hclip⟩ := (hw.useForPath hp).ok hused
  rw [bind_of_ok (Writer.check_eq hw.told.enabled), bind_of_ok hused, get_bind_run,
    hw₁.ready.config_eq]
  exact granted_drawPath hS hgrants hp hop hw₁.ready.imager hlogOp hagrees hclip hcolor hbands rows
    w₁ drawn hw₁.told ⟨hw₁.ready, rfl⟩

theorem perform_ok (hS : S.Sound) (hgrants : MemoryPolicy.Grants μ ν) (hadmits : S.Admits intent)
    (hplain : intent.IsPlain) (hsend : S.CanSend intent) (hw : w.InSession S clip drawn) :
    ∃ w', intent.perform w = .ok () w' := by
  have hcurrent : S.Current clip w.state.imager w.state := ⟨hw.ready, rfl⟩
  cases intent with
  | fillRectangle rect color =>
    exact granted_fillRectangle hS hgrants hadmits.1 hadmits.2 hw.ready.lop w drawn hw.told hcurrent
  | copyMono bitmap name rect colors =>
    exact granted_copyBitmap hS hgrants hw.ready.lop hadmits (fun h => by cases h) hplain
      (fun _ _ _ h => by cases h) hsend w drawn hw.told hcurrent
  | copyColor bitmap name rect =>
    exact granted_copyBitmap hS hgrants hw.ready.lop hadmits (fun h => by cases h) hplain
      (fun _ _ _ h => by cases h) hsend w drawn hw.told hcurrent
  | copyAlpha bitmap name rect color depth =>
    simp only [Intent.perform, Writer.copyAlpha, if_neg (not_not.mpr hsend.1)]
    exact granted_copyBitmap hS hgrants hw.ready.lop (hadmits hsend.1) (fun h => by cases h) hplain
      (fun _ _ _ h => by cases h) hsend.2 w drawn hw.told hcurrent
  | fillPath ps path rule color clip =>
    have hop : ∀ source, ((PathDrawing.ofFill path rule color clip).op source).source = source := by
      intro source
      cases rule <;> rfl
    obtain ⟨c, hcolor⟩ := hplain.pure
    rw [Intent.perform]
    cases hspan : path.rowSpan with
    | none =>
      simp only [Writer.fillPath, hspan]
      exact ⟨w, bind_of_ok (Writer.check_eq hw.told.enabled) _⟩
    | some span =>
      obtain ⟨y, height⟩ := span
      rw [Writer.fillPath_eq hspan]
      exact path_ok hS hgrants hadmits hop (hsend (by rw [hspan]; rfl)) hcolor
        (·.bandsFor (y - 1) (y + height + 1 - (y - 1)))
        (fun _ => Config.lt_of_mem_bandsFor hS.valid) _ hw
  | strokePath ps path color clip =>
    have hop : ∀ source, ((PathDrawing.ofStroke path color clip).op source).source = source :=
      fun _ => rfl
    obtain ⟨c, hcolor⟩ := hplain.pure
    rw [Intent.perform]
    cases hspan : path.rowSpan with
    | none =>
      simp only [Writer.strokePath, hspan]
      exact ⟨w, bind_of_ok (Writer.check_eq hw.told.enabled) _⟩
    | some span =>
      obtain ⟨y, height⟩ := span
      have hdash := hsend (by rw [hspan]; rfl)
      cases hreach : ps.strokeReach with
      | none =>
        rw [Writer.strokePath_eq_of_none hspan hreach]
        exact path_ok hS hgrants hadmits hop hdash hcolor (fun config => some config.allBands)
          (fun band hband => hS.valid.lt_of_mem_allBands hband) _ hw
      | some reach =>
        rw [Writer.strokePath_eq_of_some hspan hreach]
        exact path_ok hS hgrants hadmits hop hdash hcolor
          (·.bandsFor (y - reach) (height + 2 * reach))
          (fun _ => Config.lt_of_mem_bandsFor hS.valid) _ hw
  | tileRectangle | fillMask | setLogicalOp | setColorSpace | putParams | setHalftone
  | setTransferMap | beginImage | imageData | endImage | endPage => exact hplain.elim

/-- Requests that can be sent are all granted. -/
theorem serveAll_granted (hS : S.Sound) (hgrants : MemoryPolicy.Grants μ ν)
    (hadmits : ∀ i ∈ intents, S.Admits i) (hplain : ∀ i ∈ intents, i.IsPlain)
    (hsend : ∀ i ∈ intents, S.CanSend i) (hw : w.InSession S clip drawn) :
    ∀ answer ∈ (Intent.serveAll intents w).1, answer = .ok () := by
  induction intents generalizing w clip drawn with
  | nil => exact fun answer hanswer => absurd hanswer List.not_mem_nil
  | cons intent intents ih =>
    have hadmits₁ := hadmits intent List.mem_cons_self
    obtain ⟨w', hrun⟩ := perform_ok hS hgrants hadmits₁ (hplain intent List.mem_cons_self)
      (hsend intent List.mem_cons_self) hw
    obtain ⟨_, _, -, hw'⟩ := (serves_perform hS hadmits₁ clip w drawn hw).ok hrun
    simp only [Intent.serveAll, Intent.serve, hrun]
    intro answer hanswer
    rcases List.mem_cons.mp hanswer with rfl | hanswer
    · rfl
    · exact ih (fun i hi => hadmits i (List.mem_cons_of_mem _ hi))
        (fun i hi => hplain i (List.mem_cons_of_mem _ hi))
        (fun i hi => hsend i (List.mem_cons_of_mem _ hi)) hw' answer hanswer

end Session

end BandedPage
