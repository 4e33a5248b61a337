import Mathlib
import BandedPage.Proofs.Page.History
import BandedPage.Proofs.Writer.Images
import BandedPage.Proofs.Writer.Operations

/-!
# What requests draw in a session

A request that consists of several operations makes replay of each band call what the operations do,
one after another, whatever is done to get memory for them. Requests are put together here as they
are when they are written, and what they draw is put together with them. So a session goes on in
step with replay.
-/

namespace BandedPage

/-- Each of some items in turn makes calls of which `P` holds. -/
inductive InTurn {ι : Type} (P : ι → List TargetCall → Prop) : List ι → List TargetCall → Prop
  | nil : InTurn P [] []
  | cons {i : ι} {items : List ι} {calls more : List TargetCall} (hcalls : P i calls)
    (hmore : InTurn P items more) : InTurn P (i :: items) (calls ++ more)

namespace InTurn

variable {ι κ : Type} {P Q : ι → List TargetCall → Prop} {items items' : List ι}
variable {calls more : List TargetCall}

theorem mono (h : InTurn P items calls) (hp : ∀ i ∈ items, ∀ calls, P i calls → Q i calls) :
    InTurn Q items calls := by
  induction h with
  | nil => exact .nil
  | cons hcalls _ ih =>
    exact .cons (hp _ List.mem_cons_self _ hcalls) (ih fun i hi => hp i (List.mem_cons_of_mem _ hi))

theorem eq_nil (h : InTurn P [] calls) : calls = [] := by
  cases h
  rfl

/-- What the first item does comes first. -/
theorem exists_append {i : ι} (h : InTurn P (i :: items) calls) :
    ∃ first rest, calls = first ++ rest ∧ P i first ∧ InTurn P items rest := by
  cases h with
  | cons hcalls hmore => exact ⟨_, _, rfl, hcalls, hmore⟩

theorem append (h : InTurn P items calls) (h' : InTurn P items' more) :
    InTurn P (items ++ items') (calls ++ more) := by
  induction h with
  | nil => exact h'
  | cons hcalls _ ih =>
    rw [List.append_assoc]
    exact .cons hcalls ih

/-- The calls that each item is known to make. -/
theorem of_flatMap (f : ι → List TargetCall) (items : List ι) :
    InTurn (fun i calls => calls = f i) items (items.flatMap f) := by
  induction items with
  | nil => exact .nil
  | cons i items ih => exact .cons rfl ih

/-- Some of the calls of each item. -/
theorem filter (h : InTurn P items calls) (p : TargetCall → Bool) :
    InTurn (fun i some => ∃ calls, P i calls ∧ some = calls.filter p) items (calls.filter p) := by
  induction h with
  | nil => exact .nil
  | cons hcalls _ ih =>
    rw [List.filter_append]
    exact .cons ⟨_, hcalls, rfl⟩ ih

/-- Calls that no item makes are not made. -/
theorem forall_mem {p : TargetCall → Prop} (h : InTurn P items calls)
    (hp : ∀ i ∈ items, ∀ calls, P i calls → ∀ call ∈ calls, p call) : ∀ call ∈ calls, p call := by
  induction h with
  | nil => exact fun _ hcall => absurd hcall List.not_mem_nil
  | cons hcalls _ ih =>
    intro call hcall
    rcases List.mem_append.mp hcall with hcall | hcall
    · exact hp _ List.mem_cons_self _ hcalls call hcall
    · exact ih (fun i hi => hp i (List.mem_cons_of_mem _ hi)) call hcall

end InTurn

/-- Calls as `P` says in one band, and none in the others. -/
def InBand (band : Nat) (P : List TargetCall → Prop) (b : Nat) (calls : List TargetCall) : Prop :=
  if b = band then P calls else calls = []

theorem InBand.mono {band b : Nat} {P Q : List TargetCall → Prop} {calls : List TargetCall}
    (h : InBand band P b calls) (hp : P calls → Q calls) : InBand band Q b calls := by
  rw [InBand] at h ⊢
  split at h
  · next heq => exact (if_pos heq).symm ▸ hp h
  · next hne => exact (if_neg hne).symm ▸ h

/-- What is done in some bands in turn makes calls in each of them once, and none in the others. -/
theorem InTurn.inBand {P : Nat → List TargetCall → Prop} {bands : List Nat} {band : Nat}
    {calls : List TargetCall} (h : InTurn (fun b => InBand b (P b) band) bands calls)
    (hnodup : bands.Nodup) : if band ∈ bands then P band calls else calls = [] := by
  induction h with
  | nil => exact (if_neg List.not_mem_nil).symm ▸ rfl
  | @cons b bands calls more hcalls _ ih =>
    obtain ⟨hb, hnodup⟩ := List.nodup_cons.mp hnodup
    have hmore := ih hnodup
    rw [InBand] at hcalls
    by_cases heq : band = b
    · subst heq
      rw [if_neg hb] at hmore
      rw [if_pos rfl] at hcalls
      rw [if_pos List.mem_cons_self, hmore, List.append_nil]
      exact hcalls
    · rw [if_neg heq] at hcalls
      rw [hcalls, List.nil_append]
      simpa [heq] using hmore

variable {μ ν : Type} [Medium μ] [LawfulMedium μ] [MemoryPolicy μ ν]

/-- An operation that tells a band all of a drawing or nothing carries it. -/
theorem Carries.of_tells {q : Terms} {config : Config} {I : WriterState μ (Watched μ ν) → Prop}
    {op : WriteM μ (Watched μ ν) Unit} {band : Nat} {P : List TargetCall → Prop}
    (hI : WriterState.Lasting config I) (hop : WriterState.RendersNothing op)
    (htells : ∀ s calls, I s → Synced q s calls → Tells q s calls band op P) :
    Carries q q I op (.onBand band P) where
  rendersNothing := hop
  meets s calls hs hsynced := by
    refine Meets.mono (htells s calls hs hsynced) (fun _ s' h => ?_) fun _ s' h => ?_
    · obtain ⟨halike, more, hmore, hsynced'⟩ := h
      refine ⟨hI.alike hs halike, fun b => if b = band then more else [],
        ⟨?_, fun b hb => if_neg hb⟩, hsynced'⟩
      simpa using hmore
    · obtain ⟨halike, hsynced'⟩ := h
      exact ⟨hI.alike hs halike, fun _ => [], rfl, hsynced'.congr fun _ _ => (List.append_nil _).symm⟩

/-- Wherever `I` holds, the request makes replay of each band call what `P` says. One that fails may
have done some of that, unless the writer is switched off. -/
def Makes (q : Terms) (config : Config) (I : WriterState μ (Watched μ ν) → Prop)
    (m : WriterM μ (Watched μ ν) Unit) (P : Nat → List TargetCall → Prop) : Prop :=
  ∀ (w : Writer μ (Watched μ ν)) (drawn : Nat → List TargetCall), w.Told q config drawn →
    I w.state → Meets m w
      (fun _ => Writer.ToldMore q config I (fun more => ∀ band, P band (more band)) drawn)
      fun _ w' => w'.disabled = true ∨ w'.ToldMore q config I (fun _ => True) drawn

namespace Makes

variable {q : Terms} {config : Config} {I : WriterState μ (Watched μ ν) → Prop}
variable {m m' : WriterM μ (Watched μ ν) Unit} {P P' : Nat → List TargetCall → Prop}

omit [MemoryPolicy μ ν] in
theorem mono (h : Makes q config I m P) (hp : ∀ band calls, P band calls → P' band calls) :
    Makes q config I m P' :=
  fun w drawn htold hw => (h w drawn htold hw).mono
    (fun _ _ ⟨hw', more, hmore, htold'⟩ => ⟨hw', more, fun band => hp band _ (hmore band), htold'⟩)
    fun _ _ h => h

omit [MemoryPolicy μ ν] in
/-- Nothing more is told. -/
theorem toldMore_nil {w : Writer μ (Watched μ ν)} {drawn : Nat → List TargetCall}
    {p : (Nat → List TargetCall) → Prop} (h : w.Told q config drawn) (hw : I w.state)
    (hp : p fun _ => []) : w.ToldMore q config I p drawn := by
  refine ⟨hw, fun _ => [], hp, ?_⟩
  simpa [BandedPage.drawing] using h

omit [MemoryPolicy μ ν] in
theorem pure (hp : ∀ band, P band []) : Makes q config I (Pure.pure ()) P :=
  fun _ _ htold hw => Meets.pure (toldMore_nil htold hw hp)

omit [MemoryPolicy μ ν] in
theorem throw (e : Error) : Makes q config I (throw e) P :=
  fun _ _ htold hw => Meets.throw (.inr (toldMore_nil htold hw trivial))

omit [MemoryPolicy μ ν] in
/-- A writer that may go on is not refused. -/
theorem check_bind {f : Unit → WriterM μ (Watched μ ν) Unit} (h : Makes q config I (f ()) P) :
    Makes q config I (Writer.check >>= f) P := by
  intro w drawn htold hw
  rw [Meets, bind_of_ok (Writer.check_eq htold.enabled)]
  exact h w drawn htold hw

omit [MemoryPolicy μ ν] in
/-- A request may look at the state. -/
theorem get_bind {f : Writer μ (Watched μ ν) → WriterM μ (Watched μ ν) Unit}
    (h : ∀ w, I w.state → Makes q config I (f w) P) : Makes q config I (get >>= f) P :=
  fun w drawn htold hw => Meets.get_bind (h w hw w drawn htold hw)

omit [MemoryPolicy μ ν] in
/-- A request for each of some items. -/
theorem forM {ι : Type} {items : List ι} {f : ι → WriterM μ (Watched μ ν) Unit}
    {P : ι → Nat → List TargetCall → Prop} (h : ∀ i ∈ items, Makes q config I (f i) (P i)) :
    Makes q config I (items.forM f) fun band => InTurn (fun i => P i band) items := by
  induction items with
  | nil => exact pure fun _ => .nil
  | cons i items ih =>
    intro w drawn htold hw
    refine Meets.bind (m := f i) (h i List.mem_cons_self w drawn htold hw) fun _ w' h' => ?_
    obtain ⟨hw', a, ha, htold'⟩ := h'
    refine (ih (fun i hi => h i (List.mem_cons_of_mem _ hi)) w' _ htold' hw').mono
      (fun _ _ h'' => h''.after fun hb band => .cons (ha band) (hb band))
      fun _ _ h'' => h''.imp_right (·.after fun _ => trivial)

/-- What one operation tells a band is told in spite of a lack of memory. -/
theorem withRecovery {op : WriteM μ (Watched μ ν) Unit} {band : Nat} {P : List TargetCall → Prop}
    (hI : WriterState.Lasting config I) (hbands : config.nbands ≤ 2147483648)
    (hop : Carries q q I op (.onBand band P)) :
    Makes q config I (Writer.withRecovery op) (InBand band P) := by
  intro w drawn htold hw
  refine (htold.withRecovery hI hw hop hbands).mono (fun _ _ h => ?_) fun _ _ h => ?_
  · obtain ⟨hw', more, ⟨hmore, hother⟩, htold'⟩ := h
    refine ⟨hw', more, fun b => ?_, htold'⟩
    rw [InBand]
    split
    · next heq => exact heq ▸ hmore
    · next hne => exact hother b hne
  · refine h.imp_right fun ⟨hw', more, _, htold'⟩ => ⟨hw', more, trivial, htold'⟩

end Makes

end BandedPage

/-!
## Sessions in step with replay

Between the requests of a session more is so of the writer than that replay keeps up with it: what
is current can be sent, and a clip that is current is the one that goes by its name. How exactly
replay is to be followed is the same all through a session, but for the clip that is current.
-/

namespace BandedPage

/-- What is agreed on for all requests of a session. -/
structure Session where
  config : Config
  /-- The terms, apart from the clip. -/
  terms : Terms
  /-- The clip that goes by a name, if clips matter. -/
  clips : UInt64 → Option ClipPath := fun _ => none
  /-- The logical operations that may become current. -/
  lops : LogicalOp → Prop := fun _ => True

namespace Session

/-- The terms while this clip is current. -/
def on (S : Session) (clip : Option ClipPath) : Terms := { S.terms with clip }

/-- A session of pages whose rows can be told. -/
structure Sound (S : Session) : Prop where
  valid : S.config.Valid
  height : S.config.height < 2147483648

theorem Sound.nbands_le {S : Session} (h : S.Sound) : S.config.nbands ≤ 2147483648 := by
  have := h.valid.nbands_le
  have := h.height
  omega

/-- An image that may be open. It changes what is current while it is sent, so sessions with images
follow neither imager states nor clips. -/
structure Shows (S : Session) (im : OpenImage) : Prop where
  imprecise : ¬ S.terms.exactImager
  clips : ∀ id, S.clips id = none
  fits : im.Fits S.terms S.config
  planes : 0 < im.header.planes im.space
  bands : ∀ bands ∈ im.bands, bands.max < S.config.nbands
  room : S.config.nbands ≤ im.started.capacity

end Session

variable {μ ν : Type}

/-- What is so of the writer's state between the requests of a session. -/
structure WriterState.Ready (S : Session) (clip : Option ClipPath) (s : WriterState μ ν) : Prop where
  config_eq : s.config = S.config
  imager : s.imager.Sendable
  space : s.colorSpace.Sendable
  lop : S.terms.exactImager → S.lops s.imager.logOp
  clip_eq : ∀ id, s.clipId = some id → clip = S.clips id
  page : s.PageSendable
  image : ∀ im ∈ s.image, S.Shows im

namespace WriterState.Ready

variable {S : Session} {clip : Option ClipPath} {s s' : WriterState μ ν}

theorem alike (h : s.Ready S clip) (hs : s.Alike s') : s'.Ready S clip where
  config_eq := hs.config.trans h.config_eq
  imager := hs.imager ▸ h.imager
  space := hs.colorSpace ▸ h.space
  lop := hs.imager ▸ h.lop
  clip_eq := hs.clipId ▸ h.clip_eq
  page := ⟨hs.params ▸ h.page.params, hs.halftone ▸ h.page.halftone, hs.transfers ▸ h.page.count,
    hs.transfers ▸ h.page.transfers⟩
  image := hs.image ▸ h.image

theorem reset (h : s.Ready S clip) : s.resetPage.Ready S clip := by
  refine { h with
    clip_eq := fun id hid => nomatch hid
    page := { h.page with }
    image := fun im him => ?_ }
  obtain ⟨im', him', rfl⟩ := Option.mem_map.mp him
  have hshows := h.image im' him'
  exact { hshows with fits := { hshows.fits with }, room := hshows.room }

/-- Recovery leaves the imager state alone. -/
theorem lasting (S : Session) (clip : Option ClipPath) (imager : ImagerState) :
    WriterState.Lasting S.config fun s : WriterState μ ν => s.Ready S clip ∧ s.imager = imager where
  config_eq h := h.1.config_eq
  sendable h := h.1.page
  alike h hs := ⟨h.1.alike hs, hs.imager.trans h.2⟩
  reset h := ⟨h.1.reset, h.2⟩

end WriterState.Ready

variable [Medium μ] [LawfulMedium μ]

/-- The writer is in step with replay in a session in which this clip is current. -/
structure Writer.InSession (S : Session) (clip : Option ClipPath) (w : Writer μ (Watched μ ν))
    (drawn : Nat → List TargetCall) : Prop where
  told : w.Told (S.on clip) S.config drawn
  ready : w.state.Ready S clip

namespace Session

/-- What is so between requests while this clip and this imager state are current. -/
def Current (S : Session) (clip : Option ClipPath) (imager : ImagerState)
    (s : WriterState μ (Watched μ ν)) : Prop :=
  s.Ready S clip ∧ s.imager = imager

/-- The request makes replay of each band call what `P` says. A writer that may go on after a failure
is in step all the same, unless imager states are followed. -/
def Answers (S : Session) (m : WriterM μ (Watched μ ν) Unit) (P : Nat → List TargetCall → Prop)
    (w : Writer μ (Watched μ ν)) (drawn : Nat → List TargetCall) : Prop :=
  Meets m w
    (fun _ w' => ∃ (clip : Option ClipPath) (more : Nat → List TargetCall),
      (∀ band, P band (more band)) ∧
        w'.InSession S clip fun band => drawn band ++ drawing (more band))
    fun _ w' => w'.disabled = true ∨
      (¬ S.terms.exactImager → ∃ clip drawn', w'.InSession S clip drawn')

/-- The request is answered so all through the session. -/
def Serves (S : Session) (m : WriterM μ (Watched μ ν) Unit) (P : Nat → List TargetCall → Prop) :
    Prop :=
  ∀ (clip : Option ClipPath) (w : Writer μ (Watched μ ν)) (drawn : Nat → List TargetCall),
    w.InSession S clip drawn → S.Answers m P w drawn

end Session

/-- A request that leaves alone what is current. -/
theorem Makes.answers {S : Session} {m : WriterM μ (Watched μ ν) Unit}
    {P : Nat → List TargetCall → Prop} {clip : Option ClipPath} {w : Writer μ (Watched μ ν)}
    {drawn : Nat → List TargetCall}
    (h : Makes (S.on clip) S.config (S.Current clip w.state.imager) m P)
    (hw : w.InSession S clip drawn) : S.Answers m P w drawn := by
  refine Meets.mono (h w drawn hw.told ⟨hw.ready, rfl⟩) (fun _ w' h' => ?_) fun _ w' h' => ?_
  · obtain ⟨⟨hready, -⟩, more, hmore, htold⟩ := h'
    exact ⟨clip, more, hmore, htold, hready⟩
  · refine h'.imp_right fun ⟨⟨hready, _⟩, more, _, htold⟩ _ => ⟨clip, _, htold, hready⟩

namespace Writer.InSession

variable {S : Session} {clip : Option ClipPath} {w : Writer μ (Watched μ ν)}
variable {drawn : Nat → List TargetCall}

/-- A clip becomes current. -/
theorem useClip (h : w.InSession S clip drawn) (new : Option ClipPath) :
    InSession S (new.elim clip fun k => S.clips k.id) ⟨w.state.useClip new, false⟩ drawn := by
  cases new with
  | none =>
    obtain ⟨htold, hready⟩ := h
    exact ⟨htold.keep hready.config_eq rfl fun _ h => h, hready⟩
  | some k =>
    have hready : (w.state.useClip (some k)).Ready S (S.clips k.id) := by
      rw [WriterState.useClip]
      split
      · next hsame =>
        refine { h.ready with clip_eq := fun id hid => ?_ }
        rw [hsame] at hid
        cases hid
        rfl
      · refine { h.ready with clip_eq := fun id hid => ?_, page := { h.ready.page with } }
        cases hid
        rfl
    refine ⟨h.told.keep hready.config_eq ?_ fun calls hcalls => hcalls.useClip h.ready.clip_eq k, hready⟩
    rw [WriterState.useClip]
    split <;> rfl

end Writer.InSession

namespace Session.Serves

variable {S : Session} {m : WriterM μ (Watched μ ν) Unit} {P P' : Nat → List TargetCall → Prop}

theorem mono (h : S.Serves m P) (hp : ∀ band calls, P band calls → P' band calls) :
    S.Serves m P' :=
  fun clip w drawn hw => Meets.mono (h clip w drawn hw)
    (fun _ _ ⟨clip', more, hmore, hw'⟩ => ⟨clip', more, fun band => hp band _ (hmore band), hw'⟩)
    fun _ _ h => h

/-- A request that leaves alone what is current. -/
theorem of_makes (h : ∀ clip imager, imager.Sendable → (S.terms.exactImager → S.lops imager.logOp) →
    Makes (S.on clip) S.config (S.Current (μ := μ) (ν := ν) clip imager) m P) : S.Serves m P :=
  fun clip w _ hw => (h clip w.state.imager hw.ready.imager hw.ready.lop).answers hw

theorem throw (e : Error) : S.Serves (throw e : WriterM μ (Watched μ ν) Unit) P :=
  fun _ _ _ hw => Meets.throw (.inr fun _ => ⟨_, _, hw⟩)

theorem pure (hp : ∀ band, P band []) : S.Serves (Pure.pure () : WriterM μ (Watched μ ν) Unit) P :=
  fun clip _ drawn hw => Meets.pure ⟨clip, fun _ => [], hp, by
    simpa [drawing] using hw⟩

/-- A writer that may go on is not refused. -/
theorem check_bind {f : Unit → WriterM μ (Watched μ ν) Unit} (h : S.Serves (f ()) P) :
    S.Serves (Writer.check >>= f) P := by
  intro clip w drawn hw
  rw [Answers, Meets, bind_of_ok (Writer.check_eq hw.told.enabled)]
  exact h clip w drawn hw

/-- A request may look at the state. -/
theorem get_bind {f : Writer μ (Watched μ ν) → WriterM μ (Watched μ ν) Unit}
    (h : ∀ w clip, w.state.Ready S clip → S.Serves (f w) P) : S.Serves (get >>= f) P :=
  fun clip w drawn hw => Meets.get_bind (h w clip hw.ready clip w drawn hw)

/-- Something becomes current before the rest is done. -/
theorem update_bind {g : WriterState μ (Watched μ ν) → WriterState μ (Watched μ ν)}
    {f : Unit → WriterM μ (Watched μ ν) Unit} (h : S.Serves (f ()) P)
    (hg : ∀ {s : WriterState μ (Watched μ ν)} {clip}, s.Ready S clip → ∃ clip',
      (g s).Ready S clip' ∧ (g s).memory.rendered = s.memory.rendered ∧
        ∀ calls, Synced (S.on clip) s calls → Synced (S.on clip') (g s) calls) :
    S.Serves (Writer.update g >>= f) P := by
  intro clip w drawn hw
  obtain ⟨clip', hready, hrendered, hsynced⟩ := hg hw.ready
  have hrun : Writer.update g w = .ok () ⟨g w.state, w.disabled⟩ := rfl
  rw [Answers, Meets, bind_of_ok hrun, hw.told.enabled]
  exact h clip' _ drawn ⟨hw.told.keep hready.config_eq hrendered hsynced, hready⟩

end Session.Serves

end BandedPage
