import Mathlib
import BandedPage.Proofs.Writer.Recovery
import BandedPage.Proofs.Writer.ResumedImages
import BandedPage.Writer.Session

/-!
# Requests that never lead to a partial page

A request parallels another one, which has memory without a limit, if it does the same unless it has
a partial page rendered. Recovery does when its operation resumes: it is tried again until it is not
refused, and anything else ends with a partial page.
-/

namespace BandedPage

namespace CommandBuffer

variable {μ : Type} [Medium μ] [LawfulMedium μ] {b : CommandBuffer μ}

/-- A page can be closed whenever the store is in order. -/
theorem Stored.closePage (h : b.Stored) :
    ∃ store, CommandBuffer.closePage b = .ok () { b.discard with store } ∧
      ∃ entries, store.Contains entries := by
  obtain ⟨entries, hc⟩ := h
  obtain ⟨store₁, hc₁, hflush, -⟩ := flush_eq hc Opcode.endPage
  obtain ⟨store₂, hwrite, hc₂⟩ := BandStore.writeSentinel_eq hc₁
  refine ⟨store₂, ?_, _, hc₂⟩
  have hsentinel : onStore BandStore.writeSentinel { b.discard with store := store₁ } =
      .ok () { b.discard with store := store₂ } := by
    simp only [onStore, hwrite]
  rw [CommandBuffer.closePage, bind_of_ok hflush, hsentinel]

end CommandBuffer

namespace WriterState

variable {μ ν α β : Type} [Medium μ] [LawfulMedium μ]

/-- Whatever comes of it, the operation renders nothing and leaves the store in order. -/
def Staying (op : WriteM μ (Watched μ ν) α) : Prop :=
  ∀ s : WriterState μ (Watched μ ν), s.buffer.Stored → s.Stays (stateOf (op s))

theorem Staying.of_atomic {op : WriteM μ (Watched μ ν) α} {op' : WriteM μ Unlimited α}
    (h : Atomic op op') : Staying op := by
  intro s hs
  have ho := h s hs
  cases hrun : op s with
  | ok a s' =>
    rw [hrun] at ho
    exact ho.1
  | error e s' =>
    rw [hrun] at ho
    exact ho.1

theorem Staying.pure (a : α) : Staying (pure a : WriteM μ (Watched μ ν) α) :=
  fun _ hs => .of_eq hs rfl rfl rfl rfl

theorem Staying.bind {op : WriteM μ (Watched μ ν) α} {f : α → WriteM μ (Watched μ ν) β}
    (h : Staying op) (hf : ∀ a, Staying (f a)) : Staying (op >>= f) := by
  intro s hs
  have ho := h s hs
  cases hrun : op s with
  | ok a s₁ =>
    rw [hrun] at ho
    rw [bind_of_ok hrun]
    exact ho.trans (hf a s₁ ho.stored)
  | error e s₁ =>
    rw [hrun] at ho
    rw [bind_of_error hrun]
    exact ho

theorem Staying.forM {op : α → WriteM μ (Watched μ ν) Unit} (h : ∀ a, Staying (op a)) (l : List α) :
    Staying (l.forM op) := by
  induction l with
  | nil => exact .pure ()
  | cons a l ih => exact (h a).bind fun _ => ih

variable [MemoryPolicy μ ν]

/-- Telling a page what belongs to it as a whole renders nothing. -/
theorem staying_putPageState (hlack : MemoryPolicy.RefusesForLack μ ν) :
    Staying (putPageState : WriteM μ (Watched μ ν) Unit) := by
  have hall : ∀ batch, Staying (putAllBands batch : WriteM μ (Watched μ ν) Unit) :=
    fun batch => .of_atomic (atomic_putAllBands hlack batch)
  have hoption : ∀ {β : Type} (x : Option β) (op : β → WriteM μ (Watched μ ν) Unit),
      (∀ b, Staying (op b)) → Staying (x.forM op) := by
    intro β x op hop
    cases x with
    | none => exact .pure ()
    | some b => exact hop b
  intro s hs
  refine Staying.bind (hoption s.params putParams fun _ => hall _) (fun _ => ?_) s hs
  refine Staying.bind (hoption s.halftone putHalftone fun _ => hall _) fun _ => ?_
  exact Staying.forM (fun (map, index) => hoption map (putTransfer index) fun _ => hall _) _

/-- A partial page that was to be rendered has been noted, whatever came of it. -/
theorem renderPartialPage_cases {s : WriterState μ (Watched μ ν)} (hs : s.buffer.Stored) :
    (stateOf (renderPartialPage s)).memory.rendered.length = s.memory.rendered.length + 1 ∧
      (stateOf (renderPartialPage s)).buffer.Stored ∧
      (stateOf (renderPartialPage s)).config = s.config ∧
      (stateOf (renderPartialPage s)).imageBands = s.imageBands := by
  obtain ⟨store, hclose, entries, hstore⟩ := hs.closePage
  rw [renderPartialPage, bind_of_ok (onBuffer_of_ok hclose), get_bind_run]
  have hnoted := Watched.rendered_renderPartialPage store s.memory
  cases hrender : (MemoryPolicy.renderPartialPage store : EStateM Error (Watched μ ν) Unit)
      s.memory with
  | error e memory =>
    rw [hrender] at hnoted
    have hrun : onMemory (MemoryPolicy.renderPartialPage store)
        { s with buffer := { s.buffer.discard with store } } =
        .error e { s with buffer := { s.buffer.discard with store }, memory } := by
      simp only [onMemory, hrender]
    rw [bind_of_error hrun]
    refine ⟨?_, ⟨entries, hstore⟩, rfl, rfl⟩
    show memory.rendered.length = s.memory.rendered.length + 1
    rw [show memory.rendered = _ from hnoted, List.length_append, List.length_singleton]
  | ok u memory =>
    rw [hrender] at hnoted
    have hrun : onMemory (MemoryPolicy.renderPartialPage store)
        { s with buffer := { s.buffer.discard with store } } =
        .ok () { s with buffer := { s.buffer.discard with store }, memory } := by
      simp only [onMemory, hrender]
    obtain ⟨empty, htruncate, hempty⟩ := BandStore.truncate_eq hstore
    have hlast : onBuffer (CommandBuffer.onStore BandStore.truncate)
        { s with buffer := { s.buffer.discard with store }, memory } =
        .ok () { s with buffer := { s.buffer.discard with store := empty }, memory } := by
      simp only [onBuffer, CommandBuffer.onStore, htruncate]
    rw [bind_of_ok hrun, hlast]
    refine ⟨?_, ⟨[], hempty⟩, rfl, rfl⟩
    show memory.rendered.length = s.memory.rendered.length + 1
    rw [show memory.rendered = _ from hnoted, List.length_append, List.length_singleton]

end WriterState

namespace Writer

section

variable {μ ν : Type}

def unlimited (w : Writer μ ν) : Writer μ Unlimited := ⟨w.state.unlimited, w.disabled⟩

def pages (w : Writer μ (Watched μ ν)) : List (BandStore μ) := w.state.memory.rendered

variable [Medium μ] [LawfulMedium μ]

/-- The store is in order, and the bands of an image are bands of the page. -/
structure Sound (config : Config) (w : Writer μ (Watched μ ν)) : Prop where
  stored : w.state.buffer.Stored
  config_eq : w.state.config = config
  image : ∀ im ∈ w.state.imageBands, config.nbands ≤ im.2 ∧ ∀ bands ∈ im.1, bands.max < config.nbands

theorem Sound.of_eq {config : Config} {w w' : Writer μ (Watched μ ν)} (h : w.Sound config)
    (hs : w'.state.buffer.Stored) (hconfig : w'.state.config = w.state.config)
    (himage : w'.state.imageBands = w.state.imageBands) : w'.Sound config where
  stored := hs
  config_eq := hconfig.trans h.config_eq
  image := by
    rw [himage]
    exact h.image

theorem Sound.of_stays {config : Config} {w w' : Writer μ (Watched μ ν)} (h : w.Sound config)
    (hs : w.state.Stays w'.state) : w'.Sound config :=
  h.of_eq hs.stored hs.config hs.imageBands

end

variable {μ ν α β : Type} [Medium μ] [LawfulMedium μ]

/-- The request loses no partial page, and if it has none rendered it does what `m'` does. -/
def Parallels (config : Config) (m : WriterM μ (Watched μ ν) α) (m' : WriterM μ Unlimited α) : Prop :=
  ∀ w : Writer μ (Watched μ ν), w.Sound config →
    (stateOf (m w)).Sound config ∧ w.pages.length ≤ (stateOf (m w)).pages.length ∧
      ((stateOf (m w)).pages.length = w.pages.length → m' w.unlimited = mapState unlimited (m w))

namespace Parallels

variable {config : Config}

theorem pure (a : α) : Parallels config (pure a : WriterM μ (Watched μ ν) α) (pure a) :=
  fun _ hw => ⟨hw, le_rfl, fun _ => rfl⟩

theorem throw (e : Error) : Parallels config (throw e : WriterM μ (Watched μ ν) α) (throw e) :=
  fun _ hw => ⟨hw, le_rfl, fun _ => rfl⟩

theorem lift (x : Except Error α) :
    Parallels config (liftM x : WriterM μ (Watched μ ν) α) (liftM x) := by
  cases x with
  | ok a => exact pure a
  | error e => exact throw e

theorem bind {m : WriterM μ (Watched μ ν) α} {m' : WriterM μ Unlimited α}
    {f : α → WriterM μ (Watched μ ν) β} {f' : α → WriterM μ Unlimited β}
    (h : Parallels config m m') (hf : ∀ a, Parallels config (f a) (f' a)) :
    Parallels config (m >>= f) (m' >>= f') := by
  intro w hw
  obtain ⟨hw₁, hle, hsame⟩ := h w hw
  cases hrun : m w with
  | error e w₁ =>
    rw [hrun] at hw₁ hle hsame
    rw [bind_of_error hrun]
    exact ⟨hw₁, hle, fun heq => bind_of_error (hsame heq) _⟩
  | ok a w₁ =>
    rw [hrun] at hw₁ hle hsame
    rw [bind_of_ok hrun]
    obtain ⟨hw₂, hle₂, hsame₂⟩ := hf a w₁ hw₁
    have hle₁ : w.pages.length ≤ w₁.pages.length := hle
    refine ⟨hw₂, hle₁.trans hle₂, fun heq => ?_⟩
    have heq₁ : w₁.pages.length = w.pages.length := by omega
    have hrun' : (m' >>= f') w.unlimited = f' a w₁.unlimited := bind_of_ok (hsame heq₁) _
    rw [hrun', hsame₂ (by omega)]

/-- A failure may be answered by something else. -/
theorem handle {m : WriterM μ (Watched μ ν) α} {m' : WriterM μ Unlimited α}
    {f : Error → WriterM μ (Watched μ ν) α} {f' : Error → WriterM μ Unlimited α}
    (h : Parallels config m m') (hf : ∀ e, Parallels config (f e) (f' e)) :
    Parallels config (tryCatch m f) (tryCatch m' f') := by
  intro w hw
  obtain ⟨hw₁, hle, hsame⟩ := h w hw
  simp only [tryCatch_run]
  cases hrun : m w with
  | ok a w₁ =>
    rw [hrun] at hw₁ hle hsame
    refine ⟨hw₁, hle, fun heq => ?_⟩
    rw [hsame heq]
    rfl
  | error e w₁ =>
    rw [hrun] at hw₁ hle hsame
    obtain ⟨hw₂, hle₂, hsame₂⟩ := hf e w₁ hw₁
    have hle₁ : w.pages.length ≤ w₁.pages.length := hle
    refine ⟨hw₂, hle₁.trans hle₂, fun heq => ?_⟩
    have heq' : (stateOf (f e w₁)).pages.length = w.pages.length := heq
    have heq₁ : w₁.pages.length = w.pages.length := by omega
    rw [hsame heq₁]
    exact hsame₂ (by omega)

/-- What the writer holds may be looked at, the memory apart. -/
theorem read {f : Writer μ (Watched μ ν) → WriterM μ (Watched μ ν) β}
    {f' : Writer μ Unlimited → WriterM μ Unlimited β}
    (h : ∀ w, w.Sound config → Parallels config (f w) (f' w.unlimited)) :
    Parallels config (get >>= f) (get >>= f') :=
  fun w hw => h w hw w hw

theorem check : Parallels config (Writer.check : WriterM μ (Watched μ ν) Unit) Writer.check := by
  refine read fun w _ => ?_
  have hdisabled : w.unlimited.disabled = w.disabled := rfl
  rw [hdisabled]
  split
  · exact throw _
  · exact pure ()

theorem forM {l : List α} {f : α → WriterM μ (Watched μ ν) Unit} {f' : α → WriterM μ Unlimited Unit}
    (h : ∀ a ∈ l, Parallels config (f a) (f' a)) : Parallels config (l.forM f) (l.forM f') := by
  induction l with
  | nil => exact pure ()
  | cons a l ih =>
    exact (h a List.mem_cons_self).bind fun _ => ih fun b hb => h b (List.mem_cons_of_mem a hb)

theorem spanForM (period origin lo hi : Int) {f : Span → WriterM μ (Watched μ ν) Unit}
    {f' : Span → WriterM μ Unlimited Unit} (h : ∀ span, Parallels config (f span) (f' span)) :
    Parallels config (Span.forM period origin lo hi f) (Span.forM period origin lo hi f') := by
  rw [Span.forM, Span.forM, Span.foldlM_eq_cut, Span.foldlM_eq_cut]
  induction Span.cut period origin lo hi with
  | nil => exact pure ()
  | cons span spans ih => exact (h span).bind fun _ => ih

/-- An operation on the state that is never refused memory. -/
theorem onState {op : WriteM μ (Watched μ ν) α} {op' : WriteM μ Unlimited α}
    (h : ∀ s : WriterState μ (Watched μ ν), s.buffer.Stored →
      s.Stays (stateOf (op s)) ∧ op' s.unlimited = mapState WriterState.unlimited (op s)) :
    Parallels config (Writer.onState op) (Writer.onState op') := by
  intro w hw
  obtain ⟨hstays, hresult⟩ := h w.state hw.stored
  cases hrun : op w.state with
  | ok a s =>
    rw [hrun] at hstays hresult
    have hpages : s.memory.rendered = w.state.memory.rendered := hstays.rendered
    have hop : Writer.onState op w = .ok a { w with state := s } := onState_of_ok hrun
    have hop' : Writer.onState op' w.unlimited = .ok a ⟨s.unlimited, w.disabled⟩ :=
      onState_of_ok hresult
    rw [hop]
    exact ⟨hw.of_stays hstays, (congrArg List.length hpages).ge, fun _ => hop'⟩
  | error e s =>
    rw [hrun] at hstays hresult
    have hpages : s.memory.rendered = w.state.memory.rendered := hstays.rendered
    have hop : Writer.onState op w = .error e { w with state := s } := by
      simp only [Writer.onState, hrun]
    have hop' : Writer.onState op' w.unlimited = .error e ⟨s.unlimited, w.disabled⟩ := by
      have hresult' : op' w.unlimited.state = .error e s.unlimited := hresult
      simp only [Writer.onState, hresult']
      rfl
    rw [hop]
    exact ⟨hw.of_stays hstays, (congrArg List.length hpages).ge, fun _ => hop'⟩

/-- A change of the state that has nothing to do with memory. -/
theorem update {f : WriterState μ (Watched μ ν) → WriterState μ (Watched μ ν)}
    {f' : WriterState μ Unlimited → WriterState μ Unlimited}
    (h : ∀ s, s.buffer.Stored → s.Stays (f s) ∧ f' s.unlimited = (f s).unlimited) :
    Parallels config (Writer.update f) (Writer.update f') :=
  onState fun s hs => ⟨(h s hs).1, congrArg (EStateM.Result.ok ()) (h s hs).2⟩

/-- The image may begin or end. -/
theorem updateImage {f : WriterState μ (Watched μ ν) → WriterState μ (Watched μ ν)}
    {f' : WriterState μ Unlimited → WriterState μ Unlimited}
    (h : ∀ s, (f s).memory = s.memory ∧ (f s).buffer = s.buffer ∧ (f s).config = s.config ∧
      f' s.unlimited = (f s).unlimited)
    (himage : ∀ s, s.config = config → ∀ im ∈ (f s).imageBands,
      config.nbands ≤ im.2 ∧ ∀ bands ∈ im.1, bands.max < config.nbands) :
    Parallels config (Writer.update f) (Writer.update f') := by
  intro w hw
  obtain ⟨hmemory, hbuffer, hconfig, hsame⟩ := h w.state
  have hrun : Writer.update f w = .ok () ⟨f w.state, w.disabled⟩ := rfl
  have hrun' : Writer.update f' w.unlimited = .ok () ⟨f' w.state.unlimited, w.disabled⟩ := rfl
  rw [hrun, hrun', hsame]
  refine ⟨⟨?_, ?_, himage w.state hw.config_eq⟩, ?_, fun _ => rfl⟩
  · show (f w.state).buffer.Stored
    rw [hbuffer]
    exact hw.stored
  · exact hconfig.trans hw.config_eq
  · show w.state.memory.rendered.length ≤ (f w.state).memory.rendered.length
    rw [hmemory]

end Parallels

section

variable [MemoryPolicy μ ν]

variable {ok : WriterState μ (Watched μ ν) → Prop} {op : WriteM μ (Watched μ ν) α}
variable {op' : WriteM μ Unlimited α} {w : Writer μ (Watched μ ν)}

/-- What is not refused memory is done as it is without a limit. -/
theorem attempt_of_not_lack (h : WriterState.ResumesWhen ok op op') (hs : w.state.buffer.Stored)
    (hw : ok w.state) (hlack : ¬ ∃ e s, op w.state = .error e s ∧ e.isRetryable = true) (n : Nat) :
    w.state.Stays (stateOf (attempt op n w)).state ∧
      ∀ m, attempt op' m w.unlimited = mapState unlimited (attempt op n w) := by
  have ho := h w.state hs hw
  cases hrun : op w.state with
  | ok a s =>
    rw [hrun] at ho
    obtain ⟨hstays, hresult⟩ := ho
    rw [attempt_of_ok hrun]
    exact ⟨hstays, fun m => attempt_of_ok hresult m⟩
  | error e s =>
    have he : e.isRetryable = false := by
      by_contra he
      exact hlack ⟨e, s, hrun, by simpa using he⟩
    rw [hrun] at ho
    obtain ⟨hstays, hresult⟩ := ho
    rw [if_neg (by simp [he])] at hresult
    rw [attempt_of_error hrun he]
    exact ⟨hstays, fun m => attempt_of_error hresult he m⟩

/-- An operation that resumes is tried until it does what it does without a limit, or until it lacks
memory for good. -/
theorem attempt_resumes (h : WriterState.ResumesWhen ok op op')
    (hok : ∀ s s', s'.config = s.config → s'.imageBands = s.imageBands → ok s → ok s')
    (n : Nat) (hs : w.state.buffer.Stored) (hw : ok w.state) :
    w.state.Stays (stateOf (attempt op n w)).state ∧
      ((∃ e w', attempt op n w = .error e w' ∧ e.isRetryable = true) ∨
        ∀ m, attempt op' m w.unlimited = mapState unlimited (attempt op n w)) := by
  induction n generalizing w with
  | zero =>
    by_cases hlack : ∃ e s, op w.state = .error e s ∧ e.isRetryable = true
    · obtain ⟨e, s, hrun, he⟩ := hlack
      have ho := h w.state hs hw
      rw [hrun] at ho
      rw [attempt_zero_of_lack hrun he]
      exact ⟨ho.1, .inl ⟨e, _, rfl, he⟩⟩
    · obtain ⟨hstays, hresult⟩ := attempt_of_not_lack h hs hw hlack 0
      exact ⟨hstays, .inr hresult⟩
  | succ n ih =>
    by_cases hlack : ∃ e s, op w.state = .error e s ∧ e.isRetryable = true
    · obtain ⟨e, s, hrun, he⟩ := hlack
      have ho := h w.state hs hw
      rw [hrun] at ho
      obtain ⟨hstays, hresult⟩ := ho
      rw [if_pos he] at hresult
      -- waiting for memory changes nothing that the operation sees
      have hwait : w.state.Stays { s with memory := (MemoryPolicy.freeUp μ s.memory).2 } :=
        ⟨hstays.rendered, hstays.stored, hstays.config, hstays.imageBands⟩
      rcases attempt_succ_of_lack hrun he n with hagain | hfailed
      · have hw' := hok _ _ hwait.config hwait.imageBands hw
        obtain ⟨hstays', hresult'⟩ := ih (w := ⟨_, w.disabled⟩) hwait.stored hw'
        rw [hagain]
        refine ⟨hwait.trans hstays', hresult'.imp id fun hresult' m => ?_⟩
        have hsame : attempt op' m w.unlimited = attempt op' m ⟨s.unlimited, w.disabled⟩ := by
          refine attempt_congr ?_ ?_ m
          · exact hresult.symm
          · rfl
        exact hsame.trans (hresult' m)
      · rw [hfailed]
        exact ⟨hwait, .inl ⟨e, _, rfl, he⟩⟩
    · obtain ⟨hstays, hresult⟩ := attempt_of_not_lack h hs hw hlack (n + 1)
      exact ⟨hstays, .inr hresult⟩

/-- An empty page is started only after a partial page was noted. -/
theorem flushRecovery_cases (hlack : MemoryPolicy.RefusesForLack μ ν) {config : Config}
    (hw : w.Sound config) :
    (stateOf (flushRecovery w)).Sound config ∧
      (stateOf (flushRecovery w)).state.imageBands = w.state.imageBands ∧
      (stateOf (flushRecovery w)).pages.length = w.pages.length + 1 := by
  obtain ⟨hpages, hstored, hconfig, himage⟩ := WriterState.renderPartialPage_cases hw.stored
  cases hrender : WriterState.renderPartialPage w.state with
  | error e s =>
    rw [hrender] at hpages hstored hconfig himage
    have hrun : critical (onState WriterState.renderPartialPage) w = .error e ⟨s, w.disabled || true⟩ := by
      simp only [critical, disablingIf, onState, hrender]
    rw [flushRecovery, bind_of_error hrun]
    exact ⟨hw.of_eq hstored hconfig himage, himage, hpages⟩
  | ok u s =>
    rw [hrender] at hpages hstored hconfig himage
    have hrun : critical (onState WriterState.renderPartialPage) w = .ok () ⟨s, w.disabled⟩ := by
      simp only [critical, disablingIf, onState, hrender]
    have hreset : update WriterState.resetPage (⟨s, w.disabled⟩ : Writer μ (Watched μ ν)) =
        .ok () ⟨s.resetPage, w.disabled⟩ := rfl
    have himage' : s.resetPage.imageBands = w.state.imageBands := by
      rw [← show s.imageBands = w.state.imageBands from himage, WriterState.imageBands,
        WriterState.imageBands, WriterState.resetPage, Option.map_map]
      rfl
    have hput := WriterState.staying_putPageState hlack s.resetPage hstored
    rw [flushRecovery, bind_of_ok hrun, bind_of_ok hreset]
    have hstate : (stateOf (critical (onState WriterState.putPageState)
        (⟨s.resetPage, w.disabled⟩ : Writer μ (Watched μ ν)))).state =
          stateOf (WriterState.putPageState s.resetPage) := by
      simp only [critical, disablingIf, onState]
      cases WriterState.putPageState s.resetPage <;> rfl
    refine ⟨hw.of_eq ?_ ?_ ?_, ?_, ?_⟩
    · rw [hstate]
      exact hput.stored
    · rw [hstate, hput.config]
      exact hconfig
    · rw [hstate, hput.imageBands, himage']
    · rw [hstate, hput.imageBands, himage']
    · rw [pages, hstate, hput.rendered]
      exact hpages

/-- A request that recovers from a lack of memory keeps its parallel if its operation resumes. -/
theorem parallels_withRecovery (hlack : MemoryPolicy.RefusesForLack μ ν) {config : Config}
    (h : WriterState.ResumesWhen ok op op')
    (hok : ∀ s s', s'.config = s.config → s'.imageBands = s.imageBands → ok s → ok s')
    (hsound : ∀ w, Sound config w → ok w.state) :
    Parallels config (withRecovery op) (withRecovery op') := by
  intro w hw
  have hun : w.unlimited.disabled = w.disabled := rfl
  cases hdisabled : w.disabled with
  | true =>
    rw [withRecovery_of_disabled op hdisabled, withRecovery_of_disabled op' (hun.trans hdisabled)]
    exact ⟨hw, le_rfl, fun _ => rfl⟩
  | false =>
    have hbudget : w.unlimited.state.config = w.state.config := rfl
    obtain ⟨hstays, hresult⟩ :=
      attempt_resumes h hok w.state.config.retryBudget hw.stored (hsound w hw)
    rw [withRecovery_eq op hdisabled, withRecovery_eq op' (hun.trans hdisabled), hbudget]
    cases hrun : attempt op w.state.config.retryBudget w with
    | ok a w₁ =>
      rw [hrun] at hstays hresult
      obtain ⟨e, w', hfailed, -⟩ | hresult := hresult
      · cases hfailed
      · rw [hresult]
        exact ⟨hw.of_stays hstays, (congrArg List.length hstays.rendered).ge, fun _ => rfl⟩
    | error e w₁ =>
      rw [hrun] at hstays hresult
      have hw₁ : w₁.Sound config := hw.of_stays hstays
      have hpages₁ : w₁.pages.length = w.pages.length := congrArg List.length hstays.rendered
      cases he : e.isRetryable with
      | false =>
        obtain ⟨e', w', hfailed, he'⟩ | hresult := hresult
        · cases hfailed
          simp [he] at he'
        · rw [hresult]
          simp only [mapState, he]
          exact ⟨hw₁, hpages₁.ge, fun _ => rfl⟩
      | true =>
        dsimp only
        rw [if_pos he]
        -- a page more has been rendered, whatever becomes of the last try
        suffices hmore : (stateOf ((flushRecovery >>= fun _ =>
            attempt op w.state.config.retryBudget) w₁)).Sound config ∧
            w.pages.length < (stateOf ((flushRecovery >>= fun _ =>
              attempt op w.state.config.retryBudget) w₁)).pages.length from
          ⟨hmore.1, hmore.2.le, fun heq => absurd heq hmore.2.ne'⟩
        obtain ⟨hw₂, -, hpages₂⟩ := flushRecovery_cases hlack hw₁
        cases hflush : flushRecovery w₁ with
        | error e₂ w₂ =>
          rw [hflush] at hw₂ hpages₂
          have hpages₂' : w₂.pages.length = w₁.pages.length + 1 := hpages₂
          rw [bind_of_error hflush]
          refine ⟨hw₂, ?_⟩
          show w.pages.length < w₂.pages.length
          omega
        | ok u w₂ =>
          rw [hflush] at hw₂ hpages₂
          rw [bind_of_ok hflush]
          obtain ⟨hstays₂, -⟩ :=
            attempt_resumes h hok w.state.config.retryBudget hw₂.stored (hsound w₂ hw₂)
          have hpages₃ : (stateOf (attempt op w.state.config.retryBudget w₂)).pages.length =
              w₂.pages.length := congrArg List.length hstays₂.rendered
          have hpages₂' : w₂.pages.length = w₁.pages.length + 1 := hpages₂
          exact ⟨Sound.of_stays hw₂ hstays₂, by omega⟩

end

end Writer

end BandedPage
