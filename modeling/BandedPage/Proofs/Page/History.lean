import Mathlib
import BandedPage.Proofs.Page.Draws
import BandedPage.Proofs.Writer.PageState
import BandedPage.Proofs.Writer.Watched

/-!
# The history of a page

A page that had to be emptied lives on in the partial pages that were rendered. What has been drawn
for a band is what replay of each of them draws there, in order, and then what replay of the commands
since draws. Recovery from a lack of memory changes none of it: whatever becomes of an operation, it
has drawn all of what it draws, or nothing.
-/

namespace BandedPage

variable {μ ν : Type} [Medium μ] [LawfulMedium μ]

/-- The calls that draw. -/
def drawing (calls : List TargetCall) : List TargetCall := calls.filter (!·.isSetting)

@[simp] theorem drawing_append (calls calls' : List TargetCall) :
    drawing (calls ++ calls') = drawing calls ++ drawing calls' :=
  List.filter_append ..

theorem drawing_of_settings {calls : List TargetCall} (h : ∀ call ∈ calls, call.isSetting = true) :
    drawing calls = [] := by
  simpa [drawing] using h

/-- The writer may go on. What its history draws for each band is `drawn`. -/
structure Writer.Told (q : Terms) (config : Config) (w : Writer μ (Watched μ ν))
    (drawn : Nat → List TargetCall) : Prop where
  enabled : w.disabled = false
  config_eq : w.state.config = config
  history : ∃ (pages : List (Nat → List TargetCall)) (calls : Nat → List TargetCall),
    Synced q w.state calls ∧
      List.Forall₂ (fun store page =>
        store.commandLength < 9223372036854775808 → BandStore.Draws store config page)
        w.state.memory.rendered pages ∧
      ∀ band < config.nbands, drawn band = drawing ((pages ++ [calls]).flatMap (· band))

/-- Beyond `drawn` the history draws calls of which `p` holds, and `I` holds of the state. -/
def Writer.ToldMore (q : Terms) (config : Config) (I : WriterState μ (Watched μ ν) → Prop)
    (p : (Nat → List TargetCall) → Prop) (drawn : Nat → List TargetCall)
    (w : Writer μ (Watched μ ν)) : Prop :=
  I w.state ∧ ∃ more, p more ∧ w.Told q config fun band => drawn band ++ drawing (more band)

/-- What is so of a writer's state and stays so, whatever recovery does to it. -/
structure WriterState.Lasting (config : Config) (I : WriterState μ ν → Prop) : Prop where
  config_eq : ∀ {s}, I s → s.config = config
  sendable : ∀ {s}, I s → s.PageSendable
  alike : ∀ {s s'}, I s → s.Alike s' → I s'
  reset : ∀ {s}, I s → I s.resetPage

/-- What an operation may make replay call: `all` of it if it succeeds, `some` if it fails. Failing
again and again adds no more than failing once, and then it may still succeed. -/
structure Adds where
  all : (Nat → List TargetCall) → Prop
  some : (Nat → List TargetCall) → Prop
  nothing : some fun _ => []
  again {a b : Nat → List TargetCall} : some a → some b → some fun band => a band ++ b band
  after {a b : Nat → List TargetCall} : some a → all b → all fun band => a band ++ b band

/-- Calls for one band, all of them or none. -/
def Adds.onBand (band : Nat) (P : List TargetCall → Prop) : Adds where
  all more := P (more band) ∧ ∀ b, b ≠ band → more b = []
  some more := more = fun _ => []
  nothing := rfl
  again ha hb := by
    subst ha hb
    rfl
  after ha hb := by
    subst ha
    exact hb

def Adds.settings : Adds where
  all more := ∀ band, drawing (more band) = []
  some more := ∀ band, drawing (more band) = []
  nothing _ := rfl
  again ha hb band := by simp [ha, hb]
  after ha hb band := by simp [ha, hb]

/-- Wherever `I` holds, the operation makes replay call some more, as `A` says; `q'` are the terms
once it has succeeded. -/
structure Carries [MemoryPolicy μ ν] (q q' : Terms) (I : WriterState μ (Watched μ ν) → Prop)
    (op : WriteM μ (Watched μ ν) Unit) (A : Adds) : Prop where
  rendersNothing : WriterState.RendersNothing op
  meets : ∀ s calls, I s → Synced q s calls → Meets op s
    (fun _ s' => I s' ∧ ∃ more, A.all more ∧ Synced q' s' fun band => calls band ++ more band)
    fun _ s' => I s' ∧ ∃ more, A.some more ∧ Synced q s' fun band => calls band ++ more band

namespace CommandBuffer

/-- Nothing is left of what bands were sent when the store is emptied too. -/
theorem Keeps.discard {b : CommandBuffer μ} {nbands : Nat} {runs : List CommandRun}
    {sent : Nat → List Command} (h : b.Keeps nbands runs sent) {store : BandStore μ}
    (hstore : store.Contains []) :
    Keeps { b.discard with store } nbands [] fun _ => [] where
  store := hstore
  within r hr := absurd hr List.not_mem_nil
  size := by simpa [CommandBuffer.discard] using h.size
  range := h.range
  sent_eq band _ := by
    show [] = [] ++ ((if b.range.contains band then b.discard.shared.toList else []) ++
      (b.discard.bands.getD band #[]).toList)
    rw [getD_bands_discard, shared_discard]
    simp
  pending := by
    rw [heldBytes, held_discard]
    rfl
  fits := Nat.zero_le _
  last_none _ := held_discard b store
  last_range bands hlast := absurd hlast (by simp [CommandBuffer.discard])

end CommandBuffer

/-- A page that was emptied is as a new one. -/
theorem Synced.resetPage {q : Terms} {s : WriterState μ ν} {calls : Nat → List TargetCall}
    (h : Synced q s calls) {store : BandStore μ} (hstore : store.Contains []) (memory : ν) :
    Synced q ({ s with buffer := { s.buffer.discard with store }, memory } :
      WriterState μ ν).resetPage fun _ => [] := by
  obtain ⟨runs, sent, hk, -⟩ := h.replays
  refine synced_fresh h.valid h.capacity ?_ (fun band => ?_) ((hk.discard hstore).discard hstore)
    h.cache.heapSize ?_ rfl (TileCache.entryAt_reset s.tiles) rfl fun im him band => ?_
  · simpa [WriterState.resetPage] using h.size
  · rw [WriterState.band, WriterState.resetPage]
    by_cases hband : band < s.bands.size
    · simp [hband]
    · simp [hband]
  · simpa [WriterState.resetPage, TileCache.reset] using h.cache.tableSize
  · obtain ⟨im', -, rfl⟩ := Option.mem_map.mp him
    exact BandSet.contains_clear ..

/-- The page so far is rendered as what replay draws; a page that is emptied then is as a new one. -/
theorem Synced.renderPartialPage [MemoryPolicy μ ν] {q : Terms} {s : WriterState μ (Watched μ ν)}
    {calls : Nat → List TargetCall} (h : Synced q s calls) (hbands : s.config.nbands ≤ 2147483648) :
    Meets WriterState.renderPartialPage s
      (fun _ s' => s.Alike s' ∧ Synced q s'.resetPage (fun _ => []) ∧ ∃ store,
        s'.memory.rendered = s.memory.rendered ++ [store] ∧
          (store.commandLength < 9223372036854775808 → store.Draws s.config calls))
      fun _ _ => True := by
  obtain ⟨store, hclose, ⟨entries, hstore⟩, hdraws⟩ := h.closePage hbands
  have hnoted := Watched.rendered_renderPartialPage store s.memory
  rw [Meets, WriterState.renderPartialPage, bind_of_ok (WriterState.onBuffer_of_ok hclose),
    get_bind_run]
  cases hrender : (MemoryPolicy.renderPartialPage store : EStateM Error (Watched μ ν) Unit)
      s.memory with
  | error e memory =>
    rw [bind_of_error (WriterState.onMemory_of_error
      (s := { s with buffer := { s.buffer.discard with store } }) hrender)]
    trivial
  | ok u memory =>
    rw [hrender] at hnoted
    obtain ⟨empty, htruncate, hempty⟩ := BandStore.truncate_eq hstore
    rw [bind_of_ok (WriterState.onMemory_of_ok
      (s := { s with buffer := { s.buffer.discard with store } }) hrender)]
    have hlast : WriterState.onBuffer (CommandBuffer.onStore BandStore.truncate)
        { s with buffer := { s.buffer.discard with store }, memory } =
        .ok () { s with buffer := { s.buffer.discard with store := empty }, memory } := by
      simp only [WriterState.onBuffer, CommandBuffer.onStore, htruncate]
    rw [hlast]
    exact ⟨⟨rfl, rfl, rfl, rfl, rfl, rfl, rfl, rfl⟩, h.resetPage hempty memory, store, hnoted, hdraws⟩

omit [Medium μ] [LawfulMedium μ] in
/-- An operation that has to succeed does, or the writer is switched off. -/
theorem Meets.critical {α : Type} {ν : Type} {m : WriteM μ ν α} {w : Writer μ ν}
    {P : α → WriterState μ ν → Prop} {E : Error → WriterState μ ν → Prop}
    (h : Meets m w.state P E) :
    Meets (Writer.critical (Writer.onState m)) w
      (fun a w' => w'.disabled = w.disabled ∧ P a w'.state) fun _ w' => w'.disabled = true := by
  cases hrun : m w.state with
  | ok a s =>
    have : Writer.critical (Writer.onState m) w = .ok a ⟨s, w.disabled⟩ := by
      simp only [Writer.critical, Writer.disablingIf, Writer.onState, hrun]
    exact .of_ok this ⟨rfl, h.ok hrun⟩
  | error e s =>
    have : Writer.critical (Writer.onState m) w = .error e ⟨s, w.disabled || true⟩ := by
      simp only [Writer.critical, Writer.disablingIf, Writer.onState, hrun]
    exact .of_error this (Bool.or_true _)

/-- What is told after something else was. -/
theorem Writer.ToldMore.after {q : Terms} {config : Config}
    {I : WriterState μ (Watched μ ν) → Prop} {p p' : (Nat → List TargetCall) → Prop}
    {drawn a : Nat → List TargetCall} {w : Writer μ (Watched μ ν)}
    (h : w.ToldMore q config I p fun band => drawn band ++ drawing (a band))
    (hp : ∀ {b}, p b → p' fun band => a band ++ b band) : w.ToldMore q config I p' drawn := by
  obtain ⟨hw, b, hb, htold⟩ := h
  refine ⟨hw, _, hp hb, ?_⟩
  simpa only [drawing_append, List.append_assoc] using htold

namespace Writer.Told

variable [MemoryPolicy μ ν] {q q' : Terms} {config : Config} {w : Writer μ (Watched μ ν)}
variable {drawn : Nat → List TargetCall} {I : WriterState μ (Watched μ ν) → Prop}
variable {op : WriteM μ (Watched μ ν) Unit} {A : Adds}

omit [MemoryPolicy μ ν] in
/-- Replay of the page that is being written comes to make some more calls. -/
theorem extend (h : w.Told q config drawn) :
    ∃ calls, Synced q w.state calls ∧ ∀ {q' : Terms} {s : WriterState μ (Watched μ ν)}
      {more : Nat → List TargetCall}, s.config = config →
      s.memory.rendered = w.state.memory.rendered →
      (Synced q' s fun band => calls band ++ more band) →
      Told q' config ⟨s, false⟩ fun band => drawn band ++ drawing (more band) := by
  obtain ⟨pages, calls, hcalls, hpages, hdrawn⟩ := h.history
  refine ⟨calls, hcalls, fun hconfig hrendered hsynced => ⟨rfl, hconfig, pages, _, hsynced,
    hrendered ▸ hpages, fun band hband => ?_⟩⟩
  rw [hdrawn band hband]
  simp

omit [MemoryPolicy μ ν] in
/-- Nothing has changed that replay depends on. -/
theorem keep (h : w.Told q config drawn) {s : WriterState μ (Watched μ ν)}
    (hconfig : s.config = config) (hrendered : s.memory.rendered = w.state.memory.rendered)
    (hsynced : ∀ calls, Synced q w.state calls → Synced q' s calls) :
    Told q' config ⟨s, false⟩ drawn := by
  obtain ⟨pages, calls, hcalls, hpages, hdrawn⟩ := h.history
  exact ⟨rfl, hconfig, pages, calls, hsynced calls hcalls, hrendered ▸ hpages, hdrawn⟩

/-- An operation is done once. -/
theorem run (h : w.Told q config drawn) (hI : WriterState.Lasting config I) (hw : I w.state)
    (hop : Carries q q' I op A) :
    Meets op w.state (fun _ s => ToldMore q' config I A.all drawn ⟨s, false⟩)
      fun _ s => ToldMore q config I A.some drawn ⟨s, false⟩ := by
  obtain ⟨calls, hcalls, hextend⟩ := h.extend
  refine (hop.rendersNothing.meets (hop.meets w.state calls hw hcalls)).mono (fun _ s h => ?_)
    fun _ s h => ?_
  · obtain ⟨⟨hs, more, hmore, hsynced⟩, hrendered⟩ := h
    exact ⟨hs, more, hmore, hextend (hI.config_eq hs) hrendered hsynced⟩
  · obtain ⟨⟨hs, more, hmore, hsynced⟩, hrendered⟩ := h
    exact ⟨hs, more, hmore, hextend (hI.config_eq hs) hrendered hsynced⟩

/-- An operation that does not lack memory is not tried again. -/
theorem attempt_of_not_lack (h : w.Told q config drawn) (hI : WriterState.Lasting config I)
    (hw : I w.state) (hop : Carries q q' I op A)
    (hlack : ¬ ∃ e s, op w.state = .error e s ∧ e.isRetryable = true) (n : Nat) :
    Meets (Writer.attempt op n) w (fun _ => ToldMore q' config I A.all drawn)
      fun e w' => e.isRetryable = false ∧ w'.disabled = true ∨
        w'.ToldMore q config I A.some drawn := by
  have hmeets := h.run hI hw hop
  cases hrun : op w.state with
  | ok u s =>
    refine .of_ok (attempt_of_ok hrun n) ?_
    rw [h.enabled]
    exact hmeets.ok hrun
  | error e s =>
    have he : e.isRetryable = false := by
      by_contra he
      exact hlack ⟨e, s, hrun, by simpa using he⟩
    refine .of_error (attempt_of_error hrun he n) ?_
    rw [h.enabled]
    cases e.isIo with
    | true => exact .inl ⟨he, rfl⟩
    | false => exact .inr (hmeets.error hrun)

/-- An operation is tried some times. -/
theorem attempt (h : w.Told q config drawn) (hI : WriterState.Lasting config I) (hw : I w.state)
    (hop : Carries q q' I op A) (n : Nat) :
    Meets (Writer.attempt op n) w (fun _ => ToldMore q' config I A.all drawn)
      fun e w' => e.isRetryable = false ∧ w'.disabled = true ∨
        w'.ToldMore q config I A.some drawn := by
  induction n generalizing w drawn with
  | zero =>
    by_cases hlack : ∃ e s, op w.state = .error e s ∧ e.isRetryable = true
    · obtain ⟨e, s, hrun, he⟩ := hlack
      refine .of_error (attempt_zero_of_lack hrun he) (.inr ?_)
      rw [h.enabled]
      exact (h.run hI hw hop).error hrun
    · exact h.attempt_of_not_lack hI hw hop hlack 0
  | succ n ih =>
    by_cases hlack : ∃ e s, op w.state = .error e s ∧ e.isRetryable = true
    · obtain ⟨e, s, hrun, he⟩ := hlack
      obtain ⟨hs, more, hmore, htold⟩ := (h.run hI hw hop).error hrun
      -- waiting for memory changes nothing else
      have hs' : I { s with memory := (MemoryPolicy.freeUp μ s.memory).2 } := hI.alike hs
        ⟨rfl, rfl, rfl, rfl, rfl, rfl, rfl, rfl⟩
      have htold' := htold.keep (hI.config_eq hs') rfl fun calls hcalls => hcalls.withMemory _
      rcases attempt_succ_of_lack hrun he n with hagain | hfailed
      · rw [Meets, hagain, h.enabled]
        exact (ih htold' hs').mono (fun _ _ h => h.after (A.after hmore))
          fun _ _ h => h.imp_right (·.after (A.again hmore))
      · refine .of_error hfailed (.inr ?_)
        rw [h.enabled]
        exact ⟨hs', more, hmore, htold'⟩
    · exact h.attempt_of_not_lack hI hw hop hlack _

/-- The page so far is rendered, and its history goes on with an empty one. -/
theorem flushRecovery (h : w.Told q config drawn) (hI : WriterState.Lasting config I)
    (hw : I w.state) (hbands : config.nbands ≤ 2147483648) :
    Meets Writer.flushRecovery w
      (fun _ w' => I w'.state ∧ w'.Told q config drawn ∧
        ∃ s : WriterState μ (Watched μ ν), s.resetPage.Alike w'.state)
      fun _ w' => w'.disabled = true := by
  obtain ⟨pages, calls, hcalls, hpages, hdrawn⟩ := h.history
  have hrender := hcalls.renderPartialPage (by rw [h.config_eq]; exact hbands)
  refine hrender.critical.bind fun _ w₁ ⟨hw₁, halike, hreset, store, hnoted, hdraws⟩ => ?_
  have hs := hI.reset (hI.alike hw halike)
  have hupdate : Writer.update (·.resetPage) w₁ = .ok () ⟨w₁.state.resetPage, w₁.disabled⟩ := rfl
  refine Meets.bind (P := fun _ w₂ => w₂ = ⟨w₁.state.resetPage, w₁.disabled⟩)
    (Meets.of_ok hupdate rfl) fun _ w₂ hw₂ => ?_
  subst hw₂
  have hput := WriterState.rendersNothing_putPageState.meets (hreset.putPageState (hI.sendable hs))
  refine (Meets.critical (w := ⟨w₁.state.resetPage, w₁.disabled⟩) hput).mono
    (fun _ w₂ ⟨hw₂, ⟨hkept, more, hmore, hsynced⟩, hsame⟩ => ?_) fun _ _ h => h
  have hs₂ := hI.alike hs hkept.alike
  refine ⟨hs₂, ⟨hw₂.trans (hw₁.trans h.enabled), hI.config_eq hs₂, pages ++ [calls], _, hsynced, ?_,
    fun band hband => ?_⟩, w₁.state, hkept.alike⟩
  · have hpage : List.Forall₂ (fun store page =>
        store.commandLength < 9223372036854775808 → BandStore.Draws store config page)
        (w.state.memory.rendered ++ [store]) (pages ++ [calls]) :=
      List.rel_append hpages (.cons (h.config_eq ▸ hdraws) .nil)
    rw [← hnoted] at hpage
    exact hsame ▸ hpage
  · have hnone : drawing (more band) = [] := drawing_of_settings (hmore band)
    rw [hdrawn band hband]
    simp [hnone]

/-- An operation is done in spite of a lack of memory, or the writer has told what it may tell when it
fails. -/
theorem withRecovery (h : w.Told q config drawn) (hI : WriterState.Lasting config I) (hw : I w.state)
    (hop : Carries q q' I op A) (hbands : config.nbands ≤ 2147483648) :
    Meets (Writer.withRecovery op) w (fun _ => ToldMore q' config I A.all drawn)
      fun _ w' => w'.disabled = true ∨ w'.ToldMore q config I A.some drawn := by
  have hattempt := h.attempt hI hw hop w.state.config.retryBudget
  rw [Meets, withRecovery_eq op h.enabled]
  cases hrun : Writer.attempt op w.state.config.retryBudget w with
  | ok u w' => exact hattempt.ok hrun
  | error e w' =>
    have hfailed := hattempt.error hrun
    cases he : e.isRetryable with
    | false => simpa [he] using hfailed.imp_left And.right
    | true =>
      rcases hfailed with ⟨hnot, -⟩ | ⟨hw', more, hmore, htold⟩
      · exact absurd he (by simp [hnot])
      · have hagain : Meets (Writer.flushRecovery >>= fun _ =>
            Writer.attempt op w.state.config.retryBudget) w'
            (fun _ => ToldMore q' config I A.all drawn)
            fun _ w' => w'.disabled = true ∨ w'.ToldMore q config I A.some drawn := by
          refine Meets.bind ((htold.flushRecovery hI hw' hbands).mono (fun _ _ h => h)
            fun _ _ h => Or.inl h) fun _ w'' hflushed => ?_
          obtain ⟨hw'', htold', -⟩ := hflushed
          exact (htold'.attempt hI hw'' hop _).mono (fun _ _ h => h.after (A.after hmore))
            fun _ _ h => h.imp And.right (·.after (A.again hmore))
        dsimp only
        rw [if_pos he]
        exact hagain

end Writer.Told

end BandedPage
