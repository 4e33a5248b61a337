import Mathlib
import BandedPage.Proofs.Page.Following
import BandedPage.Proofs.Page.Images
import BandedPage.Proofs.Writer.Parallels

/-!
# What a session can reach

A writer is opened on an empty page. From there requests are served, granted or not, images among
them; what is held is stored; pages end, and others begin. As long as none of it switches the writer
off, it is in step with replay.
-/

namespace BandedPage

variable {μ ν : Type}

namespace WriterState

/-- The state at the start of another page, for which this store is empty. -/
def emptied (s : WriterState μ ν) (store : BandStore μ) : WriterState μ ν :=
  ({ s with buffer := { s.buffer with store } } : WriterState μ ν).resetPage

/-- What is held makes no difference to the next page. -/
theorem resetPage_discard (s : WriterState μ ν) (store : BandStore μ) :
    ({ s with buffer := { s.buffer.discard with store } } : WriterState μ ν).resetPage =
      s.emptied store := by
  simp [emptied, resetPage, CommandBuffer.discard, Function.comp_def]

@[simp] theorem emptied_emptied (s : WriterState μ ν) (store store' : BandStore μ) :
    (s.emptied store).emptied store' = s.emptied store' := by
  simp [emptied, resetPage, CommandBuffer.discard, TileCache.reset, BandSet.clear, Function.comp_def]

theorem Ready.emptied {S : Session} {clip : Option ClipPath} {s : WriterState μ ν}
    (h : s.Ready S clip) (store : BandStore μ) : (s.emptied store).Ready S clip :=
  Ready.reset (s := { s with buffer := { s.buffer with store } })
    (h.alike ⟨rfl, rfl, rfl, rfl, rfl, rfl, rfl, rfl⟩)

end WriterState

variable [Medium μ] [LawfulMedium μ] [MemoryPolicy μ ν]

namespace Writer.InSession

variable {S : Session} {clip : Option ClipPath} {w w₁ : Writer μ (Watched μ ν)}
variable {drawn : Nat → List TargetCall}

omit [MemoryPolicy μ ν] in
/-- What is held may be stored at any time. -/
theorem flush (h : w.InSession S clip drawn) :
    Meets Writer.flush w (fun _ w' => w'.InSession S clip drawn) fun _ w' => w'.disabled = true := by
  obtain ⟨pages, calls, hcalls, hpages, hdrawn⟩ := h.told.history
  obtain ⟨runs, sent, hk, hreplays⟩ := hcalls.replays
  obtain ⟨store, runs', hflush, hk', -⟩ := hk.flush
  have hrun : Writer.critical (Writer.onState
      (WriterState.onBuffer (CommandBuffer.flush Opcode.endRun))) w =
      .ok () { w with state := { w.state with buffer := { w.state.buffer.discard with store } } } :=
    Writer.disablingIf_of_ok (Writer.onState_of_ok (WriterState.onBuffer_of_ok hflush))
  rw [Meets, Writer.flush, bind_of_ok (Writer.check_eq h.told.enabled), hrun]
  refine ⟨⟨h.told.enabled, h.told.config_eq, pages, calls, ?_, hpages, hdrawn⟩,
    h.ready.alike ⟨rfl, rfl, rfl, rfl, rfl, rfl, rfl, rfl⟩⟩
  exact ⟨hcalls.valid, hcalls.capacity, hcalls.size, { hcalls.cache with }, runs', sent, hk',
    fun band hband => by
      obtain ⟨r, hr, hm, ht⟩ := hreplays band hband
      exact ⟨r, hr, { hm with }, { ht with }⟩⟩

/-- A page begins as a new one with what is in force, whatever is held for the last one. -/
theorem beginPage (h : w.InSession S clip drawn) (henabled : w₁.disabled = false)
    {entries : List StoreEntry} (hstore : w₁.state.buffer.store.Contains entries)
    (hreset : ∀ store, w₁.state.emptied store = w.state.emptied store) :
    Meets Writer.beginPage w₁ (fun _ w' => ∃ drawn', w'.InSession S clip drawn') fun _ _ => True := by
  obtain ⟨pages, calls, hcalls, hpages, -⟩ := h.told.history
  obtain ⟨empty, htruncate, hempty⟩ := BandStore.truncate_eq hstore
  have hstart : Synced (S.on clip) (w.state.emptied empty) fun _ => [] := by
    have := hcalls.resetPage hempty w.state.memory
    rwa [← WriterState.resetPage_discard]
  have hready := h.ready.emptied empty
  have hemptied : Writer.onState (WriterState.onBuffer (CommandBuffer.onStore BandStore.truncate)) w₁ =
      .ok () { w₁ with state :=
        { w₁.state with buffer := { w₁.state.buffer with store := empty } } } := by
    refine Writer.onState_of_ok (WriterState.onBuffer_of_ok ?_)
    simp only [CommandBuffer.onStore, htruncate]
  have hput := WriterState.rendersNothing_putPageState.meets (hstart.putPageState hready.page)
  rw [Meets, Writer.beginPage, bind_of_ok (Writer.check_eq henabled), bind_of_ok hemptied]
  refine Meets.bind (P := fun _ w₂ => w₂ = ⟨w.state.emptied empty, false⟩)
    (Meets.of_ok rfl (by rw [← hreset, henabled]; rfl)) fun _ w₂ hw₂ => ?_
  subst hw₂
  refine (Meets.critical (w := ⟨w.state.emptied empty, false⟩) hput).mono (fun _ w₂ h₂ => ?_)
    fun _ _ _ => trivial
  obtain ⟨hsame, ⟨hkept, more, -, hsynced⟩, hrendered⟩ := h₂
  have hready₂ := hready.alike hkept.alike
  exact ⟨_, ⟨hsame, hready₂.config_eq, pages, _, hsynced, hrendered ▸ hpages, fun _ _ => rfl⟩, hready₂⟩

omit [MemoryPolicy μ ν] in
/-- A page is closed, once its image has ended. -/
theorem closePage (h : w.InSession S clip drawn) (hS : S.Sound) :
    ∃ store entries, store.Contains entries ∧
      (Writer.critical (Writer.onState (WriterState.onBuffer CommandBuffer.closePage)) >>= fun _ =>
        Writer.update (·.resetPage) : WriterM μ (Watched μ ν) Unit) w =
          .ok () { w with state := w.state.emptied store } := by
  obtain ⟨pages, calls, hcalls, -, -⟩ := h.told.history
  obtain ⟨store, hclose, ⟨entries, hstore⟩, -⟩ :=
    hcalls.closePage (by rw [h.ready.config_eq]; exact hS.nbands_le)
  have hrun : Writer.critical (Writer.onState (WriterState.onBuffer CommandBuffer.closePage)) w =
      .ok () { w with state := { w.state with buffer := { w.state.buffer.discard with store } } } :=
    Writer.disablingIf_of_ok (Writer.onState_of_ok (WriterState.onBuffer_of_ok hclose))
  refine ⟨store, entries, hstore, ?_⟩
  rw [bind_of_ok hrun, ← WriterState.resetPage_discard]
  rfl

/-- A page ends and another begins. -/
theorem turnPage (h : w.InSession S clip drawn) (hS : S.Sound) (hended : ∀ band, ¬ S.terms.ended band)
    (hlack : MemoryPolicy.RefusesForLack μ ν) (hend : Writer.endPage w = .ok () w₁) :
    Meets Writer.beginPage w₁ (fun _ w' => ∃ clip' drawn', w'.InSession S clip' drawn')
      fun _ _ => True := by
  have hclosed : ∀ {clip' : Option ClipPath} {v : Writer μ (Watched μ ν)}
      {drawn' : Nat → List TargetCall}, v.InSession S clip' drawn' →
      (Writer.critical (Writer.onState (WriterState.onBuffer CommandBuffer.closePage)) >>= fun _ =>
        Writer.update (·.resetPage) : WriterM μ (Watched μ ν) Unit) v = .ok () w₁ →
      Meets Writer.beginPage w₁ (fun _ w' => ∃ clip' drawn', w'.InSession S clip' drawn')
        fun _ _ => True := by
    intro clip' v drawn' hv hrun
    obtain ⟨store, entries, hstore, hclose⟩ := hv.closePage hS
    rw [hclose] at hrun
    cases hrun
    have hclosed : ((⟨v.state.emptied store, v.disabled⟩ : Writer μ (Watched μ ν))).disabled = false :=
      hv.told.enabled
    exact (hv.beginPage hclosed hstore (WriterState.emptied_emptied _ _)).mono (fun _ _ h => ⟨clip', h⟩) fun _ _ h => h
  obtain ⟨-, hend⟩ := Writer.of_check_bind_eq_ok hend
  rw [get_bind_run] at hend
  split at hend
  · next him =>
    obtain ⟨im, him⟩ := Option.isSome_iff_exists.mp him
    obtain ⟨u, v, hv, hend⟩ := bind_eq_ok_iff.mp hend
    obtain ⟨-, more, -, hsession⟩ :=
      ((Writer.Showing.of_inSession h him).endImage hS hended hlack).ok hv
    exact hclosed hsession hend
  · exact hclosed h hend

end Writer.InSession

namespace Session

variable {S : Session}

/-- A request that the session answers; images may be among them. -/
def AdmitsAny (S : Session) : Intent → Prop
  | .beginImage ps header space color clip => S.AdmitsImage ps header space color clip
  | .imageData _ height => height < 4294967296
  | .endImage => True
  | intent => S.Admits intent

/-- A writer of the session, after whatever it was asked to do. -/
inductive Reached (S : Session) : Writer μ (Watched μ ν) → Prop
  /-- A writer is opened on an empty store. -/
  | opened {store : BandStore μ} (memory : ν) (hstore : store.Contains []) :
    Reached S (.onEmptyPage S.config store memory)
  /-- A request is granted or not. -/
  | served {w : Writer μ (Watched μ ν)} {intent : Intent} (h : Reached S w)
    (hintent : S.AdmitsAny intent) : Reached S (intent.serve w).2
  /-- What is held is stored. -/
  | flushed {w w' : Writer μ (Watched μ ν)} (h : Reached S w) (hflush : Writer.flush w = .ok () w') :
    Reached S w'
  /-- A page is given up for another. -/
  | restarted {w w' : Writer μ (Watched μ ν)} (h : Reached S w)
    (hbegin : Writer.beginPage w = .ok () w') : Reached S w'
  /-- A page ends and another begins. -/
  | turned {w w₁ w' : Writer μ (Watched μ ν)} (h : Reached S w) (hend : Writer.endPage w = .ok () w₁)
    (hbegin : Writer.beginPage w₁ = .ok () w') : Reached S w'

/-- Image rows can be counted, and images end for all bands alike. -/
structure Sequel (S : Session) : Prop extends S.Sound where
  imprecise : ¬ S.terms.exactImager
  lop : S.lops .default
  ended : ∀ band, ¬ S.terms.ended band
  room : S.config.payloadRoom < 4294967296

/-- Every request that the session answers is served. -/
theorem serves_any (hS : S.Sequel) (hlack : MemoryPolicy.RefusesForLack μ ν) {intent : Intent}
    (h : S.AdmitsAny intent) :
    ∃ P, S.Serves (intent.perform : WriterM μ (Watched μ ν) Unit) P := by
  cases intent with
  | beginImage => exact ⟨_, serves_beginImage hS.toSound h⟩
  | imageData planes height => exact ⟨_, serves_imageData hS.toSound hS.ended hS.room planes h⟩
  | endImage => exact ⟨_, serves_endImage hS.toSound hS.ended hlack⟩
  | _ => exact ⟨_, serves_perform hS.toSound h⟩

/-- A writer that was not switched off is in step with replay. -/
theorem Reached.inSession (hS : S.Sequel) (hlack : MemoryPolicy.RefusesForLack μ ν)
    {w : Writer μ (Watched μ ν)} (h : S.Reached w) (henabled : w.disabled = false) :
    ∃ clip drawn, w.InSession S clip drawn := by
  induction h with
  | opened memory hstore =>
    exact ⟨_, _, Writer.inSession_onEmptyPage hS.toSound hstore memory hS.lop⟩
  | @served w intent _ hintent ih =>
    obtain ⟨P, hserves⟩ := serves_any (μ := μ) (ν := ν) hS hlack hintent
    have hlast : (Intent.serveAll [intent] w).2.disabled = false := henabled
    obtain ⟨clip, drawn, hsession⟩ := ih (Writer.StaysOff.enabled_of_serveAll hlast)
    exact serveEach hS.imprecise (fun i hi => List.mem_singleton.mp hi ▸ ⟨P, hserves⟩) hsession hlast
  | @flushed w w' _ hflush ih =>
    obtain ⟨clip, drawn, hsession⟩ := ih (Writer.of_check_bind_eq_ok hflush).1
    exact ⟨clip, drawn, hsession.flush.ok hflush⟩
  | @restarted w w' _ hbegin ih =>
    have hw := (Writer.of_check_bind_eq_ok hbegin).1
    obtain ⟨clip, drawn, hsession⟩ := ih hw
    obtain ⟨pages, calls, hcalls, -, -⟩ := hsession.told.history
    obtain ⟨runs, sent, hk, -⟩ := hcalls.replays
    exact ⟨clip, (hsession.beginPage hw hk.store fun _ => rfl).ok hbegin⟩
  | @turned w w₁ w' _ hend hbegin ih =>
    obtain ⟨clip, drawn, hsession⟩ := ih (Writer.of_check_bind_eq_ok hend).1
    exact (hsession.turnPage hS.toSound hS.ended hlack hend).ok hbegin

/-- Requests lead on. -/
theorem Reached.serveAll {w : Writer μ (Watched μ ν)} (h : S.Reached w) {intents : List Intent}
    (hintents : ∀ i ∈ intents, S.AdmitsAny i) : S.Reached (Intent.serveAll intents w).2 := by
  induction intents generalizing w with
  | nil => exact h
  | cons intent intents ih =>
    exact ih (h.served (hintents intent List.mem_cons_self))
      fun i hi => hintents i (List.mem_cons_of_mem _ hi)

/-- A session in which requests may fail has sequels. -/
theorem forgiving_sequel {config : Config} {q : Terms} (hvalid : config.validate = .ok ())
    (hheight : config.height < 2147483648) (hroom : config.payloadRoom < 4294967296)
    (hended : ∀ band, ¬ q.ended band) : (forgiving config q).Sequel where
  valid := Config.valid_of_validate hvalid
  height := hheight
  imprecise := id
  lop := trivial
  ended := hended
  room := hroom

end Session

/-- Wherever a session has come to, replay of what a band was sent since the page began leaves just
what the writer takes the band to know. -/
theorem Writer.follow_band {config : Config} {q : Terms} (hcolors : q.exactColors)
    (hended : ∀ band, ¬ q.ended band) (hvalid : config.validate = .ok ())
    (hheight : config.height < 2147483648) (hroom : config.payloadRoom < 4294967296)
    (hlack : MemoryPolicy.RefusesForLack μ ν) {w : Writer μ (Watched μ ν)}
    (hw : (Session.forgiving config q).Reached w) (henabled : w.disabled = false)
    (hlen : w.state.buffer.store.commandLength < 9223372036854775808) {band : Nat}
    (hband : band < config.nbands) :
    ∃ p, w.state.follow band = .ok p ∧
      p.state.band = { w.state.band band with
        tileId := p.state.band.tileId, known := p.state.band.known } ∧
      ∀ f, (w.state.band band).known.contains f = true → p.state.band.known.contains f = true := by
  have hS := Session.forgiving_sequel (q := q) hvalid hheight hroom hended
  obtain ⟨clip, drawn, hsession⟩ := hw.inSession hS hlack henabled
  obtain ⟨pages, calls, hcalls, -, -⟩ := hsession.told.history
  have hconfig : w.state.config = config := hsession.ready.config_eq
  obtain ⟨p, hfollow, -, hm, -⟩ :=
    hcalls.follow (hconfig ▸ hS.nbands_le) hlen (hconfig ▸ hband)
  refine ⟨p, hfollow, ?_, hm.known⟩
  rw [BandState.mk.injEq]
  exact ⟨hm.colors hcolors, hm.tileIndex, rfl, hm.tilePhase, hm.tileColors hcolors, hm.rect, hm.lop,
    hm.lopEnabled, hm.clipEnabled, hm.copiesAlpha, rfl⟩

/-- The page was flushed, and its last request failed. -/
theorem Writer.follow_band_of_flushed :
    let intents := [.fillRectangle ⟨3, 5, 40, 30⟩ 1,
      .copyMono { data := Array.replicate 96 0x5a, dataX := 3, raster := 8 } none ⟨0, 4, 20, 16⟩ ⟨1, 2⟩,
      .imageData [] 4]
    let w : Writer MemoryMedium (Watched MemoryMedium RationedMemory) :=
      (Intent.serveAll intents (.onEmptyPage smallPage { commands := {}, index := {} } flushedOnce)).2
    w.state.memory.rendered.length = 1 ∧ (w.state.band 0).rect ≠ (w.state.band 1).rect ∧
      ∃ p, w.state.follow 0 = .ok p ∧
        p.state.band = { w.state.band 0 with
          tileId := p.state.band.tileId, known := p.state.band.known } ∧
        ∀ f, (w.state.band 0).known.contains f = true → p.state.band.known.contains f = true := by
  intro intents w
  obtain ⟨S, hS⟩ : ∃ S, S = Session.forgiving smallPage (smallPixels.terms True) := ⟨_, rfl⟩
  have hfill : S.AdmitsAny (.fillRectangle ⟨3, 5, 40, 30⟩ 1) := by
    subst hS
    refine ⟨fun r hr => ?_, fun _ => .inr (by decide)⟩
    cases hr
    exact ⟨⟨by decide, by decide, by decide, by decide⟩, by decide, by decide, by decide, by decide⟩
  have hcopy : S.AdmitsAny (.copyMono { data := Array.replicate 96 0x5a, dataX := 3, raster := 8 } none
      ⟨0, 4, 20, 16⟩ ⟨1, 2⟩) := by
    subst hS
    refine ⟨fun r hr => ?_, by decide, fun _ slot => .inr ?_, (fun h => nomatch h),
      fun _ _ _ _ _ _ => ⟨trivial, fun h => h.elim⟩, fun _ h => nomatch h⟩
    · cases hr
      exact ⟨⟨by decide, by decide, by decide, by decide⟩, by decide, by decide, by decide, by decide⟩
    · show _ < 2 ^ 8
      cases slot <;> decide
  have hadmits : ∀ i ∈ intents, S.AdmitsAny i := by
    intro i hi
    simp only [intents, List.mem_cons, List.not_mem_nil, or_false] at hi
    rcases hi with rfl | rfl | rfl
    · exact hfill
    · exact hcopy
    · exact show 4 < 4294967296 by decide
  have hempty : ({ commands := {}, index := {} } : BandStore MemoryMedium).Contains [] :=
    ⟨MemoryMedium.sound_empty, MemoryMedium.sound_empty, rfl, rfl⟩
  have hopened : S.Reached (Writer.onEmptyPage smallPage
      ({ commands := {}, index := {} } : BandStore MemoryMedium) flushedOnce) := by
    rw [hS]
    exact .opened flushedOnce hempty
  have hreached : S.Reached w := hopened.serveAll hadmits
  exact ⟨by decide +kernel, by decide +kernel, Writer.follow_band trivial (fun _ h => h) rfl
    (by decide) (by decide) RationedMemory.refusesForLack (hS ▸ hreached) (by decide +kernel)
    (by decide +kernel) (by decide)⟩

/-- A halftone that has more levels than it says is sent, but replay does not take it. -/
theorem Writer.uncounted_levels_are_not_followed :
    let halftone : Halftone := { order := { width := 2, height := 1, levelCount := 1, levels := [1, 2] } }
    let served := Intent.serveAll [.fillRectangle ⟨3, 5, 40, 30⟩ 1, .setHalftone halftone]
      (Writer.onEmptyPage smallPage
        ({ commands := {}, index := {} } : BandStore MemoryMedium) ({} : Unlimited))
    smallPage.validate = .ok () ∧ served.1 = [.ok (), .ok ()] ∧ served.2.disabled = false ∧
      (served.2.state.follow 0).map (fun _ => ()) = .error (.malformed "too many halftone levels") := by
  decide +kernel

end BandedPage
