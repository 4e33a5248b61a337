import Mathlib
import BandedPage.Proofs.Page.Requests
import BandedPage.Proofs.Store.Log
import BandedPage.Proofs.Writer.Intent

/-!
# Following a page while it is written

What a band was sent lies in the store and in the command buffer, and can be replayed at any time as
if the page ended there. While the writer is in step with replay, that leaves just what the writer
takes the band to know. It is in step after any requests, granted or not, unless they switched it
off.
-/

namespace BandedPage

variable {μ ν : Type} [Medium μ]

/-- Everything that a band was sent since the page began: what is stored for it, then what is held for
a range that it is in, then what is held for it alone. -/
def CommandBuffer.bytesFor (b : CommandBuffer μ) (band : Nat) : Except Error (List UInt8) := do
  let stored ← b.store.bandBytes band
  let shared := if b.range.contains band then b.shared.toList else []
  return stored ++ (shared ++ (b.bands.getD band #[]).toList).flatten

/-- Replay everything that a band was sent since the page began, on a target that accepts every
call. -/
def WriterState.follow (s : WriterState μ ν) (band : Nat) :
    Except Error (Playback (Buffered Portions) Transcript) := do
  let bytes ← s.buffer.bytesFor band
  let commands : Portions := { rest := bytes ++ [Opcode.endPage] }
  match Replay.run
    { source := Replayer.buffered s.config commands
      target := { area := s.config.bandRect band }
      state := .fresh s.config } with
  | .ok _ p => return p
  | .error e _ => throw e

variable [LawfulMedium μ]

/-- The bytes that a band was sent are those of its commands, but for the ends of runs. -/
theorem CommandBuffer.Keeps.bytesFor_eq {b : CommandBuffer μ} {nbands : Nat}
    {runs : List CommandRun} {sent : Nat → List Command} (h : b.Keeps nbands runs sent)
    (hbands : nbands ≤ 2147483648) (hlen : b.store.commandLength < 9223372036854775808) {band : Nat}
    (hband : band < nbands) :
    ∃ commands : List Command, b.bytesFor band = .ok commands.flatten ∧
      ∀ {box : Rect} {r r' : ReplayState} {calls : List TargetCall},
        ReplaysAll box (sent band) r calls r' → ReplaysAll box commands r calls r' := by
  have haddressable : ∀ e ∈ runs.map (CommandRun.entry Opcode.endRun), e.Addressable := by
    intro e he
    have hwithin : ∀ r ∈ runs ++ [], r.bands.min ≤ r.bands.max ∧ r.bands.max < nbands := by
      simpa using h.within
    refine CommandRun.addressable hwithin hbands e ?_
    simpa using .inl (List.mem_map.mp he)
  have hstored : b.store.bandBytes band =
      .ok (endedRuns ((runs.filter (·.bands.contains band)).map CommandRun.commands)).flatten := by
    have hbytes := StoreEntry.bandBytes_map_entry runs Opcode.endRun [] band
    rw [List.append_nil, StoreEntry.bandBytes_nil, List.append_nil] at hbytes
    rw [flatten_endedRuns, List.flatMap_map, ← hbytes]
    exact ByteFeed.readAll_eq (BandFeed.holds_bandFeed h.store haddressable (by omega) band)
  refine ⟨endedRuns ((runs.filter (·.bands.contains band)).map CommandRun.commands) ++
    ((if b.range.contains band then b.shared.toList else []) ++ (b.bands.getD band #[]).toList), ?_,
    fun hsent => ReplaysAll.endedRuns ?_⟩
  · rw [CommandBuffer.bytesFor, hstored, List.flatten_append]
    rfl
  · rw [← List.flatMap_def]
    rw [h.sent_eq band hband] at hsent
    exact hsent

/-- Replay of what a band was sent makes the calls that writer and replay are in step about, and
leaves what the writer takes the band to know. -/
theorem Synced.follow {q : Terms} {s : WriterState μ ν} {calls : Nat → List TargetCall}
    (h : Synced q s calls) (hbands : s.config.nbands ≤ 2147483648)
    (hlen : s.buffer.store.commandLength < 9223372036854775808) {band : Nat}
    (hband : band < s.config.nbands) :
    ∃ p, s.follow band = .ok p ∧ p.target.calls = calls band ∧
      Mirrors q s band (s.band band) p.state ∧ s.TilesReach q band p.state := by
  obtain ⟨runs, sent, hk, hreplays⟩ := h.replays
  obtain ⟨commands, hbytes, hsent⟩ := hk.bytesFor_eq hbands hlen hband
  obtain ⟨r, hr, hm, ht⟩ := hreplays band hband
  have hreader := h.valid.readerSize
  have hlookahead : Buffered.lookahead = 128 := rfl
  have hholds : LawfulFeed.Holds ({ rest := commands.flatten ++ [Opcode.endPage] } : Portions)
      (commands.flatten ++ [Opcode.endPage]) := ⟨rfl, by simp⟩
  obtain ⟨source, hrun, -⟩ := Replay.run_eq (hsent hr)
    (Buffered.holds_of_feed hholds (show 0 < s.config.readerSize by omega))
    (Transcript.accepts (calls band) { area := s.config.bandRect band })
  refine ⟨⟨source, { area := s.config.bandRect band, calls := [] ++ calls band }, r⟩, ?_,
    List.nil_append _, hm, ht⟩
  have hrun' : Replay.run (⟨Replayer.buffered s.config
      ({ rest := commands.flatten ++ [Opcode.endPage] } : Portions),
      { area := s.config.bandRect band }, .fresh s.config⟩ : Playback (Buffered Portions) Transcript) =
      .ok () ⟨source, { area := s.config.bandRect band, calls := [] ++ calls band }, r⟩ := hrun
  simp only [WriterState.follow, hbytes, bind, Except.bind, hrun']
  rfl

variable [MemoryPolicy μ ν]

namespace Session

variable {S : Session} {clip : Option ClipPath} {w : Writer μ (Watched μ ν)}
variable {drawn : Nat → List TargetCall}

/-- Requests leave a writer in step that they do not switch off, whether they are granted or not. -/
theorem serveEach (himprecise : ¬ S.terms.exactImager) {intents : List Intent}
    (hserves : ∀ i ∈ intents, ∃ P, S.Serves (i.perform : WriterM μ (Watched μ ν) Unit) P)
    (hw : w.InSession S clip drawn) (henabled : (Intent.serveAll intents w).2.disabled = false) :
    ∃ clip' drawn', (Intent.serveAll intents w).2.InSession S clip' drawn' := by
  induction intents generalizing w clip drawn with
  | nil => exact ⟨clip, drawn, hw⟩
  | cons intent intents ih =>
    obtain ⟨P, hP⟩ := hserves intent List.mem_cons_self
    have hrest : ∀ i ∈ intents, ∃ P, S.Serves (i.perform : WriterM μ (Watched μ ν) Unit) P :=
      fun i hi => hserves i (List.mem_cons_of_mem _ hi)
    have hanswers := hP clip w drawn hw
    have hserved : (Intent.serveAll (intent :: intents) w).2 =
      (Intent.serveAll intents (intent.serve w).2).2 := rfl
    rw [hserved] at henabled ⊢
    cases hrun : (intent.perform : WriterM μ (Watched μ ν) Unit) w with
    | ok u w' =>
      have hserve : (intent.serve w).2 = w' := by rw [Intent.serve, hrun]
      rw [hserve] at henabled ⊢
      obtain ⟨clip', more, -, hw'⟩ := hanswers.ok hrun
      exact ih hrest hw' henabled
    | error e w' =>
      have hserve : (intent.serve w).2 = w' := by rw [Intent.serve, hrun]
      rw [hserve] at henabled ⊢
      rcases hanswers.error hrun with hdisabled | hgoes
      · rw [Writer.StaysOff.enabled_of_serveAll henabled] at hdisabled
        cases hdisabled
      · obtain ⟨clip', drawn', hw'⟩ := hgoes himprecise
        exact ih hrest hw' henabled

/-- A session in which requests may fail: no imager state is followed then, and no clip. -/
def forgiving (config : Config) (terms : Terms) : Session where
  config := config
  terms := { terms with exactImager := False }

end Session

omit [MemoryPolicy μ ν] in
/-- The partial pages that were rendered, and then what each band was sent since, can be replayed. -/
theorem Writer.InSession.follow {S : Session} {clip : Option ClipPath}
    {w : Writer μ (Watched μ ν)} {drawn : Nat → List TargetCall} (h : w.InSession S clip drawn)
    (hS : S.Sound) (hlen : ∀ store ∈ w.stores, store.commandLength < 9223372036854775808)
    {band : Nat} (hband : band < S.config.nbands) :
    ∃ before p, BandStore.transcripts w.state.memory.rendered S.config band = .ok before ∧
      w.state.follow band = .ok p ∧ drawing (before ++ p.target.calls) = drawn band ∧
      Mirrors (S.on clip) w.state band (w.state.band band) p.state ∧
      w.state.TilesReach (S.on clip) band p.state := by
  obtain ⟨pages, calls, hcalls, hpages, hdrawn⟩ := h.told.history
  have hconfig := h.ready.config_eq
  obtain ⟨p, hfollow, hmade, hm, ht⟩ := hcalls.follow (hconfig ▸ hS.nbands_le)
    (hlen _ (List.mem_append_right _ List.mem_cons_self)) (hconfig ▸ hband)
  refine ⟨_, p, BandStore.transcripts_eq (BandStore.draws_of_short hpages fun store hstore =>
    hlen store (List.mem_append_left _ hstore)) hband, hfollow, ?_, hm, ht⟩
  rw [hmade, hdrawn band hband, List.flatMap_append, List.flatMap_singleton]

end BandedPage
