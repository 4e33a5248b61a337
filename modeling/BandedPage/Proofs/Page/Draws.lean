import Mathlib
import BandedPage.Proofs.Replay.Commands
import BandedPage.Proofs.Writer.Sync

/-!
# What a stored page draws

A page that is closed while writer and replay are in step is replayed as the calls that its
commands make, band by band, on any target that accepts them. A target that accepts every call and
keeps all of them, a transcript, shows what these calls are.
-/

namespace BandedPage

variable {μ ν : Type} [Medium μ] [LawfulMedium μ]

/-- Replaying the stored page makes these calls for each band. -/
def BandStore.Draws (store : BandStore μ) (config : Config) (calls : Nat → List TargetCall) : Prop :=
  ∀ band < config.nbands, ∀ {τ : Type} [Target τ] (r : Replayer τ) (t t' : τ), r.config = config →
    Target.beginBand band (config.bandRect band) r.target = .ok () t →
    TargetCall.Accepts (config.bandRect band) (calls band) t t' →
    ∃ known, Replayer.playStored store config.nbands band r =
      .ok () { r with target := t', progress := .endOfPage, known }

omit [LawfulMedium μ] in
theorem BandStore.Draws.congr {store : BandStore μ} {config : Config}
    {calls calls' : Nat → List TargetCall} (h : store.Draws config calls)
    (heq : ∀ band < config.nbands, calls band = calls' band) : store.Draws config calls' := by
  intro band hband τ _ r t t' hr hbegin haccepts
  rw [← heq band hband] at haccepts
  exact h band hband r t t' hr hbegin haccepts

namespace StoreEntry

/-- Runs that all end with `last`, in front of other entries. -/
theorem bandBytes_map_entry (runs : List CommandRun) (last : UInt8) (es : List StoreEntry)
    (band : Nat) :
    bandBytes (runs.map (CommandRun.entry last) ++ es) band =
      (runs.filter (·.bands.contains band)).flatMap (fun r => r.commands.flatten ++ [last]) ++
        bandBytes es band := by
  induction runs with
  | nil => rfl
  | cons run runs ih =>
    rw [List.map_cons, List.cons_append, CommandRun.entry, bandBytes_run, ih, List.filter_cons]
    by_cases hfor : run.bands.contains band = true
    · rw [if_pos hfor, if_pos hfor, List.flatMap_cons, List.append_assoc, List.append_assoc,
        List.append_assoc]
    · rw [if_neg hfor, if_neg hfor, List.nil_append]

end StoreEntry

@[simp] theorem flatten_endedRuns (runs : List (List Command)) :
    (endedRuns runs).flatten = runs.flatMap fun run => run.flatten ++ [Opcode.endRun] := by
  induction runs with
  | nil => rfl
  | cons run runs ih =>
    rw [endedRuns, List.flatMap_cons, List.flatten_append, List.flatMap_cons, ← ih]
    simp [endedRuns]

/-- The page is closed as a store that draws what replay of each band draws. -/
theorem Synced.closePage {q : Terms} {s : WriterState μ ν} {calls : Nat → List TargetCall}
    (h : Synced q s calls) (hbands : s.config.nbands ≤ 2147483648) :
    ∃ store, CommandBuffer.closePage s.buffer = .ok () { s.buffer.discard with store } ∧
      (∃ entries, store.Contains entries) ∧
      (store.commandLength < 9223372036854775808 → store.Draws s.config calls) := by
  obtain ⟨runs, sent, hk, hreplays⟩ := h.replays
  obtain ⟨store, hclose, runs', final, hwithin, hc, hbandRuns⟩ := hk.closePage
  refine ⟨store, hclose, ⟨_, hc⟩, fun hlen band hband τ _ r t t' hconfig hbegin haccepts => ?_⟩
  have haddressable := CommandRun.addressable hwithin hbands
  obtain ⟨commands, hfinal, hsent⟩ := hbandRuns band hband
  obtain ⟨state, hstate, -, -⟩ := hreplays band hband
  have hended : ReplaysAll (s.config.bandRect band)
      (endedRuns ((runs'.filter (·.bands.contains band)).map CommandRun.commands) ++ commands)
      (.fresh s.config) (calls band) state := by
    refine ReplaysAll.endedRuns ?_
    rw [← List.flatMap_def]
    rw [hsent] at hstate
    exact hstate
  have hbytes : StoreEntry.bandBytes (runs'.map (CommandRun.entry Opcode.endRun) ++
      final.map (CommandRun.entry Opcode.endPage) ++ [.sentinel]) band =
        (endedRuns ((runs'.filter (·.bands.contains band)).map CommandRun.commands) ++
          commands).flatten ++ [Opcode.endPage] := by
    rw [List.append_assoc, StoreEntry.bandBytes_map_entry, StoreEntry.bandBytes_map_entry, hfinal,
      StoreEntry.bandBytes_sentinel, List.flatten_append, flatten_endedRuns, List.flatMap_map]
    simp
  have hreader := h.valid.readerSize
  have hlookahead : Buffered.lookahead = 128 := rfl
  rw [← hconfig] at hbegin hended hband hreader haccepts ⊢
  exact ⟨state.band.known, Replayer.playStored_eq hc haddressable hlen hband (by omega) hbegin hbytes
    hended haccepts⟩

/-- The calls made on a target, in order. -/
structure Transcript where
  calls : List TargetCall := []
  area : Rect

namespace Transcript

def record (call : TargetCall) : DrawM Transcript Unit :=
  modify fun t => { t with calls := t.calls ++ [call] }

instance : Target Transcript where
  fillRectangle rect color := record (.fillRectangle rect color)
  clipBox := Transcript.area
  beginBand _ area := modify fun t => { t with area }
  copyMono bits rect colors := record (.copyMono bits rect colors)
  copyColor bits rect := record (.copyColor bits rect)
  copyAlpha bits rect color depth := record (.copyAlpha bits rect color depth)
  fillMask bits rect color depth lop clip := record (.fillMask bits rect color depth lop clip)
  stripTileRectangle tile rect colors phase := record (.stripTileRectangle tile rect colors phase)
  stripCopyRop rect texture colors phase lop :=
    record (.stripCopyRop rect texture colors phase lop)
  fillPath state path rule color clip := record (.fillPath state path rule color clip)
  strokePath state path color clip := record (.strokePath state path color clip)
  beginImage state header space color clip := record (.beginImage state header space color clip)
  imageData planes dataX raster height := record (.imageData planes dataX raster height)
  endImage := record .endImage
  putParams params := record (.putParams params)
  installHalftone halftone := record (.installHalftone halftone)
  installTransfer index map := record (.installTransfer index map)

theorem perform_eq (call : TargetCall) : (call.perform : DrawM Transcript Unit) = record call := by
  cases call <;> rfl

/-- Every call is accepted. -/
theorem accepts (calls : List TargetCall) (t : Transcript) :
    TargetCall.Accepts t.area calls t { t with calls := t.calls ++ calls } := by
  induction calls generalizing t with
  | nil =>
    refine ⟨?_, rfl⟩
    rw [List.append_nil]
  | cons call calls ih =>
    refine ⟨rfl, { t with calls := t.calls ++ [call] }, by rw [perform_eq]; rfl, ?_⟩
    have := ih { t with calls := t.calls ++ [call] }
    simpa using this

end Transcript

namespace BandStore

variable {μ : Type} [Medium μ]

/-- The calls that replaying a band of a stored page makes. -/
def transcript (store : BandStore μ) (config : Config) (band : Nat) : Except Error (List TargetCall) :=
  match Replayer.playStored store config.nbands band
    { config, target := ({ area := config.pageRect } : Transcript) } with
  | .ok _ r => .ok r.target.calls
  | .error e _ => .error e

/-- The calls that replaying a band of some stored pages makes, one page after another. -/
def transcripts (stores : List (BandStore μ)) (config : Config) (band : Nat) :
    Except Error (List TargetCall) := do
  let pages ← stores.mapM fun store => store.transcript config band
  return pages.flatten

variable {store : BandStore μ} {config : Config} {calls : Nat → List TargetCall} {band : Nat}

theorem Draws.transcript_eq (h : store.Draws config calls) (hband : band < config.nbands) :
    store.transcript config band = .ok (calls band) := by
  obtain ⟨known, hplay⟩ := h band hband
    ({ config, target := { area := config.pageRect } } : Replayer Transcript)
    { area := config.bandRect band } { area := config.bandRect band, calls := calls band } rfl rfl
    (Transcript.accepts (calls band) { area := config.bandRect band })
  rw [transcript, hplay]

theorem transcripts_eq {stores : List (BandStore μ)} {pages : List (Nat → List TargetCall)}
    (h : List.Forall₂ (fun store page => BandStore.Draws store config page) stores pages)
    (hband : band < config.nbands) :
    transcripts stores config band = .ok (pages.flatMap (· band)) := by
  have hmap : stores.mapM (fun store => store.transcript config band) =
      .ok (pages.map (· band)) := by
    induction h with
    | nil => rfl
    | cons hstore _ ih => simp [List.mapM_cons, hstore.transcript_eq hband, ih, bind, Except.bind,
        pure, Except.pure]
  simp [transcripts, hmap, List.flatMap_def, bind, Except.bind, pure, Except.pure]

end BandStore

end BandedPage
