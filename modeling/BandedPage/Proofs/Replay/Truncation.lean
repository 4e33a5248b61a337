import Mathlib
import BandedPage.Proofs.Config
import BandedPage.Proofs.Facsimile.Exact
import BandedPage.Proofs.Operand.Exact
import BandedPage.Proofs.Replay.Composing
import BandedPage.Proofs.Replay.Steps
import BandedPage.Replay.Replayer
import BandedPage.Target.CallLog

/-!
# Commands that are cut short

A command that is cut short fails for lack of bytes, and what it has drawn until then it would have
drawn if it had been whole. The same is then true of all commands to the end of the page. It shows
on a target that, whatever else it does, writes down an entry for each call that it accepts.
-/

namespace BandedPage

/-- A target that writes down an entry of type `κ` for each call. -/
class RecordingTarget (τ : Type) (κ : outParam Type) [Target τ] where
  calls : τ → List κ
  entry : TargetCall → κ
  calls_perform {call : TargetCall} {t t' : τ} (h : call.perform t = .ok () t') :
    calls t' = calls t ++ [entry call]
  calls_beginBand {band : Nat} {area : Rect} {t t' : τ}
    (h : Target.beginBand band area t = .ok () t') : calls t' = calls t

namespace CallLog

def entry : TargetCall → DrawingCall
  | .fillRectangle rect color => .fillRectangle rect color
  | .copyMono bits rect colors => .copyMono bits rect colors
  | .copyColor bits rect => .copyColor bits rect
  | .copyAlpha bits rect color depth => .copyAlpha bits rect color depth
  | .fillMask bits rect color depth lop clip => .fillMask bits rect color depth lop clip
  | .stripTileRectangle tile rect colors phase => .stripTileRectangle tile rect colors phase
  | .stripCopyRop rect texture colors phase lop => .stripCopyRop rect texture colors phase lop
  | .fillPath state path rule color clip => .fillPath path.segments.toList rule color clip state
  | .strokePath state path color clip => .strokePath path.segments.toList color clip state
  | .beginImage _ header space color clip => .beginImage header space color clip
  | .imageData planes dataX raster height => .imageData planes dataX raster height
  | .endImage => .endImage
  | .putParams params => .putParams params
  | .installHalftone halftone => .installHalftone halftone
  | .installTransfer index map => .installTransfer index map

theorem perform_eq (call : TargetCall) :
    (call.perform : DrawM CallLog Unit) = record (entry call) := by
  cases call <;> rfl

instance : RecordingTarget CallLog DrawingCall where
  calls log := log.calls.toList
  entry := entry
  calls_perform {call t t'} h := by
    rw [perform_eq, record] at h
    split at h <;> cases h
    exact Array.toList_push
  calls_beginBand h := by
    cases h
    rfl

end CallLog

section

variable {σ : Type} [ByteSource σ] [LawfulSource σ] [EndingSource σ]

theorem Payload.exact_decode (compression : Compression) (raster height : Nat) :
    Exact .alone (Payload.decode compression raster height : Decoder σ Bytes) := by
  cases compression with
  | none => exact (exact_take _).bind fun _ => .pure _
  | runLength => exact (RunLength.exact_decode _).bind fun _ => .pure _
  | facsimile => exact .ite (fun _ => .pure _) fun _ => Facsimile.exact_decode raster height

end

variable {σ τ κ : Type} [Target τ] [RecordingTarget τ κ]

/-- The source of a replay; of the rest the calls are seen that the target has written down. -/
def SourceView.replay : SourceView (Playback σ τ) σ where
  source p := p.source
  put source p := { p with source }
  Grows p q := RecordingTarget.calls p.target <+: RecordingTarget.calls q.target
  source_put _ _ := rfl
  put_source _ := rfl
  put_put _ _ _ := rfl
  grows_refl _ := List.prefix_refl _
  grows_trans h h' := h.trans h'

namespace Replay

variable [ByteSource σ] [LawfulSource σ]

theorem exact_read {α : Type} {decoder : Decoder σ α} (h : Exact .alone decoder) :
    Exact .replay (read decoder : ReplayM σ τ α) := fun ⟨source, target, state⟩ =>
  .of_decoder h (fun a => a) (fun _ => ⟨source, target, state⟩) (fun _ _ _ => List.prefix_refl _)
    fun s => by
      cases hdecode : decoder s <;> simp only [read, SourceView.replay, hdecode]

theorem exact_draw (call : TargetCall) :
    Exact .replay (draw call.perform : ReplayM σ τ Unit) := by
  rintro ⟨source, target, state⟩
  refine .of_same fun a p' h => ?_
  simp only [draw] at h
  cases hcall : (call.perform : DrawM τ Unit) target with
  | error e t => simp [hcall] at h
  | ok b t =>
    rw [hcall] at h
    cases h
    refine ⟨rfl, ?_, fun s => ?_⟩
    · exact ⟨_, (RecordingTarget.calls_perform hcall).symm⟩
    · simp only [draw, SourceView.replay, hcall]

theorem exact_getState : Exact .replay (getState : ReplayM σ τ ReplayState) :=
  fun p => .of_same fun _ _ h => by
    cases h
    exact ⟨rfl, SourceView.replay.grows_refl p, fun _ => rfl⟩

theorem exact_modifyState (f : ReplayState → ReplayState) :
    Exact .replay (modifyState f : ReplayM σ τ Unit) :=
  fun p => .of_same fun _ _ h => by
    cases h
    exact ⟨rfl, SourceView.replay.grows_refl p, fun _ => rfl⟩

theorem exact_clipBox : Exact .replay (clipBox : ReplayM σ τ Rect) :=
  fun p => .of_same fun _ _ h => by
    cases h
    exact ⟨rfl, SourceView.replay.grows_refl p, fun _ => rfl⟩

variable [EndingSource σ]

omit [Target τ] [RecordingTarget τ κ] in
theorem exact_thresholdBit : Exact .alone (thresholdBit : Decoder σ ThresholdBit) :=
  (Operand.exact_natural 4).bind fun _ => (Operand.exact_natural 4).bind fun _ => .pure _

theorem exact_extendOrder (order : HalftoneOrder) (n : Nat) :
    Exact .alone (extendOrder order n : Decoder σ HalftoneOrder) := by
  have hlevels := (exact_many (Operand.exact_natural (σ := σ) 4) n).bind fun levels =>
    .pure { order with levels := order.levels ++ levels }
  have hbits := (exact_many (exact_thresholdBit (σ := σ)) n).bind fun bits =>
    .pure { order with bits := order.bits ++ bits }
  exact .ite (fun _ => .ite (fun _ => (Exact.throw _).bind fun _ => hlevels) fun _ => hlevels)
    fun _ => .ite (fun _ => (Exact.throw _).bind fun _ => hbits) fun _ => hbits

omit [Target τ] [RecordingTarget τ κ] in
theorem exact_coloredBases : Exact .alone (coloredBases : Decoder σ (List UInt8)) := by
  refine exact_nextByte.bind fun b => .ite (fun _ => ?_) fun _ => ?_
  · exact (exact_nextBytes 2).bind fun _ => (Exact.pure _).bind fun _ => .pure _
  · exact (Exact.pure _).bind fun _ => .pure _

omit [Target τ] [RecordingTarget τ κ] in
theorem exact_operands : OperandDecoders (σ := σ) (Exact .alone ·) where
  prepare := exact_prepare
  currentOffset := exact_currentOffset
  nextByte := exact_nextByte
  take := exact_take
  varint := Varint.exact_decode
  varints := exact_many Varint.exact_decode
  signedVarint := Varint.exact_decodeInt
  natural := Operand.exact_natural
  naturals n := exact_many (Operand.exact_natural n)
  integer := Operand.exact_integer
  single := Operand.exact_single
  singles := exact_many Operand.exact_single
  matrix := Matrix.exact_decode
  offsets := Offset.exact_decode
  payload := Payload.exact_decode
  color := ColorCommand.exact_decode
  colorDifference := ColorCommand.exact_decodeDifference
  rect := RectCommand.exact_decode
  header := ImageHeader.exact_decodeFor
  order := exact_extendOrder
  bases := exact_coloredBases

theorem exact_composing : Composing (σ := σ) (τ := τ) (Exact .alone ·) (Exact .replay ·) where
  toOperandDecoders := exact_operands
  pure := .pure
  throw := .throw
  bind := .bind
  read := exact_read
  draw := exact_draw
  getState := exact_getState
  modifyState _ := exact_modifyState _
  storeTile _ _ _ _ := exact_getState.bind fun _ => (Exact.lift _).bind fun _ => exact_modifyState _
  clipBox := exact_clipBox

omit [Target τ] [RecordingTarget τ κ] in
/-- The name of a command is one byte. -/
theorem offset_of_nextOp {p p' : Playback σ τ} {op : Op} {bytes : List UInt8} {offset : Nat}
    (hp : Standing p.source bytes offset) (h : nextOp p = .ok op p') :
    ByteSource.offset p'.source = offset + 1 := by
  obtain ⟨s, hs, hstand⟩ := EndingSource.prepare_eq hp
  have hprepare : read ByteSource.prepare p = .ok () { p with source := s } := by
    simp only [read, hs]
  have hoffset : read currentOffset { p with source := s } =
    .ok (ByteSource.offset s) { p with source := s } := rfl
  rw [nextOp, bind_of_ok hprepare, bind_of_ok hoffset] at h
  obtain ⟨b, p'', hbyte, hop⟩ := bind_eq_ok_iff.mp h
  cases bytes with
  | nil =>
    obtain ⟨s', hs'⟩ := EndingSource.nextByte_nil hstand
    simp only [read, hs'] at hbyte
    cases hbyte
  | cons c bytes =>
    obtain ⟨s', hs', hstand'⟩ := EndingSource.nextByte_cons hstand
    simp only [read, hs'] at hbyte
    cases hbyte
    cases hdecode : Op.decode b (ByteSource.offset s) with
    | error e => rw [hdecode] at hop; cases hop
    | ok o =>
      rw [hdecode] at hop
      cases hop
      exact hstand'.offset_eq

include κ in
/-- With a step for each byte and one more, more steps make no difference. -/
theorem runCommands_of_fuel {p : Playback σ τ} {bytes : List UInt8} {offset n n' : Nat}
    (hp : Standing p.source bytes offset) (hn : bytes.length < n) (hn' : bytes.length < n') :
    runCommands n p = runCommands n' p := by
  induction n generalizing p bytes offset n' with
  | zero => omega
  | succ n ih =>
    obtain ⟨n', rfl⟩ := Nat.exists_eq_succ_of_ne_zero (show n' ≠ 0 by omega)
    rw [runCommands, runCommands]
    cases hop : nextOp p with
    | error e p' => rw [bind_of_error hop, bind_of_error hop]
    | ok op p' =>
      rw [bind_of_ok hop, bind_of_ok hop]
      obtain ⟨taken, rest, rfl, hp', -⟩ := (exact_composing (κ := κ)).nextOp p bytes offset op p' hp hop
      have htaken := offset_of_nextOp hp hop
      have htaken' := htaken.symm.trans hp'.offset_eq
      split
      · rfl
      · cases hperform : perform op p' with
        | error e p'' => rw [bind_of_error hperform, bind_of_error hperform]
        | ok u p'' =>
          rw [bind_of_ok hperform, bind_of_ok hperform]
          obtain ⟨taken', rest', rfl, hp'', -⟩ :=
            (exact_composing (κ := κ)).perform op p' rest _ u p'' hp' hperform
          simp only [List.length_append] at hn hn'
          exact ih hp'' (by omega) (by omega)

include κ in
/-- Where nothing is left, not even the end of the page is found. -/
theorem run_ne_ok_of_end {p p' : Playback σ τ} {offset : Nat} (hp : Standing p.source [] offset) :
    run p ≠ .ok () p' := by
  intro h
  change runCommands (ByteSource.unread p.source + 1) p = _ at h
  obtain ⟨op, q, hop, -⟩ := bind_eq_ok_iff.mp h
  obtain ⟨taken, rest, heq, hq, -⟩ := (exact_composing (κ := κ)).nextOp p [] offset op q hp hop
  have htaken : taken = [] := (List.append_eq_nil_iff.mp heq.symm).1
  have := (offset_of_nextOp hp hop).symm.trans hq.offset_eq
  simp [htaken] at this

theorem exact_run : Exact .replay (run : ReplayM σ τ Unit) := by
  refine .of_fuel exact_composing.runCommands fun p bytes offset hp => ⟨bytes.length + 1, fun n hn => ?_⟩
  exact runCommands_of_fuel (κ := κ) hp (Nat.lt_succ_of_le (LawfulSource.length_le_unread hp.holds)) hn

end Replay

end BandedPage

/-!
## Commands that are cut short

A replay of commands in memory reads up to the end of the page and no further. If the commands stop
before that, it finds out where they do, and what it has drawn is the beginning of what it would
have drawn.
-/

namespace BandedPage.Replayer

variable {τ κ : Type} [Target τ]

/-- The replay of commands as `band`, on a target that has begun the band. -/
def playback (config : Config) (commands : List UInt8) (target : τ) :
    Playback (Buffered Portions) τ :=
  { source := buffered config { rest := commands }, target, state := .fresh config }

/-- How many of the commands' bytes a replay reads, up to and with the end of the page. -/
def bytesRead (r : Replayer τ) (band : Nat) (commands : List UInt8) : Option Nat :=
  match Target.beginBand band (r.config.bandRect band) r.target with
  | .error _ _ => none
  | .ok () target =>
    match Replay.run (playback r.config commands target) with
    | .ok () p => some (ByteSource.offset p.source)
    | .error _ _ => none

/-- On a target that begins the band, replaying commands is running them. -/
theorem playCommands_of_begun {r : Replayer τ} {band : Nat} {target : τ}
    (hbegin : Target.beginBand band (r.config.bandRect band) r.target = .ok () target)
    (commands : List UInt8) :
    playCommands band commands r =
      match Replay.run (playback r.config commands target) with
      | .ok () p =>
        .ok () { r with target := p.target, progress := .endOfPage, known := p.state.band.known }
      | .error e p =>
        .error e
          { r with target := p.target, progress := .stopped, known := p.state.band.known } := by
  simp only [playCommands, get_bind_run, play, hbegin, playback]
  generalize (Replay.run : ReplayM (Buffered Portions) τ Unit) _ = result
  cases result <;> rfl

omit [Target τ] in
theorem standing_playback {config : Config} (hconfig : config.Valid) (commands : List UInt8)
    (target : τ) : Standing (playback config commands target).source commands 0 := by
  have hreader : 0 < config.readerSize := by
    have := hconfig.readerSize
    have : 0 < Buffered.lookahead := by decide
    omega
  have hfeed : LawfulFeed.Holds ({ rest := commands } : Portions) commands := ⟨rfl, by simp⟩
  exact ⟨Buffered.holds_of_feed hfeed hreader, rfl⟩

variable [RecordingTarget τ κ]

/-- If commands are replayed to the end of a page, then any bytes may follow those that were read,
and without one of those the replay fails at the place where the commands stop. -/
theorem truncated_commands_are_refused {r r' : Replayer τ} {band : Nat} {commands : List UInt8}
    (hconfig : r.config.validate = .ok ()) (h : playCommands band commands r = .ok () r') :
    ∃ k, r.bytesRead band commands = some k ∧ 0 < k ∧ k ≤ commands.length ∧
      (∀ more, playCommands band (commands ++ more) r = .ok () r' ∧
        playCommands band (commands.take k ++ more) r = .ok () r') ∧
      ∀ j < k, ∃ needed r'', playCommands band (commands.take j) r =
          .error (.truncated j needed) r'' ∧
        0 < needed ∧ r''.progress = .stopped ∧
        RecordingTarget.calls r''.target <+: RecordingTarget.calls r'.target := by
  have hvalid := Config.valid_of_validate hconfig
  cases hbegin : Target.beginBand band (r.config.bandRect band) r.target with
  | error e target =>
    rw [playCommands, get_bind_run, play, hbegin] at h
    cases h
  | ok u target =>
    rw [playCommands_of_begun hbegin] at h
    cases hrun : Replay.run (playback r.config commands target) with
    | error e p =>
      rw [hrun] at h
      cases h
    | ok u p =>
      rw [hrun] at h
      cases h
      have hstand := fun bytes => standing_playback hvalid bytes target
      obtain ⟨taken, rest, rfl, hrest, hneeds⟩ :=
        Replay.exact_run (playback r.config commands target) commands 0 u p (hstand commands) hrun
      refine ⟨taken.length, ?_, ?_, by simp, fun more => ?_, fun j hj => ?_⟩
      · rw [bytesRead, hbegin]
        dsimp only
        rw [hrun]
        exact congrArg some (hrest.offset_eq.trans (Nat.zero_add _))
      · refine List.length_pos_of_ne_nil ?_
        rintro rfl
        obtain ⟨s', hs', -⟩ := hneeds.ok _ [] (hstand [])
        exact Replay.run_ne_ok_of_end (κ := κ) (hstand []) hs'
      · have hmore : ∀ bytes, playCommands band (taken ++ bytes) r = .ok ()
            { r with
              target := p.target, progress := .endOfPage, known := p.state.band.known } := by
          intro bytes
          obtain ⟨s', hs', -⟩ := hneeds.ok _ bytes (hstand (taken ++ bytes))
          have hrun' : Replay.run (playback r.config (taken ++ bytes) target) = _ := hs'
          rw [playCommands_of_begun hbegin, hrun']
          rfl
        rw [List.append_assoc, List.take_left]
        exact ⟨hmore (rest ++ more), hmore more⟩
      · have htake : (taken ++ rest).take j = taken.take j := List.take_append_of_le_length hj.le
        have hlength : (taken.take j).length = j := List.length_take_of_le hj.le
        obtain ⟨needed, q, hq, hneeded, hgrows⟩ := hneeds.short _ (taken.take j) (taken.drop j)
          (List.take_append_drop j taken).symm (by simpa using hj) (hstand _)
        rw [Nat.zero_add, hlength] at hq
        refine ⟨needed, { r with
          target := q.target, progress := .stopped, known := q.state.band.known }, ?_, hneeded,
          rfl, hgrows⟩
        have hrun' : Replay.run (playback r.config (taken.take j) target) = _ := hq
        rw [htake, playCommands_of_begun hbegin, hrun']

def logging : Replayer CallLog := { config := default, target := { clipBox := default } }

/-- Fill a rectangle, end the page, and one byte more. -/
def oneFill : List UInt8 := [0x30, 0x04, 0x04, 0x06, 0x06, Opcode.endPage, 0x30]

theorem cut_fill_is_refused :
    (default : Config).validate = .ok () ∧ ∃ r', playCommands 0 oneFill logging = .ok () r' ∧
      ∀ j < 6, ∃ needed r'', playCommands 0 (oneFill.take j) logging =
          .error (.truncated j needed) r'' ∧
        0 < needed ∧ r''.progress = .stopped ∧
        r''.target.calls.toList <+: r'.target.calls.toList := by
  have hread : logging.bytesRead 0 oneFill = some 6 := rfl
  obtain ⟨r', hr'⟩ : ∃ r', playCommands 0 oneFill logging = .ok () r' := ⟨_, rfl⟩
  obtain ⟨k, hk, -, -, -, hcut⟩ := truncated_commands_are_refused (r := logging) rfl hr'
  refine ⟨rfl, r', hr', ?_⟩
  cases hread.symm.trans hk
  exact hcut

end BandedPage.Replayer
