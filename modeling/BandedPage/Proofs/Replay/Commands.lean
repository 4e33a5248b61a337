import Mathlib
import BandedPage.Command.Basic
import BandedPage.Command.Imager
import BandedPage.Proofs.Operand.ImageHeader
import BandedPage.Proofs.Operand.Rect
import BandedPage.Proofs.Replay.Steps
import BandedPage.Proofs.Store.Feed
import BandedPage.Replay.Replayer

/-!
# Replaying whole commands

A command is replayed by reading what it says and carrying that out; `Replays` says what comes of
it. A list of commands is replayed one after another, and the ends of runs between them make no
difference. What a band's runs hold is therefore replayed as the commands that they hold.
-/

namespace BandedPage

/-- The command is carried out on a replay in state `r`, with these calls on the target, and leaves
the state `r'`. -/
def Replays (box : Rect) (command : Command) (r : ReplayState) (calls : List TargetCall)
    (r' : ReplayState) : Prop :=
  ∃ code operands op, command = code :: operands ∧ Op.ofByte? code = some op ∧
    op ≠ .control .endPage ∧
    ∀ {σ τ : Type} [ByteSource σ] [LawfulSource σ] [Target τ],
      Yields box (Replay.perform op : ReplayM σ τ Unit) operands r calls () r'

/-- The commands are carried out one after another. -/
inductive ReplaysAll (box : Rect) :
    List Command → ReplayState → List TargetCall → ReplayState → Prop where
  | nil (r : ReplayState) : ReplaysAll box [] r [] r
  | cons {command : Command} {commands : List Command} {r r' r'' : ReplayState}
      {calls calls' : List TargetCall} (head : Replays box command r calls r')
      (tail : ReplaysAll box commands r' calls' r'') :
      ReplaysAll box (command :: commands) r (calls ++ calls') r''

namespace ReplaysAll

variable {box : Rect} {commands commands' : List Command} {r r' r'' : ReplayState}
variable {calls calls' : List TargetCall}

theorem single {command : Command} (h : Replays box command r calls r') :
    ReplaysAll box [command] r calls r' := by
  have := cons h (nil r')
  rwa [List.append_nil] at this

theorem append (h : ReplaysAll box commands r calls r')
    (h' : ReplaysAll box commands' r' calls' r'') :
    ReplaysAll box (commands ++ commands') r (calls ++ calls') r'' := by
  induction h with
  | nil r => exact h'
  | cons head tail ih =>
    rw [List.cons_append, List.append_assoc]
    exact cons head (ih h')

/-- Every command has at least one byte. -/
theorem length_le (h : ReplaysAll box commands r calls r') :
    commands.length ≤ commands.flatten.length := by
  induction h with
  | nil r => exact Nat.le_refl _
  | cons head tail ih =>
    obtain ⟨code, operands, op, rfl, -⟩ := head
    rw [List.flatten_cons, List.length_cons, List.length_append, List.length_cons]
    omega

theorem exists_of_append (h : ReplaysAll box (commands ++ commands') r calls r'') :
    ∃ calls₁ calls₂ r', calls = calls₁ ++ calls₂ ∧ ReplaysAll box commands r calls₁ r' ∧
      ReplaysAll box commands' r' calls₂ r'' := by
  induction commands generalizing r calls with
  | nil => exact ⟨[], calls, r, rfl, nil r, h⟩
  | cons command commands ih =>
    cases h with
    | cons head tail =>
      obtain ⟨calls₁, calls₂, r', rfl, h₁, h₂⟩ := ih tail
      exact ⟨_, calls₂, r', by rw [List.append_assoc], cons head h₁, h₂⟩

end ReplaysAll

/-- The end of a run means nothing. -/
theorem replays_endRun (box : Rect) (r : ReplayState) : Replays box [Opcode.endRun] r [] r :=
  ⟨_, [], .control .endRun, rfl, rfl, by decide, Yields.pure ()⟩

/-- The commands of runs, each followed by the end of its run. -/
def endedRuns (runs : List (List Command)) : List Command :=
  runs.flatMap fun run => run ++ [[Opcode.endRun]]

/-- Where runs end makes no difference. -/
theorem ReplaysAll.endedRuns {box : Rect} {runs : List (List Command)} {commands : List Command}
    {r r' : ReplayState} {calls : List TargetCall}
    (h : ReplaysAll box (runs.flatten ++ commands) r calls r') :
    ReplaysAll box (BandedPage.endedRuns runs ++ commands) r calls r' := by
  induction runs generalizing r calls with
  | nil => exact h
  | cons run runs ih =>
    rw [List.flatten_cons, List.append_assoc] at h
    obtain ⟨calls₁, calls₂, r₁, rfl, h₁, h₂⟩ := h.exists_of_append
    have hrun := (h₁.append (.single (replays_endRun box r₁))).append (ih h₂)
    rw [List.append_nil] at hrun
    simpa [BandedPage.endedRuns] using hrun

namespace Replay

variable {σ τ : Type} [ByteSource σ] [LawfulSource σ] [Target τ]

omit [Target τ] in
/-- The next operation is the one that the next byte names. -/
theorem nextOp_eq {s : σ} {code : UInt8} {rest : List UInt8} {o : Op}
    (hs : LawfulSource.Holds s (code :: rest)) (ho : Op.ofByte? code = some o) (t : τ)
    (r : ReplayState) :
    ∃ s', nextOp ⟨s, t, r⟩ = .ok o ⟨s', t, r⟩ ∧ LawfulSource.Holds s' rest := by
  obtain ⟨s₁, hprepare, hs₁⟩ := LawfulSource.prepare_eq hs
  obtain ⟨s₂, hbyte, hs₂⟩ := LawfulSource.nextByte_cons hs₁
  refine ⟨s₂, ?_, hs₂⟩
  have h₁ : read ByteSource.prepare (⟨s, t, r⟩ : Playback σ τ) = .ok () ⟨s₁, t, r⟩ := by
    simp only [read, hprepare]
  have h₂ : read currentOffset (⟨s₁, t, r⟩ : Playback σ τ) =
      .ok (ByteSource.offset s₁) ⟨s₁, t, r⟩ := rfl
  have h₃ : read nextByte (⟨s₁, t, r⟩ : Playback σ τ) = .ok code ⟨s₂, t, r⟩ := by
    simp only [read, hbyte]
  rw [nextOp, bind_of_ok h₁, bind_of_ok h₂, bind_of_ok h₃, Op.decode, ho]
  rfl

/-- Commands are replayed to the end of the page, and nothing behind it. -/
theorem runCommands_eq {box : Rect} {commands : List Command} {r r' : ReplayState}
    {calls : List TargetCall} (h : ReplaysAll box commands r calls r') {s : σ} {t t' : τ}
    {rest : List UInt8}
    (hs : LawfulSource.Holds s (commands.flatten ++ Opcode.endPage :: rest))
    (ht : TargetCall.Accepts box calls t t') {n : Nat} (hn : commands.length < n) :
    ∃ s', runCommands n ⟨s, t, r⟩ = .ok () ⟨s', t', r'⟩ ∧ LawfulSource.Holds s' rest := by
  induction h generalizing s t n with
  | nil r =>
    obtain ⟨rfl, -⟩ := ht
    obtain ⟨m, rfl⟩ := Nat.exists_eq_succ_of_ne_zero (Nat.ne_zero_of_lt hn)
    obtain ⟨s', hop, hs'⟩ := nextOp_eq (o := .control .endPage) hs rfl t' r
    refine ⟨s', ?_, hs'⟩
    rw [runCommands, bind_of_ok hop]
    rfl
  | @cons command commands r r₁ r'' calls calls' head tail ih =>
    obtain ⟨m, rfl⟩ := Nat.exists_eq_succ_of_ne_zero (Nat.ne_zero_of_lt hn)
    obtain ⟨code, operands, op, rfl, hop, hne, hperform⟩ := head
    obtain ⟨t₁, ht₁, ht₂⟩ := TargetCall.accepts_append.mp ht
    rw [List.flatten_cons, List.cons_append, List.cons_append, List.append_assoc] at hs
    obtain ⟨s₁, hnext, hs₁⟩ := nextOp_eq hs hop t r
    obtain ⟨s₂, hrun, hs₂⟩ := hperform s₁ _ t t₁ hs₁ ht₁
    obtain ⟨s₃, hrest, hs₃⟩ := ih hs₂ ht₂ (n := m) (by simpa using hn)
    refine ⟨s₃, ?_, hs₃⟩
    have hmore : (do perform op; runCommands m) (⟨s₁, t, r⟩ : Playback σ τ) =
        .ok () ⟨s₃, t', r''⟩ := by
      rw [bind_of_ok hrun, hrest]
    rw [runCommands, bind_of_ok hnext]
    split
    · exact absurd rfl hne
    · exact hmore

theorem run_eq {box : Rect} {commands : List Command} {r r' : ReplayState}
    {calls : List TargetCall} (h : ReplaysAll box commands r calls r') {s : σ} {t t' : τ}
    {rest : List UInt8}
    (hs : LawfulSource.Holds s (commands.flatten ++ Opcode.endPage :: rest))
    (ht : TargetCall.Accepts box calls t t') :
    ∃ s', run ⟨s, t, r⟩ = .ok () ⟨s', t', r'⟩ ∧ LawfulSource.Holds s' rest := by
  have hunread := LawfulSource.length_le_unread hs
  have hlength := h.length_le
  rw [List.length_append, List.length_cons] at hunread
  obtain ⟨s', hrun, hs'⟩ := runCommands_eq h hs ht (n := ByteSource.unread s + 1) (by omega)
  exact ⟨s', hrun, hs'⟩

end Replay

namespace Replayer

variable {τ : Type} [Target τ] {μ : Type} [Medium μ] [LawfulMedium μ]

/-- A band is replayed from its store as the commands that its runs hold. -/
theorem playStored_eq {r : Replayer τ} {store : BandStore μ} {entries : List StoreEntry}
    (hc : store.Contains entries) (ha : ∀ e ∈ entries, e.Addressable)
    (hlen : store.commandLength < 9223372036854775808) {band : Nat}
    (hband : band < r.config.nbands) (hreader : 0 < r.config.readerSize) {t t' : τ}
    (hbegin : Target.beginBand band (r.config.bandRect band) r.target = .ok () t)
    {box : Rect} {commands : List Command} {calls : List TargetCall} {state : ReplayState}
    (hbytes : StoreEntry.bandBytes entries band = commands.flatten ++ [Opcode.endPage])
    (h : ReplaysAll box commands (.fresh r.config) calls state)
    (ht : TargetCall.Accepts box calls t t') :
    playStored store r.config.nbands band r = .ok ()
      { r with target := t', progress := .endOfPage, known := state.band.known } := by
  have hfeed := BandFeed.holds_bandFeed hc ha (by omega) band
  rw [hbytes] at hfeed
  have hsource := Buffered.holds_of_feed hfeed hreader
  obtain ⟨s', hrun, -⟩ := Replay.run_eq h hsource ht
  have hpage : ¬ r.config.nbands ≤ band := by omega
  simp only [playStored, get_bind_run, if_neg hpage, play, hbegin, buffered, hrun]

end Replayer

end BandedPage

/-!
## Replaying rectangles

A rectangle is drawn in its visible parts, or becomes part of the clip that is being collected.
Either way it is the band's rectangle from then on.
-/

namespace BandedPage

variable {box : Rect} {r : ReplayState} {rect : SizedRect}

def ReplayState.withRect (r : ReplayState) (rect : SizedRect) : ReplayState :=
  { r with band := { r.band with rect } }

theorem yields_setRect {σ τ : Type} [ByteSource σ] [LawfulSource σ] [Target τ] {form : RectForm}
    {n : UInt8} {operands : List UInt8}
    (hd : Decodes (RectCommand.decode form n r.band.rect : Decoder σ SizedRect) operands rect) :
    Yields box (Replay.setRect form n : ReplayM σ τ Unit) operands r [] () (r.withRect rect) := by
  refine Yields.getState_bind ?_
  exact (Yields.read_bind hd (Yields.modifyBand fun band => { band with rect })).of_eq (by simp)

theorem yields_drawVisible {σ τ : Type} [ByteSource σ] [LawfulSource σ] [Target τ] (area : Rect)
    (call : Rect → TargetCall) :
    Yields box (Replay.drawVisible area fun piece => (call piece).perform : ReplayM σ τ Unit) [] r
      ((r.visible box area).map call) () r := by
  refine Yields.clipBox_bind ?_
  refine Yields.getState_bind ?_
  exact Yields.forM_draw call _

def fillCall (band : BandState) (piece : Rect) : TargetCall :=
  if band.lopEnabled then
    .stripCopyRop piece none ⟨band.colors.one, band.colors.one⟩ band.tilePhase band.lop
  else .fillRectangle piece band.colors.one

theorem replays_fillRect (box : Rect) (hrect : rect.Fits) (hd : (rect.minus r.band.rect).Fits)
    (hcollector : r.collector = none) :
    Replays box (RectCommand.encode Opcode.fillRect rect r.band.rect) r
      ((r.visible box rect.toRect).map (fillCall r.band)) (r.withRect rect) := by
  obtain ⟨form, n, operands, hencode, hn, hdecode⟩ :=
    RectCommand.exists_form Opcode.fillRect hrect hd
  refine ⟨_, operands, .fillRect form n, hencode, Op.ofByte?_rect .fill form hn,
    fun heq => Op.noConfusion heq, fun {σ τ} _ _ _ => ?_⟩
  refine ((yields_setRect hdecode).bind (l := []) ?_).of_eq (by simp)
  refine Yields.getState_bind ?_
  have hnone : (r.withRect rect).collector = none := hcollector
  rw [hnone]
  have hcall : (fun piece => if (r.withRect rect).band.lopEnabled then
      Target.stripCopyRop piece none ⟨(r.withRect rect).band.colors.one,
        (r.withRect rect).band.colors.one⟩ (r.withRect rect).band.tilePhase
        (r.withRect rect).band.lop
      else Target.fillRectangle piece (r.withRect rect).band.colors.one) =
      fun piece => ((fillCall r.band piece).perform : DrawM τ Unit) := by
    funext piece
    by_cases hlop : r.band.lopEnabled = true
    · simp [fillCall, hlop, TargetCall.perform, ReplayState.withRect]
    · simp [fillCall, hlop, TargetCall.perform, ReplayState.withRect]
  have hdraw : Yields box (Replay.drawVisible rect.toRect fun piece =>
      (fillCall r.band piece).perform : ReplayM σ τ Unit) [] (r.withRect rect)
      ((r.visible box rect.toRect).map (fillCall r.band)) () (r.withRect rect) :=
    yields_drawVisible rect.toRect (fillCall r.band)
  rw [← hcall] at hdraw
  exact hdraw

/-- While a clip is being collected, a rectangle becomes part of it and is not drawn. -/
theorem replays_fillRect_collecting {collector : ClipCollector} (hrect : rect.Fits)
    (hd : (rect.minus r.band.rect).Fits) (hcollector : r.collector = some collector) :
    Replays box (RectCommand.encode Opcode.fillRect rect r.band.rect) r []
      { r.withRect rect with collector := some (collector.add rect.toRect) } := by
  obtain ⟨form, n, operands, hencode, hn, hdecode⟩ :=
    RectCommand.exists_form Opcode.fillRect hrect hd
  refine ⟨_, operands, .fillRect form n, hencode, Op.ofByte?_rect .fill form hn,
    fun heq => Op.noConfusion heq, fun {σ τ} _ _ _ => ?_⟩
  refine ((yields_setRect hdecode).bind (l := []) ?_).of_eq (by simp)
  refine Yields.getState_bind ?_
  have hsome : (r.withRect rect).collector = some collector := hcollector
  rw [hsome]
  exact Yields.modifyState _

end BandedPage

/-!
## Replaying images

An image begins with its header, which is read for the band's color space. Its rows follow the
commands that bring them, all planes in one block.
-/

namespace BandedPage

variable {box : Rect} {r : ReplayState}

def ReplayState.afterImageBegin (r : ReplayState) (header : ImageHeader) (space : ColorSpace) :
    ReplayState :=
  { r with imager := { r.imager with logOp := r.band.lop }, image := some (header, space) }

def ReplayState.imageCall (r : ReplayState) (header : ImageHeader) (space : ColorSpace) :
    TargetCall :=
  .beginImage { r.imager with logOp := r.band.lop } header space (.pure r.band.colors.one)
    r.activeClip

theorem replays_imageBegin {header : ImageHeader} {space : ColorSpace} {c : Command}
    (hc : Command.imageBegin header space = .ok c) (hspace : r.colorSpace = space)
    (hwidth : header.width < 4294967296) (hheight : header.height < 4294967296) :
    Replays box c r [r.imageCall (header.sent space) space]
      (r.afterImageBegin (header.sent space) space) := by
  rw [Command.imageBegin] at hc
  cases hencode : header.encode space with
  | error e =>
    rw [hencode] at hc
    cases hc
  | ok bytes =>
    rw [hencode] at hc
    cases hc
    refine ⟨_, _, .state .beginImage, rfl, rfl, by decide, fun {σ τ} _ _ _ => ?_⟩
    rw [← List.append_nil bytes]
    refine Yields.getState_bind ?_
    rw [hspace]
    refine Yields.read_bind (ImageHeader.decodes_encode hencode hwidth hheight) ?_
    refine Yields.modifyState_bind (Yields.getState_bind ?_)
    exact Yields.bind (l := []) (Yields.draw (r.imageCall (header.sent space) space))
      (Yields.modifyState _)

/-- The rows of a block of bytes for an image of so many planes. -/
theorem replays_imageData {rows raster : Nat} {data : List UInt8} {header : ImageHeader}
    {space : ColorSpace} (himage : r.image = some (header, space))
    (hrows : 0 < rows ∧ rows < 4294967296) (hraster : raster < 4294967296)
    (hdata : data.length = raster * header.planes space * rows)
    (hfits : raster * header.planes space * rows ≤ r.config.readerSize) :
    Replays box (Command.imageData rows raster data) r
      [.imageData (Replay.planesOf data.toArray (header.planes space) (raster * rows)) 0 raster rows]
      r := by
  refine ⟨_, _, .state .imageData, rfl, rfl, by decide, fun {σ τ} _ _ _ => ?_⟩
  rw [List.append_assoc]
  refine Yields.read_bind (Varint.decodes hrows.2) ?_
  rw [if_neg hrows.1.ne']
  refine Yields.read_bind (Varint.decodes hraster) ?_
  refine Yields.getState_bind ?_
  rw [himage]
  dsimp only
  rw [← List.nil_append data]
  refine Yields.bind (?_ : Yields box (Replay.checkSize _) [] r [] () r) ?_
  · refine Yields.getState_bind ?_
    dsimp only
    rw [if_neg (Nat.not_lt.mpr hfits)]
    exact .pure ()
  · rw [List.nil_append, ← List.append_nil data]
    refine Yields.read_bind (Decodes.take hdata) ?_
    rw [List.append_nil]
    exact Yields.draw _

theorem replays_imageEnd (himage : r.image.isSome = true) :
    Replays box Command.imageEnd r [.endImage] { r with image := none } := by
  refine ⟨_, _, .state .imageData, rfl, rfl, by decide, fun {σ τ} _ _ _ => ?_⟩
  rw [← List.append_nil (Varint.encode 0)]
  refine Yields.read_bind (Varint.decodes (by norm_num)) ?_
  rw [if_pos rfl]
  refine Yields.getState_bind ?_
  have hsome : r.image.isNone = false := by
    rw [Option.isNone_eq_false_iff]
    exact himage
  rw [hsome]
  exact Yields.modifyState_bind (Yields.draw .endImage)

end BandedPage
