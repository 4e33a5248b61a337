import Mathlib
import BandedPage.Proofs.Config
import BandedPage.Proofs.Replay.Guarded
import BandedPage.Proofs.Replay.Truncation

/-!
# Whatever the commands are

Any bytes may be handed to a replay. It carries out one command after another, without a bound on
their number, and `Run` says how that goes if every place is looked at first. On a page that has all
its bytes no command comes to a place that is not there, and each command takes at least one byte.
So a replay ends, whatever the bytes are: at the end of the page, or refused.
-/

namespace BandedPage

namespace Replay

variable {σ : Type} [ByteSource σ]

namespace Guarded

/-! ### Each command agrees -/

theorem guards_fillRect : Guards (fillRect : GuardedM σ Unit) Replay.fillRect := by
  apply Guards.getState
  intro s _
  cases s.collector with
  | some collector => exact .unguarded _
  | none =>
    apply guards_drawVisible
    · intro piece _
      split
      · exact guards_draw _ trivial
      · exact guards_draw _ trivial
    · intro piece
      split
      · exact .draw (.stripCopyRop piece none _ s.band.tilePhase s.band.lop)
      · exact .draw (.fillRectangle piece _)

theorem guards_tileRect : Guards (tileRect : GuardedM σ Unit) Replay.tileRect := by
  apply Guards.getState
  intro s hs
  apply (guards_tileOf hs).bind (.lift _)
  intro tile htile
  have hrows := full_of_tile hs (of_answers_lift htile)
  apply guards_drawVisible
  · intro piece _
    split
    · exact guards_draw _ trivial
    · exact guards_draw _ hrows
  · intro piece
    split
    · exact .draw (.stripCopyRop piece (some tile) s.band.tileColors s.band.tilePhase s.band.lop)
    · exact .draw (.stripTileRectangle tile piece s.band.tileColors s.band.tilePhase)

omit [ByteSource σ] in
theorem guards_drawingColor (source : ColorSource) :
    Guards (drawingColor source : GuardedM σ DrawingColor) (Replay.drawingColor source) := by
  cases source with
  | halftone =>
    apply Guards.getState
    intro s hs
    exact guards_halftoneColor hs
  | pure | colored => exact fun _ _ => rfl

theorem guards_drawPath (op : PathOp) :
    Guards (drawPath op : GuardedM σ Unit) (Replay.drawPath op) := by
  apply Guards.step
  · exact (keeps_composing (σ := σ)).modifyState fun _ => rfl
  intro _
  apply Guards.getState
  intro s _
  have hdraw : ∀ call : TargetCall, call.HasRows →
      Guards (do draw call; unguarded (liftPen s) : GuardedM σ Unit)
        (do Replay.draw call.perform; liftPen s) := by
    intro call hcall
    apply (guards_draw call hcall).bind (.draw call)
    intro _ _
    exact .unguarded _
  cases op with
  | fill source =>
    apply (guards_drawingColor source).bind (keeps_composing.drawingColor source)
    intro color _
    exact hdraw (.fillPath s.imager s.pen.path .nonZero color s.activeClip) trivial
  | evenOddFill source =>
    apply (guards_drawingColor source).bind (keeps_composing.drawingColor source)
    intro color _
    exact hdraw (.fillPath s.imager s.pen.path .evenOdd color s.activeClip) trivial
  | stroke source =>
    apply (guards_drawingColor source).bind (keeps_composing.drawingColor source)
    intro color _
    exact hdraw (.strokePath s.imager s.pen.path color s.activeClip) trivial

theorem guards_tileCopy : Guards (tileCopy : GuardedM σ (Rect × Bitmap)) Replay.tileCopy := by
  apply Guards.step (keeps_composing.read trivial)
  intro x
  apply Guards.step (keeps_composing.read trivial)
  intro y
  apply Guards.getState
  intro s hs
  apply (guards_tileOf hs).bind (.lift _)
  intro tile _
  exact .pure _

theorem guards_copySource (flags : UInt8) (depth : Nat) :
    Guards (copySource flags depth : GuardedM σ (Rect × Bitmap))
      (Replay.copySource flags depth) := by
  have hselect : ∀ found : Rect × Bitmap,
      Guards (do
          unguarded (modifyBand fun band => { band with rect := .ofRect found.1 })
          return found : GuardedM σ (Rect × Bitmap))
        (do
          modifyBand fun band => { band with rect := .ofRect found.1 }
          return found) :=
    fun _ => .step (keeps_composing.modifyBand _) fun _ => .pure _
  rw [copySource, Replay.copySource]
  split
  · apply guards_tileCopy.bind keeps_composing.tileCopy
    intro found _
    exact hselect found
  · apply Guards.step (keeps_composing.inlineCopy flags depth)
    intro found
    exact hselect found

theorem guards_copyMono (flags : UInt8) :
    Guards (copyMono flags : GuardedM σ Unit) (Replay.copyMono flags) := by
  apply (guards_copySource flags 1).bind (keeps_composing.copySource flags 1)
  rintro ⟨rect, bits⟩ _
  apply Guards.getState
  intro s hs
  split
  · apply (guards_halftoneColor hs).bind (.lift _)
    intro color _
    exact guards_draw (.fillMask bits rect color 1 s.band.lop s.activeClip) trivial
  · apply guards_drawVisible
    · intro piece hpiece
      apply Guards.found (subBitmap?_eq hpiece)
      exact guards_draw (.copyMono (subBitmap bits rect piece) piece s.band.colors) trivial
    · intro piece
      exact .draw (.copyMono _ piece s.band.colors)

theorem guards_copyPixels (s : ReplayState) (flags depth : UInt8) :
    Guards (copyPixels s flags depth : GuardedM σ Unit) (do
      let (rect, bits) ← Replay.copySource flags depth.toNat
      Replay.drawVisible rect fun piece =>
        if s.band.copiesAlpha then
          Target.copyAlpha (subBitmap bits rect piece) piece s.band.colors.one depth
        else Target.copyColor (subBitmap bits rect piece) piece) := by
  apply (guards_copySource flags depth.toNat).bind (keeps_composing.copySource flags depth.toNat)
  rintro ⟨rect, bits⟩ _
  apply guards_drawVisible
  · intro piece hpiece
    apply Guards.found (subBitmap?_eq hpiece)
    split
    · exact guards_draw (.copyAlpha _ piece s.band.colors.one depth) trivial
    · exact guards_draw (.copyColor _ piece) trivial
  · intro piece
    split
    · exact .draw (.copyAlpha _ piece s.band.colors.one depth)
    · exact .draw (.copyColor _ piece)

theorem guards_copyDeep (flags : UInt8) :
    Guards (copyDeep flags : GuardedM σ Unit) (Replay.copyDeep flags) := by
  apply Guards.getState
  intro s _
  have hcopy : ∀ depth : UInt8, Guards
      (do
        if depth = 0 || 32 < depth then throw (.failed (.malformed s!"copy depth {depth}"))
        copyPixels s flags depth : GuardedM σ Unit)
      (do
        if depth = 0 || 32 < depth then throw (.malformed s!"copy depth {depth}")
        let (rect, bits) ← Replay.copySource flags depth.toNat
        Replay.drawVisible rect fun piece =>
          if s.band.copiesAlpha then
            Target.copyAlpha (subBitmap bits rect piece) piece s.band.colors.one depth
          else Target.copyColor (subBitmap bits rect piece) piece) :=
    fun depth => .check (guards_copyPixels s flags depth)
  apply Guards.ite
  · exact .step (keeps_composing.read trivial) hcopy
  · exact hcopy (UInt8.ofNat s.config.depth)

theorem guards_extendPath (op : SegmentOp) :
    Guards (extendPath op : GuardedM σ Unit) (Replay.extendPath op) := by
  have harity : 0 + op.arity ≤ 6 := by
    cases op <;> decide
  have hread : Guards (read (readPlaces 0 op.arity) : GuardedM σ (List Fixed))
      (Replay.read (Offset.decode op.arity)) := by
    rintro ⟨source, target, state⟩ _
    simp only [read, Replay.read, readPlaces_eq harity, BandedPage.unguarded]
    cases (Offset.decode op.arity : Decoder σ (List Fixed)) source <;> rfl
  apply hread.bind (keeps_composing.read trivial)
  intro operands _
  apply Guards.getState
  intro s _
  apply Guards.step (.lift _)
  intro pen
  exact .unguarded _

omit [ByteSource σ] in
theorem guards_storeTile (index offset : Nat) (size : TileSize) (bits : Bytes) :
    Guards (storeTile index offset size bits : GuardedM σ Unit)
      (Replay.storeTile index offset size bits) := by
  intro p _
  have hget : (Replay.getState : ReplayM σ Raster ReplayState) p = .ok p.state p := rfl
  rw [storeTile, bind_of_ok (unguarded_of_ok hget)]
  cases hstore : p.state.tiles.store index offset size bits with
  | error e =>
    rw [BandedPage.unguarded, storeTile_run, hstore]
    rfl
  | ok tiles =>
    -- The arena has taken the tile, so it has its place and its index.
    obtain ⟨hindex, -, hroom, -⟩ := TileArena.store_eq_ok hstore
    have harena : (liftM (.ok tiles : Except Error TileArena) : ReplayM σ Raster TileArena) p =
      .ok tiles p := rfl
    rw [bind_of_ok (unguarded_of_ok harena), Bits.slice?_eq (Nat.le_add_right ..) hroom, demand,
      if_pos hindex]
    rfl

theorem guards_setTileBits : Guards (setTileBits : GuardedM σ Unit) Replay.setTileBits := by
  apply Guards.step (keeps_composing.read trivial)
  intro index
  apply Guards.step (keeps_composing.read trivial)
  intro offset
  apply Guards.getState
  intro s _
  apply Guards.step (keeps_composing.read trivial)
  intro bits
  exact guards_storeTile index offset s.tileSize bits.toArray

theorem guards_setBits : Guards (setBits : GuardedM σ Unit) Replay.setBits := by
  apply Guards.step (keeps_composing.read trivial)
  intro flags
  apply Guards.step (.lift _)
  intro compression
  iterate 4
    apply Guards.step (keeps_composing.read trivial)
    intro _
  apply Guards.step (keeps_composing.read trivial)
  intro bits
  exact guards_storeTile _ _ _ bits

/-- An order other than the default one has its component. -/
theorem lt_of_orderOf {assembly : Option HalftoneAssembly} {index : Nat} {subject : String}
    {halftone : Halftone} {order : HalftoneOrder}
    (h : orderOf assembly index subject = .ok (halftone, order)) (hindex : 0 < index) :
    index - 1 < halftone.components.length := by
  obtain ⟨i, rfl⟩ := Nat.exists_eq_succ_of_ne_zero hindex.ne'
  cases assembly with
  | none => cases h
  | some found =>
    simp only [orderOf, Halftone.order?] at h
    cases hcomponent : found.halftone.components[i]? with
    | none =>
      rw [hcomponent] at h
      cases h
    | some component =>
      rw [hcomponent] at h
      cases h
      exact (List.getElem?_eq_some_iff.mp hcomponent).1

theorem guards_setOrder (index name : Nat) :
    Guards (setOrder index name : GuardedM σ Unit) (do
      let width ← Replay.read Varint.decode
      let height ← Replay.read Varint.decode
      let raster ← Replay.read Varint.decode
      let shift ← Replay.read Varint.decode
      let levelCount ← Replay.read Varint.decode
      let bitCount ← Replay.read Varint.decode
      let (halftone, _) ← orderOf (← Replay.getState).halftone index "order"
      let halftone := halftone.modifyOrder index fun _ =>
        { width, height, raster, shift, levelCount, bitCount }
      let halftone := halftone.setName index name
      modifyState fun s => { s with halftone := some { halftone, index } }) := by
  iterate 6
    apply Guards.step (keeps_composing.read trivial)
    intro _
  apply Guards.getState
  intro s _
  apply (Guards.unguarded _).bind (.lift _)
  rintro ⟨halftone, order⟩ horder
  exact .demand (lt_of_orderOf (of_answers_lift horder)) (.unguarded _)

theorem guards_setHalftoneOrder :
    Guards (setHalftoneOrder : GuardedM σ Unit) Replay.setHalftoneOrder := by
  apply Guards.step (keeps_composing.read trivial)
  intro index
  apply Guards.ite
  · exact .step (keeps_composing.read trivial) (guards_setOrder index)
  · exact guards_setOrder index 0

theorem guards_imageData [BlockSource σ] :
    Guards (imageData : GuardedM σ Unit) Replay.imageData := by
  apply Guards.step (keeps_composing.read trivial)
  intro height
  apply Guards.ite
  · apply Guards.getState
    intro s _
    apply Guards.check
    apply Guards.step
    · exact keeps_composing.modifyState fun _ => rfl
    intro _
    exact guards_draw .endImage trivial
  · apply Guards.step (keeps_composing.read trivial)
    intro raster
    apply Guards.getState
    intro s _
    cases s.image with
    | none => exact .throw _
    | some image =>
      apply Guards.step (keeps_composing.checkSize _)
      intro _
      apply (Guards.unguarded _).bind (keeps_composing.read trivial)
      intro data hdata
      -- The block that was read is as long as all planes together.
      obtain ⟨⟨source, target, state⟩, p', -, hread⟩ := hdata
      have hlength : data.toArray.size = image.1.planes image.2 * (raster * height) := by
        rw [Replay.read] at hread
        split at hread
        · next htake =>
          cases hread
          rw [List.size_toArray, BlockSource.length_of_take htake]
          ring
        · cases hread
      apply Guards.found (planes?_eq hlength)
      exact guards_draw (.imageData _ 0 raster height) trivial

theorem guards_perform [BlockSource σ] (op : Op) :
    Guards (perform op : GuardedM σ Unit) (Replay.perform op) := by
  have hrect : ∀ (form : RectForm) (n : UInt8), Keeps (setRect form n : ReplayM σ Raster Unit) :=
    keeps_composing.setRect
  cases op with
  | control op =>
    cases op with
    | setTileBits => exact guards_setTileBits
    | setBits => exact guards_setBits
    | setHalftoneOrder => exact guards_setHalftoneOrder
    | _ => exact fun _ _ => rfl
  | fillRect form n => exact .step (hrect form n) fun _ => guards_fillRect
  | tileRect form n => exact .step (hrect form n) fun _ => guards_tileRect
  | copyMono flags => exact guards_copyMono flags
  | copyDeep flags => exact guards_copyDeep flags
  | state op =>
    cases op with
    | imageData => exact guards_imageData
    | _ => exact fun _ _ => rfl
  | segment op => exact guards_extendPath op
  | path op => exact guards_drawPath op
  | setColor | tileIndexDifference | setTileIndex => exact fun _ _ => rfl

end Guarded

/-! ### Each command takes a byte -/

section

variable [LawfulSource σ]

/-- What the step reads are the next bytes. -/
def Advances {α : Type} (m : ReplayM σ Raster α) : Prop :=
  ∀ p bytes offset a p', Standing p.source bytes offset → m p = .ok a p' →
    ∃ taken rest, bytes = taken ++ rest ∧ Standing p'.source rest (offset + taken.length)

namespace Advances

variable {α β : Type}

theorem of_same {m : ReplayM σ Raster α} (h : ∀ p a p', m p = .ok a p' → p'.source = p.source) :
    Advances m := by
  intro p bytes offset a p' hp hm
  refine ⟨[], bytes, rfl, ?_⟩
  rw [h p a p' hm]
  exact hp

theorem bind {m : ReplayM σ Raster α} {f : α → ReplayM σ Raster β} (hm : Advances m)
    (hf : ∀ a, Advances (f a)) : Advances (m >>= f) := by
  intro p bytes offset b p'' hp h
  obtain ⟨a, p', ha, hb⟩ := bind_eq_ok_iff.mp h
  obtain ⟨first, middle, rfl, hp'⟩ := hm p bytes offset a p' hp ha
  obtain ⟨second, rest, rfl, hp''⟩ := hf a p' middle _ b p'' hp' hb
  refine ⟨first ++ second, rest, (List.append_assoc ..).symm, ?_⟩
  rw [List.length_append, ← Nat.add_assoc]
  exact hp''

theorem read {decoder : Decoder σ α} (h : Exact .alone decoder) :
    Advances (Replay.read decoder) := by
  intro p bytes offset a p' hp hread
  cases hdecode : decoder p.source with
  | error e s =>
    simp only [Replay.read, hdecode] at hread
    cases hread
  | ok b s =>
    simp only [Replay.read, hdecode] at hread
    cases hread
    obtain ⟨taken, rest, heq, hrest, -⟩ := h p.source bytes offset a s hp hdecode
    exact ⟨taken, rest, heq, hrest⟩

theorem draw (call : TargetCall) :
    Advances (Replay.draw call.perform : ReplayM σ Raster Unit) := by
  apply of_same
  intro p _ p' h
  simp only [Replay.draw] at h
  split at h <;> cases h
  rfl

theorem modifyState (f : ReplayState → ReplayState) :
    Advances (Replay.modifyState f : ReplayM σ Raster Unit) := by
  apply of_same
  intro p _ p' h
  cases h
  rfl

theorem storeTile (index offset : Nat) (size : TileSize) (bits : Bytes) :
    Advances (Replay.storeTile index offset size bits : ReplayM σ Raster Unit) := by
  apply of_same
  intro p _ p' h
  rw [storeTile_run] at h
  split at h <;> cases h
  rfl

end Advances

/-- No command reads on from elsewhere than where the last one ended. -/
theorem advances_composing [EndingSource σ] :
    Composing (σ := σ) (τ := Raster) (Exact .alone ·) (Advances ·) where
  toOperandDecoders := exact_operands
  pure _ := .of_same fun _ _ _ h => by
    cases h
    rfl
  throw _ := .of_same fun _ _ _ h => by cases h
  bind := .bind
  read := .read
  draw := .draw
  getState := Advances.of_same fun _ _ _ h => by
    cases h
    rfl
  modifyState _ := .modifyState _
  storeTile := .storeTile
  clipBox := .of_same fun _ _ _ h => by
    cases h
    rfl

end

/-! ### A whole replay -/

/-- A replay that looks at every place goes from `p` on like this, and ends so. -/
inductive Run : Playback σ Raster → EStateM.Result Fault (Playback σ Raster) Unit → Prop where
  | endOfPage {p p'} (hop : nextOp p = .ok (.control .endPage) p') : Run p (.ok () p')
  /-- There is no command, or none of that name. -/
  | unknown {p p' e} (hop : nextOp p = .error e p') : Run p (.error (.failed e) p')
  | stopped {p p' p'' op fault} (hop : nextOp p = .ok op p') (hne : op ≠ .control .endPage)
    (hperform : Guarded.perform op p' = .error fault p'') : Run p (.error fault p'')
  | next {p p' p'' op result} (hop : nextOp p = .ok op p') (hne : op ≠ .control .endPage)
    (hperform : Guarded.perform op p' = .ok () p'') (hrest : Run p'' result) : Run p result

/-- A replay ends in one way only. -/
theorem Run.unique {p : Playback σ Raster} {result result' : EStateM.Result Fault _ Unit}
    (h : Run p result) (h' : Run p result') : result' = result := by
  induction h with
  | endOfPage hop => cases h' <;> simp_all
  | unknown hop => cases h' <;> simp_all
  | stopped hop hne hperform => cases h' <;> simp_all
  | next hop hne hperform hrest ih => cases h' <;> simp_all

theorem runCommands_of_endPage {p p' : Playback σ Raster}
    (hop : nextOp p = .ok (.control .endPage) p') (n : Nat) :
    runCommands (n + 1) p = .ok () p' := by
  rw [runCommands, bind_of_ok hop]
  rfl

theorem runCommands_of_op {p p' : Playback σ Raster} {op : Op} (hop : nextOp p = .ok op p')
    (hne : op ≠ .control .endPage) (n : Nat) :
    runCommands (n + 1) p = (do perform op; runCommands n) p' := by
  rw [runCommands, bind_of_ok hop]
  split
  · exact absurd rfl hne
  · rfl

/-- The replay ends like this, and in no other way. -/
def Ends (p : Playback σ Raster) (result : EStateM.Result Fault (Playback σ Raster) Unit) : Prop :=
  ∀ result', Run p result' ↔ result' = result

theorem Run.ends {p : Playback σ Raster} {result : EStateM.Result Fault (Playback σ Raster) Unit}
    (h : Run p result) : Ends p result := by
  intro result'
  constructor
  · exact h.unique
  · rintro rfl
    exact h

/-- With a step for each byte and one more, a replay of anything ends. -/
theorem run_runCommands [BlockSource σ] [LawfulSource σ] [EndingSource σ] {n : Nat}
    {p : Playback σ Raster} {bytes : List UInt8} {offset : Nat} (hp : p.Sound)
    (hsource : Standing p.source bytes offset) (hn : bytes.length < n) :
    Run p (unguarded (runCommands n) p) := by
  induction n generalizing p bytes offset with
  | zero => omega
  | succ n ih =>
    have hkeep := keeps_composing.nextOp p hp
    cases hop : nextOp p with
    | error e p' =>
      have hrun : runCommands (n + 1) p = .error e p' := by
        rw [runCommands, bind_of_error hop]
      rw [unguarded_of_error hrun]
      exact .unknown hop
    | ok op p' =>
      rw [hop] at hkeep
      by_cases hne : op = .control .endPage
      · subst hne
        rw [unguarded_of_ok (runCommands_of_endPage hop n)]
        exact .endOfPage hop
      obtain ⟨name, rest, rfl, hsource'⟩ :=
        advances_composing.nextOp p bytes offset op p' hsource hop
      -- The name of the command takes a byte, so fewer are left for the commands after it.
      have hname := (offset_of_nextOp hsource hop).symm.trans hsource'.offset_eq
      have hguarded := Guarded.guards_perform op p' hkeep
      have hkeep' := keeps_composing.perform op p' hkeep
      cases hperform : perform op p' with
      | error e p'' =>
        rw [unguarded_of_error hperform] at hguarded
        have hrun : runCommands (n + 1) p = .error e p'' := by
          rw [runCommands_of_op hop hne, bind_of_error hperform]
        rw [unguarded_of_error hrun]
        exact .stopped hop hne hguarded
      | ok u p'' =>
        rw [unguarded_of_ok hperform] at hguarded
        rw [hperform] at hkeep'
        obtain ⟨operands, rest, rfl, hsource''⟩ :=
          advances_composing.perform op p' rest _ u p'' hsource' hperform
        have hrest := ih hkeep' hsource'' (by simp only [List.length_append] at hn; omega)
        have hrun : runCommands (n + 1) p = runCommands n p'' := by
          rw [runCommands_of_op hop hne, bind_of_ok hperform]
        rw [unguarded, hrun]
        exact .next hop hne hguarded hrest

end Replay

namespace Replayer

open Replay (Ends)

def smallPage : Replayer Raster :=
  { config := { tileBytes := 16, tileSlots := 4 }, target := .ofSize 16 16 8 }

/-- A tile of five pixels of three bits, and a copy of it that takes the pixels for bytes. -/
def shallowTile : List UInt8 :=
  [Opcode.setTileSize, 2, 5, 1, Opcode.setTileBits, 0, 0, 0x55, 0xaa,
    Opcode.copyDeep + Opcode.copyFromTile, 0, 0, Opcode.endPage]

end Replayer

end BandedPage
