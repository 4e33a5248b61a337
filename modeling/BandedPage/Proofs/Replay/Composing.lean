import Mathlib
import BandedPage.Proofs.Replay.Steps
import BandedPage.Replay.Command

/-!
# What replays have in common with their parts

A replay is made of decoding, of calls on the target and of changes of its state. A property that
these have, and that putting steps together keeps, is a property of the replay of any bytes.
-/

namespace BandedPage

/-- A property of all decoders that a replay reads with. -/
structure OperandDecoders {σ : Type} [ByteSource σ] (D : ∀ {α : Type}, Decoder σ α → Prop) :
    Prop where
  prepare : D (ByteSource.prepare : Decoder σ Unit)
  currentOffset : D (currentOffset : Decoder σ Nat)
  nextByte : D (nextByte : Decoder σ UInt8)
  take (n : Nat) : D (ByteSource.take n : Decoder σ (List UInt8))
  varint : D (Varint.decode : Decoder σ Nat)
  varints (n : Nat) : D (Operand.many Varint.decode n : Decoder σ (List Nat))
  signedVarint : D (Varint.decodeInt : Decoder σ Int)
  natural (n : Nat) : D (Operand.natural n : Decoder σ Nat)
  naturals (n count : Nat) : D (Operand.many (Operand.natural n) count : Decoder σ (List Nat))
  integer : D (Operand.integer : Decoder σ Int)
  single : D (Operand.single : Decoder σ Single)
  singles (n : Nat) : D (Operand.many Operand.single n : Decoder σ (List Single))
  matrix : D (Matrix.decode : Decoder σ Matrix)
  offsets (n : Nat) : D (Offset.decode n : Decoder σ (List Fixed))
  payload (compression : Compression) (raster height : Nat) :
    D (Payload.decode compression raster height : Decoder σ Bytes)
  color (n : UInt8) (last : Color) (depth : Nat) :
    D (ColorCommand.decode n last depth : Decoder σ Color)
  colorDifference (last : Color) (depth : Nat) :
    D (ColorCommand.decodeDifference last depth : Decoder σ Color)
  rect (form : RectForm) (n : UInt8) (last : SizedRect) :
    D (RectCommand.decode form n last : Decoder σ SizedRect)
  header (space : ColorSpace) : D (ImageHeader.decodeFor space : Decoder σ ImageHeader)
  order (order : HalftoneOrder) (n : Nat) :
    D (Replay.extendOrder order n : Decoder σ HalftoneOrder)
  bases : D (Replay.coloredBases : Decoder σ (List UInt8))

namespace Replay

/-- A tile that the arena takes is kept and selected. -/
theorem storeTile_run {σ τ : Type} (index offset : Nat) (size : TileSize) (bits : Bytes)
    (p : Playback σ τ) :
    storeTile index offset size bits p =
      match p.state.tiles.store index offset size bits with
      | .ok tiles => .ok () { p with state := { p.state with
          tiles, band := { p.state.band with tileIndex := index } } }
      | .error e => .error e p := by
  have hget : (Replay.getState : ReplayM σ τ ReplayState) p = .ok p.state p := rfl
  rw [storeTile, bind_of_ok hget]
  cases p.state.tiles.store index offset size bits <;> rfl

/-- The parts of a replay have the property `P`, if its decoders have the property `D`. -/
structure Composing {σ τ : Type} [ByteSource σ] [Target τ] (D : ∀ {α : Type}, Decoder σ α → Prop)
    (P : ∀ {α : Type}, ReplayM σ τ α → Prop) : Prop extends OperandDecoders D where
  pure {α : Type} (a : α) : P (Pure.pure a : ReplayM σ τ α)
  throw {α : Type} (e : Error) : P (MonadExcept.throw e : ReplayM σ τ α)
  bind {α β : Type} {m : ReplayM σ τ α} {f : α → ReplayM σ τ β} (hm : P m) (hf : ∀ a, P (f a)) :
    P (m >>= f)
  read {α : Type} {decoder : Decoder σ α} (h : D decoder) : P (Replay.read decoder)
  draw (call : TargetCall) : P (Replay.draw call.perform)
  getState : P Replay.getState
  /-- Nothing but keeping a tile changes what tiles there are. -/
  modifyState {f : ReplayState → ReplayState} (hf : ∀ s, (f s).tiles = s.tiles) :
    P (Replay.modifyState f)
  storeTile (index offset : Nat) (size : TileSize) (bits : Bytes) :
    P (Replay.storeTile index offset size bits)
  clipBox : P Replay.clipBox

namespace Composing

variable {σ τ : Type} [ByteSource σ] [Target τ]
variable {D : ∀ {α : Type}, Decoder σ α → Prop} {P : ∀ {α : Type}, ReplayM σ τ α → Prop}

variable (h : Composing (τ := τ) D P)
include h

theorem lift {α : Type} (x : Except Error α) : P (liftM x : ReplayM σ τ α) := by
  cases x with
  | ok a => exact h.pure a
  | error e => exact h.throw e

/-- What goes on with a number that is only there if a flag says so. -/
theorem optional {α β : Type} {c : Prop} [Decidable c] {decoder : Decoder σ α} (hd : D decoder)
    {usual : α} {f : α → ReplayM σ τ β} (hf : ∀ a, P (f a)) :
    P (if c then Replay.read decoder >>= f else Pure.pure usual >>= f) := by
  split
  · exact h.bind (h.read hd) hf
  · exact h.bind (h.pure usual) hf

/-- A check, and what goes on if it is passed. -/
theorem check {c : Prop} [Decidable c] {β : Type} {e : Error} {f : PUnit → ReplayM σ τ β}
    (hf : ∀ u, P (f u)) : P (if c then MonadExcept.throw e >>= f else f ⟨⟩) := by
  split
  · exact h.bind (h.throw e) hf
  · exact hf ⟨⟩

theorem modifyBand (f : BandState → BandState) : P (Replay.modifyBand f : ReplayM σ τ Unit) :=
  h.modifyState fun _ => rfl

theorem forM {γ : Type} {g : γ → ReplayM σ τ PUnit} (hg : ∀ c, P (g c)) (l : List γ) :
    P (l.forM g) := by
  induction l with
  | nil => exact h.pure _
  | cons c l ih => exact h.bind (hg c) fun _ => ih

/-! ### Settings -/

theorem setField (field : StateField) (f : ImagerState → ImagerState) :
    P (Replay.setField field f : ReplayM σ τ Unit) := h.modifyState fun _ => rfl

theorem beginClip : P (Replay.beginClip : ReplayM σ τ Unit) :=
  h.bind h.clipBox fun _ => h.modifyState fun _ => rfl

theorem setTileColor : P (Replay.setTileColor : ReplayM σ τ Unit) := by
  refine h.bind (h.read h.nextByte) fun b => h.bind h.getState fun s => ?_
  extract_lets last put
  split
  · exact h.bind (h.read (h.colorDifference _ _)) fun _ => h.modifyBand _
  · exact h.bind (h.read (h.color _ _ _)) fun _ => h.modifyBand _
  · exact h.throw _

theorem setTileSize : P (Replay.setTileSize : ReplayM σ τ Unit) :=
  h.bind (h.read h.nextByte) fun _ => h.bind (h.read h.varint) fun _ =>
    h.bind (h.read h.varint) fun _ => h.optional h.varint fun _ => h.optional h.varint fun _ =>
      h.optional h.varint fun _ => h.modifyState fun _ => rfl

theorem setTileBits : P (Replay.setTileBits : ReplayM σ τ Unit) :=
  h.bind (h.read h.varint) fun _ => h.bind (h.read h.varint) fun _ => h.bind h.getState fun _ =>
    h.bind (h.read (h.take _)) fun _ => h.storeTile _ _ _ _

theorem setBits : P (Replay.setBits : ReplayM σ τ Unit) :=
  h.bind (h.read h.nextByte) fun _ => h.bind (h.lift _) fun _ => h.bind (h.read h.varint) fun _ =>
    h.bind (h.read h.varint) fun _ => h.bind (h.read h.varint) fun _ =>
      h.bind (h.read h.varint) fun _ => h.bind (h.read (h.payload _ _ _)) fun _ =>
        h.storeTile _ _ _ _

theorem setTransferMap (flags : UInt8) :
    P (Replay.setTransferMap flags : ReplayM σ τ Unit) := by
  have hinstall : ∀ map : TransferMap,
      P (Replay.draw (Target.installTransfer (flags &&& 0x1f).toNat map) : ReplayM σ τ Unit) :=
    fun map => h.draw (.installTransfer _ map)
  rw [Replay.setTransferMap]
  split
  · exact h.bind (h.read (h.naturals 2 _)) fun _ => h.bind (h.pure _) hinstall
  · exact h.bind (h.pure _) hinstall

theorem setMisc : P (Replay.setMisc : ReplayM σ τ Unit) := by
  refine h.bind (h.read h.nextByte) fun b => ?_
  extract_lets kind
  split
  · exact h.bind (h.read h.varint) fun _ => h.modifyState fun _ => rfl
  split
  · exact h.optional h.varint fun _ => h.modifyState fun _ => rfl
  split
  · exact h.setTransferMap b
  · exact h.bind (h.read h.varint) fun _ => h.modifyState fun _ => rfl

theorem setHalftoneOrder : P (Replay.setHalftoneOrder : ReplayM σ τ Unit) :=
  h.bind (h.read h.varint) fun _ => h.optional h.varint fun _ => h.bind (h.read h.varint) fun _ =>
    h.bind (h.read h.varint) fun _ => h.bind (h.read h.varint) fun _ =>
    h.bind (h.read h.varint) fun _ => h.bind (h.read h.varint) fun _ =>
    h.bind (h.read h.varint) fun _ => h.bind h.getState fun _ => h.bind (h.lift _) fun _ =>
    h.modifyState fun _ => rfl

theorem setHalftoneData : P (Replay.setHalftoneData : ReplayM σ τ Unit) := by
  refine h.bind (h.read h.nextByte) fun b => h.bind h.getState fun s => h.bind (h.lift _)
    fun found => h.bind (h.read (h.order _ _)) fun order => ?_
  dsimp only
  split
  · exact h.bind (h.modifyState fun _ => rfl) fun _ => h.draw (.installHalftone _)
  · exact h.modifyState fun _ => rfl

theorem setOptions : P (Replay.setOptions : ReplayM σ τ Unit) := by
  refine h.bind (h.read h.nextByte) fun b => ?_
  extract_lets kind
  split
  · exact h.setField _ _
  split
  · exact h.setField _ _
  split
  · exact h.modifyState fun _ => rfl
  · exact h.bind (h.read (h.natural 2)) fun _ => h.setField _ _

theorem setDash : P (Replay.setDash : ReplayM σ τ Unit) := by
  refine h.bind (h.read h.nextByte) fun b => h.check fun _ => ?_
  exact h.bind (h.read h.single) fun _ => h.bind (h.read h.single) fun _ =>
    h.bind (h.read (h.singles _)) fun _ => h.setField _ _

theorem endClip : P (Replay.endClip : ReplayM σ τ Unit) := by
  refine h.bind (h.read h.nextByte) fun b => h.bind h.getState fun s => ?_
  split
  · exact h.bind h.clipBox fun _ => h.modifyState fun _ => rfl
  · exact h.throw _

theorem setColorSpace : P (Replay.setColorSpace : ReplayM σ τ Unit) :=
  h.bind (h.read h.nextByte) fun _ => h.optional h.varint fun _ => h.bind (h.lift _) fun _ =>
    h.modifyState fun _ => rfl

theorem setColored : P (Replay.setColored : ReplayM σ τ Unit) :=
  h.bind (h.read h.bases) fun _ => h.bind h.getState fun _ => h.bind (h.read (h.varints _))
    fun _ => h.modifyState fun _ => rfl

/-! ### What is painted -/

theorem drawVisible (r : Rect) {call : Rect → DrawM τ Unit}
    (hcall : ∀ piece, P (Replay.draw (call piece) : ReplayM σ τ Unit)) :
    P (Replay.drawVisible r call : ReplayM σ τ Unit) :=
  h.bind h.clipBox fun _ => h.bind h.getState fun _ => h.forM hcall _

theorem fillRect : P (Replay.fillRect : ReplayM σ τ Unit) := by
  refine h.bind h.getState fun s => ?_
  extract_lets r color
  split
  · exact h.modifyState fun _ => rfl
  · refine h.drawVisible r fun piece => ?_
    split
    · exact h.draw (.stripCopyRop piece none ⟨color, color⟩ s.band.tilePhase s.band.lop)
    · exact h.draw (.fillRectangle piece color)

theorem tileRect : P (Replay.tileRect : ReplayM σ τ Unit) := by
  refine h.bind h.getState fun s => h.bind (h.lift _) fun tile => h.drawVisible _ fun piece => ?_
  split
  · exact h.draw (.stripCopyRop piece _ s.band.tileColors s.band.tilePhase s.band.lop)
  · exact h.draw (.stripTileRectangle tile piece s.band.tileColors s.band.tilePhase)

theorem checkSize (size : Nat) : P (Replay.checkSize size : ReplayM σ τ Unit) := by
  refine h.bind h.getState fun s => ?_
  dsimp only
  split
  · exact h.throw _
  · exact h.pure _

theorem tileCopy : P (Replay.tileCopy : ReplayM σ τ (Rect × Bitmap)) :=
  h.bind (h.read h.signedVarint) fun _ => h.bind (h.read h.signedVarint) fun _ =>
    h.bind h.getState fun _ => h.bind (h.lift _) fun _ => h.pure _

theorem inlineCopy (flags : UInt8) (depth : Nat) :
    P (Replay.inlineCopy flags depth : ReplayM σ τ (Rect × Bitmap)) :=
  h.bind (h.lift _) fun _ => h.bind (h.read h.signedVarint) fun _ =>
    h.bind (h.read h.signedVarint) fun _ => h.bind (h.read h.varint) fun _ =>
    h.bind (h.read h.varint) fun _ => h.bind h.getState fun _ =>
    h.bind (h.modifyState fun _ => rfl) fun _ => h.bind (h.checkSize _) fun _ =>
    h.bind (h.read (h.payload _ _ _)) fun _ => h.pure _

theorem copySource (flags : UInt8) (depth : Nat) :
    P (Replay.copySource flags depth : ReplayM σ τ (Rect × Bitmap)) := by
  have hselect : ∀ found : Rect × Bitmap, P (do
      Replay.modifyBand fun band => { band with rect := .ofRect found.1 }
      return found : ReplayM σ τ (Rect × Bitmap)) := fun found =>
    h.bind (h.modifyBand _) fun _ => h.pure found
  rw [Replay.copySource]
  split
  · exact h.bind h.tileCopy hselect
  · exact h.bind (h.inlineCopy flags depth) hselect

theorem copyMono (flags : UInt8) : P (Replay.copyMono flags : ReplayM σ τ Unit) := by
  refine h.bind (h.copySource flags 1) fun ⟨rect, bits⟩ => h.bind h.getState fun s => ?_
  split
  · exact h.bind (h.lift _) fun color =>
      h.draw (.fillMask bits rect color 1 s.band.lop s.activeClip)
  · exact h.drawVisible rect fun piece =>
      h.draw (.copyMono (subBitmap bits rect piece) piece s.band.colors)

theorem copyDeep (flags : UInt8) : P (Replay.copyDeep flags : ReplayM σ τ Unit) := by
  refine h.bind h.getState fun s => ?_
  extract_lets copiesAlpha color withDepth
  have hdepth : ∀ depth, P (withDepth depth) := by
    intro depth
    refine h.check fun _ => h.bind (h.copySource flags depth.toNat) fun ⟨rect, bits⟩ => ?_
    refine h.drawVisible rect fun piece => ?_
    dsimp only
    split
    · exact h.draw (.copyAlpha _ piece color depth)
    · exact h.draw (.copyColor _ piece)
  exact h.optional h.nextByte hdepth

theorem extendPath (op : SegmentOp) : P (Replay.extendPath op : ReplayM σ τ Unit) :=
  h.bind (h.read (h.offsets _)) fun _ => h.bind h.getState fun _ => h.bind (h.lift _) fun _ =>
    h.modifyState fun _ => rfl

theorem drawingColor (source : ColorSource) :
    P (Replay.drawingColor source : ReplayM σ τ DrawingColor) := by
  refine h.bind h.getState fun s => ?_
  split
  · exact h.pure _
  · exact h.lift _
  · exact h.pure _
  · exact h.throw _

theorem drawPath (op : PathOp) : P (Replay.drawPath op : ReplayM σ τ Unit) := by
  refine h.bind (h.modifyState fun _ => rfl) fun _ => h.bind h.getState fun s => ?_
  extract_lets path p lift goOn
  have hlift : ∀ u, P (goOn u) := by
    intro u
    show P (if s.pen.drawing = true then _ else _)
    split
    · exact h.bind (h.modifyBand _) fun _ => h.modifyState fun _ => rfl
    · exact h.modifyState fun _ => rfl
  cases op with
  | fill source =>
    exact h.bind (h.drawingColor source) fun color =>
      h.bind (h.draw (.fillPath s.imager path .nonZero color s.activeClip)) hlift
  | evenOddFill source =>
    exact h.bind (h.drawingColor source) fun color =>
      h.bind (h.draw (.fillPath s.imager path .evenOdd color s.activeClip)) hlift
  | stroke source =>
    exact h.bind (h.drawingColor source) fun color =>
      h.bind (h.draw (.strokePath s.imager path color s.activeClip)) hlift

theorem beginImage : P (Replay.beginImage : ReplayM σ τ Unit) :=
  h.bind h.getState fun _ => h.bind (h.read (h.header _)) fun _ =>
    h.bind (h.modifyState fun _ => rfl) fun _ => h.bind h.getState fun s =>
      h.bind (h.draw (.beginImage s.imager _ _ _ s.activeClip)) fun _ => h.modifyState fun _ => rfl

theorem imageData : P (Replay.imageData : ReplayM σ τ Unit) := by
  refine h.bind (h.read h.varint) fun height => ?_
  split
  · exact h.bind h.getState fun s => h.check fun _ => h.bind (h.modifyState fun _ => rfl) fun _ =>
      h.draw .endImage
  · refine h.bind (h.read h.varint) fun raster => h.bind h.getState fun s => ?_
    split
    · exact h.bind (h.checkSize _) fun _ => h.bind (h.read (h.take _)) fun _ =>
        h.draw (.imageData _ 0 raster height)
    · exact h.throw _

theorem putParams : P (Replay.putParams : ReplayM σ τ Unit) :=
  h.bind (h.read (h.natural 4)) fun _ => h.bind (h.read (h.take _)) fun _ => h.draw (.putParams _)

/-! ### Commands -/

theorem performControl (op : ControlOp) : P (Replay.performControl op : ReplayM σ τ Unit) := by
  cases op with
  | endRun | endPage => exact h.pure _
  | setTileSize => exact h.setTileSize
  | setTilePhase =>
    exact h.bind (h.read h.signedVarint) fun _ => h.bind (h.read h.signedVarint) fun _ =>
      h.modifyBand _
  | setTileBits => exact h.setTileBits
  | setBits => exact h.setBits
  | setTileColor => exact h.setTileColor
  | setMisc => exact h.setMisc
  | enableLop | disableLop | setCopyColor | setCopyAlpha =>
    rw [Replay.performControl]
    exact h.modifyBand _
  | setHalftoneOrder => exact h.setHalftoneOrder
  | setHalftoneData => exact h.setHalftoneData
  | colorDifference slot =>
    exact h.bind h.getState fun _ => h.bind (h.read (h.colorDifference _ _)) fun _ =>
      h.modifyBand _

theorem performState (op : StateOp) : P (Replay.performState op : ReplayM σ τ Unit) := by
  cases op with
  | setFlatness | setLineWidth | setMiterLimit =>
    exact h.bind (h.read h.single) fun _ => h.setField _ _
  | setFillAdjust =>
    exact h.bind (h.read h.integer) fun _ => h.bind (h.read h.integer) fun _ => h.setField _ _
  | setCtm => exact h.bind (h.read h.matrix) fun _ => h.setField _ _
  | setOptions => exact h.setOptions
  | setDash => exact h.setDash
  | enableClip | disableClip =>
    rw [Replay.performState]
    exact h.modifyBand _
  | beginClip => exact h.beginClip
  | endClip => exact h.endClip
  | setColorSpace => exact h.setColorSpace
  | beginImage => exact h.beginImage
  | imageData => exact h.imageData
  | setColor => exact h.setColored
  | putParams => exact h.putParams

theorem setRect (form : RectForm) (n : UInt8) : P (Replay.setRect form n : ReplayM σ τ Unit) :=
  h.bind h.getState fun _ => h.bind (h.read (h.rect _ _ _)) fun _ => h.modifyBand _

theorem perform (op : Op) : P (Replay.perform op : ReplayM σ τ Unit) := by
  cases op with
  | control op => exact h.performControl op
  | setColor slot n =>
    exact h.bind h.getState fun _ => h.bind (h.read (h.color _ _ _)) fun _ => h.modifyBand _
  | fillRect form n => exact h.bind (h.setRect form n) fun _ => h.fillRect
  | tileRect form n => exact h.bind (h.setRect form n) fun _ => h.tileRect
  | copyMono flags => exact h.copyMono flags
  | copyDeep flags => exact h.copyDeep flags
  | tileIndexDifference n =>
    exact h.bind h.getState fun _ => h.check fun _ => h.modifyBand _
  | setTileIndex n => exact h.bind (h.read h.nextByte) fun _ => h.modifyBand _
  | state op => exact h.performState op
  | segment op => exact h.extendPath op
  | path op => exact h.drawPath op

theorem nextOp : P (Replay.nextOp : ReplayM σ τ Op) :=
  h.bind (h.read h.prepare) fun _ => h.bind (h.read h.currentOffset) fun _ =>
    h.bind (h.read h.nextByte) fun _ => h.lift _

theorem runCommands (n : Nat) : P (Replay.runCommands n : ReplayM σ τ Unit) := by
  induction n with
  | zero => exact h.pure _
  | succ n ih =>
    refine h.bind h.nextOp fun op => ?_
    split
    · exact h.pure _
    · exact h.bind (h.perform op) fun _ => ih

end Composing

end Replay

end BandedPage
