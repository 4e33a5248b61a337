import Mathlib
import BandedPage.Proofs.Replay.Tiles

/-!
# Replaying copies

The bits of a copy follow its command or are those of the selected tile. Where they come from makes
no difference to how they are drawn.
-/

namespace BandedPage

namespace ReplayState

variable (r : ReplayState)

def copyCalls (box : Rect) (paint : CopyPaint) (tile : Tile) (bits : Bitmap) (rect : Rect) :
    List TargetCall :=
  match paint with
  | .mono _ => (r.visible box rect).map fun piece =>
    .copyMono (Replay.subBitmap bits rect piece) piece r.band.colors
  | .deep => (r.visible box rect).map fun piece =>
    .copyColor (Replay.subBitmap bits rect piece) piece
  | .coverage _ depth => (r.visible box rect).map fun piece =>
    .copyAlpha (Replay.subBitmap bits rect piece) piece r.band.colors.one (UInt8.ofNat depth)
  | .halftone _ _ _ =>
    [.fillMask bits rect (.halftone tile r.band.tileColors r.band.tilePhase) 1 r.band.lop
      r.activeClip]

/-- The reader is prepared for a copy of the kind; a mask is painted with `tile`. -/
def ReadyFor (tile : Tile) : CopyPaint → Prop
  | .mono _ => True
  | .deep => r.band.copiesAlpha = false ∧ r.config.depth ∈ Config.depths
  | .coverage _ depth => r.band.copiesAlpha = true ∧ depth ∈ [1, 2, 4, 8]
  | .halftone _ _ _ => r.tile = .ok tile

end ReplayState

variable {box : Rect} {r r' : ReplayState}

/-- The low half of the first byte of a copy command. -/
def CopyPaint.flags (paint : CopyPaint) (flags : UInt8) : UInt8 :=
  match paint with
  | .halftone _ _ _ => Opcode.copyWithTileColor ||| flags
  | .mono _ | .deep | .coverage _ _ => flags

/-- Where a copy command's bits come from does not depend on what they paint. -/
structure SourceYields (box : Rect) (paint : CopyPaint) (flags : UInt8) (bytes : List UInt8)
    (r : ReplayState) (rect : Rect) (bits : Bitmap) (r' : ReplayState) : Prop where
  yields : ∀ {σ τ : Type} [ByteSource σ] [LawfulSource σ] [Target τ],
    Yields box (Replay.copySource (paint.flags flags) (paint.depth r.config.depth) :
      ReplayM σ τ (Rect × Bitmap)) bytes r [] (rect, bits) r'
  config : r'.config = r.config
  colors : r'.band.colors = r.band.colors
  copiesAlpha : r'.band.copiesAlpha = r.band.copiesAlpha

theorem Op.ofByte?_copyMono {n : UInt8} (h : n < 16) :
    Op.ofByte? (Opcode.copyMono ||| n) = some (.copyMono n) :=
  Word.forall_byte_lt (P := fun n => Op.ofByte? (Opcode.copyMono ||| n) = some (.copyMono n))
    (by decide) h

theorem Op.ofByte?_copyDeep {n : UInt8} (h : n < 16) :
    Op.ofByte? (Opcode.copyDeep ||| n) = some (.copyDeep n) :=
  Word.forall_byte_lt (P := fun n => Op.ofByte? (Opcode.copyDeep ||| n) = some (.copyDeep n))
    (by decide) h

theorem replays_copy {paint : CopyPaint} {flags : UInt8} (hflags : flags ∈ [(0 : UInt8), 1, 2, 8])
    {bytes : List UInt8} {rect : Rect} {bits : Bitmap} {tile : Tile}
    (h : SourceYields box paint flags bytes r rect bits r') (hready : r'.ReadyFor tile paint) :
    Replays box (Command.copyHead paint flags ++ bytes) r (r'.copyCalls box paint tile bits rect)
      r' := by
  have hyields := @h.yields
  have hlow : flags < 16 ∧ Opcode.copyWithTileColor ||| flags < 16 ∧
      (flags &&& Opcode.copyWithTileColor != 0) = false ∧
      ((Opcode.copyWithTileColor ||| flags) &&& Opcode.copyWithTileColor != 0) = true := by
    revert hflags
    generalize flags = f
    simp only [List.mem_cons, List.not_mem_nil, or_false]
    rintro (rfl | rfl | rfl | rfl) <;> decide
  obtain ⟨hlt, hlt', hplain, htiled⟩ := hlow
  cases paint with
  | mono colors =>
    refine ⟨_, bytes, .copyMono flags, rfl, Op.ofByte?_copyMono hlt, fun heq => Op.noConfusion heq,
      fun {σ τ} _ _ _ => ?_⟩
    refine (hyields.bind (l := []) ?_).of_eq (by simp)
    refine Yields.getState_bind ?_
    simp only [hplain]
    exact yields_drawVisible rect _
  | deep =>
    refine ⟨_, bytes, .copyDeep flags, rfl, Op.ofByte?_copyDeep hlt, fun heq => Op.noConfusion heq,
      fun {σ τ} _ _ _ => ?_⟩
    have halpha : r.band.copiesAlpha = false := h.copiesAlpha.symm.trans hready.1
    have hdepth : ∀ depth ∈ Config.depths, (UInt8.ofNat depth).toNat = depth ∧
        ((UInt8.ofNat depth = 0 || 32 < UInt8.ofNat depth) = false) := by decide
    obtain ⟨hbits, hvalid⟩ := hdepth r.config.depth (h.config ▸ hready.2)
    refine Yields.getState_bind ?_
    simp only [halpha, Bool.false_eq_true, if_false]
    refine Yields.pure_bind ?_
    rw [hvalid, hbits]
    simp only [Bool.false_eq_true, if_false]
    refine (hyields.bind (l := []) ?_).of_eq (by simp)
    exact yields_drawVisible rect _
  | coverage color depth =>
    refine ⟨_, _, .copyDeep flags, rfl, Op.ofByte?_copyDeep hlt, fun heq => Op.noConfusion heq,
      fun {σ τ} _ _ _ => ?_⟩
    have halpha : r.band.copiesAlpha = true := h.copiesAlpha.symm.trans hready.1
    have hdepth : ∀ depth ∈ [1, 2, 4, 8], (UInt8.ofNat depth).toNat = depth ∧
        ((UInt8.ofNat depth = 0 || 32 < UInt8.ofNat depth) = false) := by decide
    obtain ⟨hbits, hvalid⟩ := hdepth depth hready.2
    refine Yields.getState_bind ?_
    simp only [halpha, if_true]
    refine Yields.read_bind (Decodes.nextByte _) ?_
    rw [hvalid, hbits]
    simp only [Bool.false_eq_true, if_false]
    refine (hyields.bind (l := []) ?_).of_eq (by simp)
    rw [← h.colors]
    exact yields_drawVisible rect fun piece =>
      .copyAlpha (Replay.subBitmap bits rect piece) piece r'.band.colors.one (UInt8.ofNat depth)
  | halftone tile' colors phase =>
    refine ⟨_, bytes, .copyMono (Opcode.copyWithTileColor ||| flags), ?_,
      Op.ofByte?_copyMono hlt', fun heq => Op.noConfusion heq, fun {σ τ} _ _ _ => ?_⟩
    · show (Opcode.copyMono ||| Opcode.copyWithTileColor ||| flags) :: bytes = _
      rw [UInt8.or_assoc]
    · refine (hyields.bind (l := []) ?_).of_eq (by simp)
      refine Yields.getState_bind ?_
      simp only [htiled, if_true]
      have hcolor : r'.halftoneColor =
          .ok (.halftone tile r'.band.tileColors r'.band.tilePhase) := by
        have htile : r'.tile = .ok tile := hready
        rw [ReplayState.halftoneColor, htile]
        rfl
      refine Yields.lift_bind hcolor ?_
      exact Yields.draw (.fillMask bits rect _ 1 r'.band.lop r'.activeClip)

section

variable {σ τ : Type} [ByteSource σ] [LawfulSource σ]

/-- A length is read back as a number and taken for a coordinate difference again. -/
theorem decodes_length {v : Int} (hv : 0 ≤ v) (hfits : Word.fits32 v = true) :
    Decodes (Varint.decode : Decoder σ Nat) (Varint.encodeInt v) v.toNat ∧
      Word.wrap32 v.toNat = v := by
  obtain ⟨n, rfl⟩ : ∃ n : Nat, v = n := ⟨v.toNat, (Int.toNat_of_nonneg hv).symm⟩
  have hlt : n < 4294967296 := by
    rw [Word.fits32_iff] at hfits
    omega
  refine ⟨?_, Word.wrap32_of_fits32 hfits⟩
  rw [Varint.encodeInt, Word.pattern32_natCast hlt]
  exact Varint.decodes hlt

variable [Target τ]

/-- The bits of a copy are read from the rows that follow it. -/
theorem yields_inlineCopy {flags : UInt8} {depth : Nat} {rect : SizedRect} {rows : Bytes}
    {raster height : Nat} {methods : CompressionSet} {readerSize : Nat} {payload : Payload}
    (hflags : Compression.ofCode flags = .ok payload.compression) (hrect : rect.Fits)
    (hwidth : 0 ≤ rect.width) (hheight : rect.height = height)
    (hraster : raster = Bits.shortRaster ((r.dataX + rect.width.toNat) * depth))
    (hpayload : Payload.choose rows raster height methods readerSize = .ok payload)
    (hrows : rows.size = raster * height) (hsize : raster * height ≤ r.config.readerSize) :
    Yields box (Replay.inlineCopy flags depth : ReplayM σ τ (Rect × Bitmap))
      (Varint.encodeInt rect.x ++ Varint.encodeInt rect.y ++ Varint.encodeInt rect.width ++
        Varint.encodeInt rect.height ++ payload.data) r []
      (rect.toRect, { data := rows, dataX := r.dataX, raster }) { r with dataX := 0 } := by
  obtain ⟨hdecodeWidth, hwrapWidth⟩ := decodes_length (σ := σ) hwidth hrect.width
  obtain ⟨hdecodeHeight, hwrapHeight⟩ := decodes_length (σ := σ) (by omega) hrect.height
  have hheight' : rect.height.toNat = height := by omega
  rw [hheight'] at hdecodeHeight hwrapHeight
  rw [← List.append_nil payload.data]
  simp only [List.append_assoc]
  refine Yields.lift_bind hflags ?_
  refine Yields.read_bind (Varint.decodes_int_of_fits32 hrect.x) ?_
  refine Yields.read_bind (Varint.decodes_int_of_fits32 hrect.y) ?_
  refine Yields.read_bind hdecodeWidth ?_
  refine Yields.read_bind hdecodeHeight ?_
  refine Yields.getState_bind ?_
  refine Yields.modifyState_bind ?_
  dsimp only
  rw [← hraster]
  have hroom : Yields box (Replay.checkSize (raster * height) : ReplayM σ τ Unit) []
      { r with dataX := 0 } [] () { r with dataX := 0 } := by
    refine Yields.getState_bind ?_
    rw [if_neg (Nat.not_lt.mpr hsize)]
    exact .pure ()
  refine hroom.bind ?_
  · refine Yields.read_bind (Payload.decodes_choose hpayload hrows.ge) ?_
    have hall : rows.extract 0 (raster * height) = rows := by
      rw [← hrows, Array.extract_size]
    rw [hall, hwrapWidth, hwrapHeight]
    exact .pure _

/-- The bits of a copy are those of the selected tile. -/
theorem yields_tileCopy {x y : Int} {tile : Tile} (hx : Word.fits32 x = true)
    (hy : Word.fits32 y = true) (htile : r.tile = .ok tile) :
    Yields box (Replay.tileCopy : ReplayM σ τ (Rect × Bitmap))
      (Varint.encodeInt x ++ Varint.encodeInt y) r []
      (.ofSize x y (Word.wrap32 tile.width) (Word.wrap32 tile.height),
        { data := tile.data, raster := tile.raster }) r := by
  rw [← List.append_nil (Varint.encodeInt y)]
  refine Yields.read_bind (Varint.decodes_int_of_fits32 hx) ?_
  refine Yields.read_bind (Varint.decodes_int_of_fits32 hy) ?_
  refine Yields.getState_bind (Yields.lift_bind htile ?_)
  exact .pure _

end

theorem replays_copyInline {paint : CopyPaint} {rect : SizedRect} {rows : Bytes}
    {raster height : Nat} {methods : CompressionSet} {readerSize : Nat} {payload : Payload}
    {tile : Tile} (hrect : rect.Fits) (hwidth : 0 ≤ rect.width) (hheight : rect.height = height)
    (hraster : raster =
      Bits.shortRaster ((r.dataX + rect.width.toNat) * paint.depth r.config.depth))
    (hpayload : Payload.choose rows raster height methods readerSize = .ok payload)
    (hrows : rows.size = raster * height) (hsize : raster * height ≤ r.config.readerSize)
    (hready : r.ReadyFor tile paint) :
    Replays box (Command.copyInline paint rect payload) r
      (r.copyCalls box paint tile { data := rows, dataX := r.dataX, raster } rect.toRect)
      ({ r with dataX := 0 }.withRect rect) := by
  have hcode : ∀ c : Compression, c.code ∈ [(0 : UInt8), 1, 2, 8] ∧
      (paint.flags c.code &&& Opcode.copyFromTile != 0) = false ∧
      Compression.ofCode (paint.flags c.code) = .ok c := by
    have hplain : ∀ c : Compression, (c.code &&& Opcode.copyFromTile != 0) = false ∧
        ((Opcode.copyWithTileColor ||| c.code) &&& Opcode.copyFromTile != 0) = false := by
      intro c
      cases c <;> decide
    intro c
    refine ⟨by cases c <;> decide, ?_, ?_⟩
    · cases paint
      case halftone => exact (hplain c).2
      all_goals exact (hplain c).1
    · have hcode : ∀ c : Compression, (c.code &&& 3).toNat = c.code.toNat ∧
          ((Opcode.copyWithTileColor ||| c.code) &&& 3).toNat = c.code.toNat := by
        intro c
        cases c <;> decide
      have hofCode : ∀ flags, (flags &&& 3).toNat = c.code.toNat → Compression.ofCode flags = .ok c := by
        intro flags h
        rw [Compression.ofCode, h]
        cases c <;> rfl
      cases paint
      case halftone => exact hofCode _ (hcode c).2
      all_goals exact hofCode _ (hcode c).1
  obtain ⟨hflags, hinline, hcompression⟩ := hcode payload.compression
  have hsource : SourceYields box paint payload.compression.code
      (Varint.encodeInt rect.x ++ Varint.encodeInt rect.y ++ Varint.encodeInt rect.width ++
        Varint.encodeInt rect.height ++ payload.data) r rect.toRect
      { data := rows, dataX := r.dataX, raster } ({ r with dataX := 0 }.withRect rect) := by
    refine ⟨fun {σ τ} _ _ _ => ?_, rfl, rfl, rfl⟩
    rw [Replay.copySource, hinline]
    simp only [Bool.false_eq_true, if_false]
    refine ((yields_inlineCopy hcompression hrect hwidth hheight hraster hpayload hrows hsize).bind
      (l := []) ?_).of_eq (by simp)
    have hsame : SizedRect.ofRect rect.toRect = rect := by
      simp [SizedRect.ofRect, SizedRect.toRect, Rect.ofSize, Rect.width, Rect.height]
    dsimp only
    rw [hsame]
    refine Yields.modifyBand_bind ?_
    exact .pure _
  have hready' : ({ r with dataX := 0 }.withRect rect).ReadyFor tile paint := by
    cases paint <;> exact hready
  have hreplays := replays_copy hflags hsource hready'
  have hcalls : ({ r with dataX := 0 }.withRect rect).copyCalls box paint tile
      { data := rows, dataX := r.dataX, raster } rect.toRect =
      r.copyCalls box paint tile { data := rows, dataX := r.dataX, raster } rect.toRect := by
    cases paint <;> rfl
  rw [hcalls] at hreplays
  simpa [Command.copyInline] using hreplays

theorem replays_copyCached {paint : CopyPaint} {x y : Int} {stored tile : Tile}
    (hx : Word.fits32 x = true) (hy : Word.fits32 y = true) (hstored : r.tile = .ok stored)
    (hready : r.ReadyFor tile paint) :
    Replays box (Command.copyCached paint x y) r
      (r.copyCalls box paint tile { data := stored.data, raster := stored.raster }
        (.ofSize x y (Word.wrap32 stored.width) (Word.wrap32 stored.height)))
      (r.withRect (.ofRect (.ofSize x y (Word.wrap32 stored.width)
        (Word.wrap32 stored.height)))) := by
  have hsource : SourceYields box paint Opcode.copyFromTile
      (Varint.encodeInt x ++ Varint.encodeInt y) r
      (.ofSize x y (Word.wrap32 stored.width) (Word.wrap32 stored.height))
      { data := stored.data, raster := stored.raster }
      (r.withRect (.ofRect (.ofSize x y (Word.wrap32 stored.width)
        (Word.wrap32 stored.height)))) := by
    refine ⟨fun {σ τ} _ _ _ => ?_, rfl, rfl, rfl⟩
    have hcached : (paint.flags Opcode.copyFromTile &&& Opcode.copyFromTile != 0) = true := by
      have hboth : (Opcode.copyFromTile &&& Opcode.copyFromTile != 0) = true ∧
          ((Opcode.copyWithTileColor ||| Opcode.copyFromTile) &&& Opcode.copyFromTile != 0) =
            true := by decide
      cases paint
      case halftone => exact hboth.2
      all_goals exact hboth.1
    rw [Replay.copySource, hcached]
    simp only [if_true]
    refine ((yields_tileCopy hx hy hstored).bind (l := []) ?_).of_eq (by simp)
    refine Yields.modifyBand_bind ?_
    exact .pure _
  have hready' : (r.withRect (.ofRect (.ofSize x y (Word.wrap32 stored.width)
      (Word.wrap32 stored.height)))).ReadyFor tile paint := by
    cases paint <;> exact hready
  have hreplays := replays_copy (by decide) hsource hready'
  have hcalls : ∀ rect : SizedRect, (r.withRect rect).copyCalls box paint tile
      { data := stored.data, raster := stored.raster }
      (.ofSize x y (Word.wrap32 stored.width) (Word.wrap32 stored.height)) =
      r.copyCalls box paint tile { data := stored.data, raster := stored.raster }
        (.ofSize x y (Word.wrap32 stored.width) (Word.wrap32 stored.height)) := by
    intro rect
    cases paint <;> rfl
  rw [hcalls] at hreplays
  simpa [Command.copyCached] using hreplays

end BandedPage
