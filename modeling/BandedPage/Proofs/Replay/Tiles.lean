import Mathlib
import BandedPage.Command.Copy
import BandedPage.Proofs.Bits.Payload
import BandedPage.Proofs.Replay.Commands
import BandedPage.Proofs.Tile.Reach

/-!
# Replaying tiles

The geometry of tiles is announced before their bits; the bits of a bitmap say their size
themselves. Either way the bits are stored where the command says, and the tile is selected.
-/

namespace BandedPage

/-- A geometry that commands carry. -/
structure TileSize.Sendable (s : TileSize) : Prop where
  repWidth : s.repWidth < 4294967296
  repHeight : s.repHeight < 4294967296
  xReps : 1 ≤ s.xReps ∧ s.xReps < 4294967296
  yReps : 1 ≤ s.yReps ∧ s.yReps < 4294967296
  repShift : s.repShift < 4294967296
  depth : 1 ≤ s.depth ∧ s.depth ≤ 32

variable {box : Rect} {r : ReplayState}

/-- The parts of the byte that begins a geometry. -/
theorem tileFlags_bits {depth : Nat} (hpos : 1 ≤ depth) (hle : depth ≤ 32)
    (across down shift : Bool) (flags : Nat)
    (hflags : flags = (depth + 31) % 32 + (if across then 0x20 else 0) +
      (if down then 0x40 else 0) + (if shift then 0x80 else 0)) :
    (UInt8.ofNat flags &&& 31).toNat + 1 = depth ∧ (UInt8.ofNat flags &&& 0x20 != 0) = across ∧
      (UInt8.ofNat flags &&& 0x40 != 0) = down ∧ (UInt8.ofNat flags &&& 0x80 != 0) = shift := by
  have hall : ∀ k < 32, ∀ across down shift : Bool, ∀ b : UInt8,
      b = UInt8.ofNat (k + (if across then 0x20 else 0) + (if down then 0x40 else 0) +
        (if shift then 0x80 else 0)) →
      (b &&& 31).toNat = k ∧ (b &&& 0x20 != 0) = across ∧ (b &&& 0x40 != 0) = down ∧
        (b &&& 0x80 != 0) = shift := by
    simp only [forall_eq]
    decide +kernel
  have hmod : (depth + 31) % 32 = depth - 1 := by omega
  rw [hflags, hmod]
  obtain ⟨hdepth, hrest⟩ := hall (depth - 1) (by omega) across down shift _ rfl
  exact ⟨by omega, hrest⟩

section

variable {σ τ : Type} [ByteSource σ] [LawfulSource σ] [Target τ]

/-- A number that is sent only if it is not the usual one is read back. -/
theorem yields_unlessUsual {n usual : Nat} (hn : n < 4294967296) {flag : Bool}
    (hflag : flag = decide (n ≠ usual)) {f : Nat → ReplayM σ τ Unit} {bytes : List UInt8}
    {calls : List TargetCall} {r' : ReplayState} (hf : Yields box (f n) bytes r calls () r') :
    Yields box (if flag = true then Replay.read Varint.decode >>= f else pure usual >>= f)
      (Command.unlessUsual n usual ++ bytes) r calls () r' := by
  rw [Command.unlessUsual, hflag]
  by_cases heq : n = usual
  · rw [if_pos heq, if_neg (by simp [heq]), ← heq]
    exact hf
  · rw [if_neg heq, if_pos (by simp [heq])]
    exact .read_bind (Varint.decodes hn) hf

end

theorem replays_tileSize {size : TileSize} (h : size.Sendable) :
    Replays box (Command.tileSize size) r [] { r with tileSize := size } := by
  refine ⟨_, _, .control .setTileSize, rfl, rfl, by decide, fun {σ τ} _ _ _ => ?_⟩
  have hx : max size.xReps 1 = size.xReps := max_eq_left h.xReps.1
  have hy : max size.yReps 1 = size.yReps := max_eq_left h.yReps.1
  simp only [hx, hy]
  obtain ⟨hdepth, hacross, hdown, hshift⟩ := tileFlags_bits h.depth.1 h.depth.2
    (decide (size.xReps ≠ 1)) (decide (size.yReps ≠ 1)) (decide (size.repShift ≠ 0))
    ((size.depth + 31) % 32 + (if size.xReps = 1 then 0 else 0x20) +
      (if size.yReps = 1 then 0 else 0x40) + (if size.repShift = 0 then 0 else 0x80))
    (by simp)
  generalize (size.depth + 31) % 32 + (if size.xReps = 1 then 0 else 0x20) +
    (if size.yReps = 1 then 0 else 0x40) + (if size.repShift = 0 then 0 else 0x80) = flags at *
  have hlast : Yields box (Replay.modifyState fun s => { s with tileSize := {
      repWidth := size.repWidth, repHeight := size.repHeight, xReps := size.xReps
      yReps := size.yReps, repShift := size.repShift
      depth := (UInt8.ofNat flags &&& 31).toNat + 1 } } : ReplayM σ τ Unit) [] r [] ()
      { r with tileSize := size } := by
    rw [hdepth]
    exact .modifyState _
  rw [← List.append_nil (Command.unlessUsual size.repShift 0)]
  simp only [List.append_assoc]
  refine Yields.read_bind (Decodes.nextByte (UInt8.ofNat flags)) ?_
  refine Yields.read_bind (Varint.decodes h.repWidth) ?_
  refine Yields.read_bind (Varint.decodes h.repHeight) ?_
  exact yields_unlessUsual h.xReps.2 hacross (yields_unlessUsual h.yReps.2 hdown
    (yields_unlessUsual h.repShift hshift hlast))

/-- The reader's tile after `index` was stored and selected. -/
def ReplayState.withTile (r : ReplayState) (tiles : TileArena) (index : Nat) : ReplayState :=
  { r with tiles, band := { r.band with tileIndex := index } }

theorem yields_storeTile {σ τ : Type} [ByteSource σ] [LawfulSource σ] [Target τ]
    {index offset : Nat} {size : TileSize} {bits : Bytes} {tiles : TileArena}
    (h : r.tiles.store index offset size bits = .ok tiles) :
    Yields box (Replay.storeTile index offset size bits : ReplayM σ τ Unit) [] r [] ()
      (r.withTile tiles index) := by
  refine Yields.getState_bind (Yields.lift_bind h ?_)
  exact Yields.modifyState _

theorem replays_tileBits {index : Nat} {slot : TileSlot} {bits : Bytes} {tiles : TileArena}
    (hindex : index < 4294967296) (hsize : r.tileSize = slot.size)
    (hbits : bits.size = slot.size.dataSize)
    (h : r.tiles.store index slot.sent.offset slot.size bits = .ok tiles) :
    Replays box (Command.tileBits index slot.offset bits.toList) r [] (r.withTile tiles index) := by
  refine ⟨_, _, .control .setTileBits, rfl, rfl, by decide, fun {σ τ} _ _ _ => ?_⟩
  have hoffset : slot.offset % 4294967296 < 4294967296 := Nat.mod_lt _ (by decide)
  rw [← List.append_nil bits.toList]
  simp only [List.append_assoc]
  refine Yields.read_bind (Varint.decodes hindex) ?_
  refine Yields.read_bind (Varint.decodes hoffset) ?_
  refine Yields.getState_bind ?_
  refine Yields.read_bind (Decodes.take ?_) ?_
  · rw [hsize, Array.length_toList, hbits]
  · rw [hsize]
    exact yields_storeTile h

/-- The parts of the byte that begins the bits of a bitmap. -/
theorem bitsFlags {depth : Nat} (hdepth : depth < 64) (compression : Compression) :
    Compression.ofCode (UInt8.ofNat (depth * 4) ||| compression.code) = .ok compression ∧
      ((UInt8.ofNat (depth * 4) ||| compression.code) >>> 2).toNat = depth := by
  have hall : ∀ depth < 64, ∀ code ∈ [(0 : UInt8), 1, 2],
      ((UInt8.ofNat (depth * 4) ||| code) &&& 3).toNat = code.toNat ∧
        ((UInt8.ofNat (depth * 4) ||| code) >>> 2).toNat = depth := by
    decide +kernel
  obtain ⟨hcode, hshift⟩ := hall depth hdepth compression.code (by cases compression <;> decide)
  refine ⟨?_, hshift⟩
  rw [Compression.ofCode, hcode]
  cases compression <;> rfl

/-- Bits that follow their size are stored as the rows that were compressed. -/
theorem replays_bitmapBits {index width height depth offset : Nat} {rows : Bytes}
    {methods : CompressionSet} {readerSize : Nat} {payload : Payload} {tiles : TileArena}
    (hindex : index < 4294967296) (hwidth : width < 4294967296) (hheight : height < 4294967296)
    (hdepth : depth < 64)
    (hpayload : Payload.choose rows (TileSize.single width height depth).raster height methods
      readerSize = .ok payload)
    (hrows : (TileSize.single width height depth).dataSize ≤ rows.size)
    (h : r.tiles.store index (offset % 4294967296) (.single width height depth)
      (rows.extract 0 (TileSize.single width height depth).dataSize) = .ok tiles) :
    Replays box (Command.bitmapBits ⟨offset, .single width height depth⟩ index payload) r []
      (r.withTile tiles index) := by
  refine ⟨_, _, .control .setBits, rfl, rfl, by decide, fun {σ τ} _ _ _ => ?_⟩
  have hoffset : offset % 4294967296 < 4294967296 := Nat.mod_lt _ (by decide)
  obtain ⟨hcompression, hshift⟩ := bitsFlags hdepth payload.compression
  have hsize : (TileSize.single width height depth).dataSize =
      (TileSize.single width height depth).raster * height := by
    rw [TileSize.dataSize, TileSize.height]
    simp [TileSize.single]
  rw [hsize] at hrows h
  rw [← List.append_nil payload.data]
  simp only [List.append_assoc]
  refine Yields.read_bind (Decodes.nextByte _) ?_
  refine Yields.lift_bind hcompression ?_
  refine Yields.read_bind (Varint.decodes hwidth) ?_
  refine Yields.read_bind (Varint.decodes hheight) ?_
  refine Yields.read_bind (Varint.decodes hindex) ?_
  refine Yields.read_bind (Varint.decodes hoffset) ?_
  have hsame : ((UInt8.ofNat ((TileSize.single width height depth).depth * 4) |||
      payload.compression.code) >>> 2).toNat = depth := hshift
  rw [hsame]
  refine Yields.read_bind (Payload.decodes_choose hpayload hrows) ?_
  exact yields_storeTile h

def tileCall (band : BandState) (tile : Tile) (piece : Rect) : TargetCall :=
  if band.lopEnabled then
    .stripCopyRop piece (some tile) band.tileColors band.tilePhase band.lop
  else .stripTileRectangle tile piece band.tileColors band.tilePhase

theorem replays_tileRect {rect : SizedRect} {tile : Tile} (hrect : rect.Fits)
    (hd : (rect.minus r.band.rect).Fits) (htile : r.tile = .ok tile) :
    Replays box (RectCommand.encode Opcode.tileRect rect r.band.rect) r
      ((r.visible box rect.toRect).map (tileCall r.band tile)) (r.withRect rect) := by
  obtain ⟨form, n, operands, hencode, hn, hdecode⟩ :=
    RectCommand.exists_form Opcode.tileRect hrect hd
  refine ⟨_, operands, .tileRect form n, hencode, Op.ofByte?_rect .tile form hn,
    fun heq => Op.noConfusion heq, fun {σ τ} _ _ _ => ?_⟩
  refine ((yields_setRect hdecode).bind (l := []) ?_).of_eq (by simp)
  refine Yields.getState_bind ?_
  have hsome : (r.withRect rect).tile = .ok tile := htile
  refine Yields.lift_bind hsome ?_
  have hcall : (fun piece => (tileCall r.band tile piece).perform) =
      fun piece => (if (r.withRect rect).band.lopEnabled = true then
        Target.stripCopyRop piece (some tile) (r.withRect rect).band.tileColors
          (r.withRect rect).band.tilePhase (r.withRect rect).band.lop
      else Target.stripTileRectangle tile piece (r.withRect rect).band.tileColors
        (r.withRect rect).band.tilePhase : DrawM τ Unit) := by
    funext piece
    by_cases hlop : r.band.lopEnabled = true
    · simp [tileCall, hlop, TargetCall.perform, ReplayState.withRect]
    · simp [tileCall, hlop, TargetCall.perform, ReplayState.withRect]
  have hdraw : Yields box (Replay.drawVisible rect.toRect fun piece =>
      (tileCall r.band tile piece).perform : ReplayM σ τ Unit) [] (r.withRect rect)
      ((r.visible box rect.toRect).map (tileCall r.band tile)) () (r.withRect rect) :=
    yields_drawVisible rect.toRect (tileCall r.band tile)
  rw [hcall] at hdraw
  exact hdraw

end BandedPage
