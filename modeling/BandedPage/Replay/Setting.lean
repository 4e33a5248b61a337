import BandedPage.Bits.Payload
import BandedPage.Operand.Color
import BandedPage.Operand.ImageHeader
import BandedPage.Replay.State

/-!
# Replaying settings

Commands that draw nothing: tiles and colors, the logical operation, halftones and transfer maps,
the fields of the imager state, clips and color spaces.
-/

namespace BandedPage.Replay

variable {σ τ : Type} [ByteSource σ]

def setTileColor : ReplayM σ τ Unit := do
  let b ← read nextByte
  let s ← getState
  let last := s.band.tileColors
  let put := fun (slot : ColorSlot) (color : Color) =>
    modifyBand fun band => { band with tileColors := last.set slot color }
  match Op.ofByte? b with
  | some (.control (.colorDifference slot)) =>
    put slot (← read (ColorCommand.decodeDifference (last.get slot) s.config.depth))
  | some (.setColor slot n) =>
    put slot (← read (ColorCommand.decode n (last.get slot) s.config.depth))
  | _ =>
    let code := Hex.encode [b]
    throw (.malformed s!"set_tile_color followed by 0x{code}")

/-- The geometry of the tiles to come. The depth is in the low bits of the first byte, and its high
bits say which of the other numbers are other than usual. -/
def setTileSize : ReplayM σ τ Unit := do
  let flags ← read nextByte
  let repWidth ← read Varint.decode
  let repHeight ← read Varint.decode
  let xReps ← if flags &&& 0x20 != 0 then read Varint.decode else pure 1
  let yReps ← if flags &&& 0x40 != 0 then read Varint.decode else pure 1
  let repShift ← if flags &&& 0x80 != 0 then read Varint.decode else pure 0
  let depth := (flags &&& 31).toNat + 1
  modifyState fun s => { s with tileSize := { repWidth, repHeight, xReps, yReps, repShift, depth } }

/-- Keep tile bits and select them. -/
def storeTile (index offset : Nat) (size : TileSize) (bits : Bytes) : ReplayM σ τ Unit := do
  let tiles ← (← getState).tiles.store index offset size bits
  modifyState fun s => { s with tiles, band := { s.band with tileIndex := index } }

/-- The bits of a tile of the announced geometry. -/
def setTileBits : ReplayM σ τ Unit := do
  let index ← read Varint.decode
  let offset ← read Varint.decode
  let size := (← getState).tileSize
  let bits ← read (ByteSource.take size.dataSize)
  storeTile index offset size bits.toArray

/-- The bits of a bitmap that is copied from the cache. -/
def setBits : ReplayM σ τ Unit := do
  let flags ← read nextByte
  let compression ← Compression.ofCode flags
  let width ← read Varint.decode
  let height ← read Varint.decode
  let index ← read Varint.decode
  let offset ← read Varint.decode
  let size := TileSize.single width height (flags >>> 2).toNat
  let bits ← read (Payload.decode compression size.raster height)
  storeTile index offset size bits

/-- A transfer map, given by all its entries or as the identity. -/
def setTransferMap [Target τ] (flags : UInt8) : ReplayM σ τ Unit := do
  let map ←
    if flags &&& 0x20 != 0 then do
      let entries ← read (Operand.many (Operand.natural 2) transferMapSize)
      pure (some entries)
    else pure none
  draw (Target.installTransfer (flags &&& 0x1f).toNat map)

/-- A miscellaneous setting; the top two bits of its first byte tell which. -/
def setMisc [Target τ] : ReplayM σ τ Unit := do
  let b ← read nextByte
  let kind := b &&& 0xc0
  if kind = Opcode.miscLop then
    let high ← read Varint.decode
    let lop := (b &&& 0x3f).toUInt32 ||| (UInt32.ofNat high <<< 6)
    modifyState fun s =>
      { s with band := { s.band with lop }, imager := { s.imager with logOp := lop } }
  else if kind = Opcode.miscDataX then
    let low := (b &&& 0x1f).toNat
    let high ← if b &&& 0x20 != 0 then read Varint.decode else pure 0
    modifyState fun s => { s with dataX := high * 32 + low }
  else if kind = Opcode.miscTransfer then setTransferMap b
  else
    let count ← read Varint.decode
    let halftone : Halftone :=
      { kind := (b &&& 0x3f).toNat, components := List.replicate count {} }
    modifyState fun s => { s with halftone := some { halftone } }

/-- The halftone that order `index` belongs to, with the order. -/
def orderOf (assembly : Option HalftoneAssembly) (index : Nat) (subject : String) :
    Except Error (Halftone × HalftoneOrder) :=
  match assembly with
  | none => .error (.malformed s!"halftone {subject} before the halftone")
  | some { halftone, .. } =>
    match halftone.order? index with
    | none => .error (.malformed s!"halftone order {index} out of range")
    | some order => .ok (halftone, order)

def setHalftoneOrder : ReplayM σ τ Unit := do
  let index ← read Varint.decode
  let name ← if 0 < index then read Varint.decode else pure 0
  let width ← read Varint.decode
  let height ← read Varint.decode
  let raster ← read Varint.decode
  let shift ← read Varint.decode
  let levelCount ← read Varint.decode
  let bitCount ← read Varint.decode
  let (halftone, _) ← orderOf (← getState).halftone index "order"
  let halftone := halftone.modifyOrder index fun _ =>
    { width, height, raster, shift, levelCount, bitCount }
  let halftone := halftone.setName index name
  modifyState fun s => { s with halftone := some { halftone, index } }

def thresholdBit : Decoder σ ThresholdBit := do
  let offset ← Operand.natural 4
  let mask ← Operand.natural 4
  return { offset, mask }

/-- The next `n` levels of an order, or its next bits once it has all levels. -/
def extendOrder (order : HalftoneOrder) (n : Nat) : Decoder σ HalftoneOrder := do
  if order.levels.length < order.levelCount then
    if order.levelCount < order.levels.length + n then
      throw (.malformed "too many halftone levels")
    let levels ← Operand.many (Operand.natural 4) n
    return { order with levels := order.levels ++ levels }
  else
    if order.bitCount < order.bits.length + n then throw (.malformed "too many halftone bits")
    let bits ← Operand.many thresholdBit n
    return { order with bits := order.bits ++ bits }

/-- Levels or bits of an order. The default order comes last, and when it is complete the halftone
is installed. -/
def setHalftoneData [Target τ] : ReplayM σ τ Unit := do
  let n := (← read nextByte).toNat
  let assembly := (← getState).halftone
  let index := (assembly.map (·.index)).getD 0
  let (halftone, order) ← orderOf assembly index "data"
  let order ← read (extendOrder order n)
  let halftone := halftone.modifyOrder index fun _ => order
  if index = 0 && order.isComplete then
    modifyState fun s => { s with halftone := none }
    draw (Target.installHalftone halftone)
  else modifyState fun s => { s with halftone := some { halftone, index } }

/-- Change the imager state and mark the field as known. -/
def setField (field : StateField) (f : ImagerState → ImagerState) : ReplayM σ τ Unit :=
  modifyState fun s => { s with imager := f s.imager }.learn field

/-- A second miscellaneous setting; the top two bits of its byte tell which. -/
def setOptions : ReplayM σ τ Unit := do
  let b ← read nextByte
  let kind := b &&& 0xc0
  if kind = Opcode.optionCapJoin then
    setField .capJoin ({ · with cap := .ofCode (b >>> 3), join := .ofCode b })
  else if kind = Opcode.optionCurves then
    setField .curveOptions ({ · with
      accurateCurves := b &&& 4 != 0, overprint := b &&& 2 != 0, strokeAdjust := b &&& 1 != 0 })
  else if kind = Opcode.optionNotes then
    modifyState fun s => { s with pen := { s.pen with notes := b &&& 0x3f } }
  else
    let alpha ← read (Operand.natural 2)
    setField .alpha ({ · with alpha := UInt16.ofNat alpha })

def setDash : ReplayM σ τ Unit := do
  let b ← read nextByte
  let n := (b &&& 0x3f).toNat
  if Dash.maxLength < n then throw (.malformed s!"dash pattern of {n} elements")
  let dotLength ← read Operand.single
  let offset ← read Operand.single
  let pattern ← read (Operand.many Operand.single n)
  let dash : Dash :=
    { pattern, offset, dotLength, adapt := b &&& 0x80 != 0, dotLengthAbsolute := b &&& 0x40 != 0 }
  setField .dash ({ · with dash })

def beginClip [Target τ] : ReplayM σ τ Unit := do
  let box ← clipBox
  modifyState fun s => { s with collector := some { clipBox := box } }

/-- Take what was collected as clip. One that leaves the whole band visible is dropped. -/
def endClip [Target τ] : ReplayM σ τ Unit := do
  let outside := (← read nextByte) != 0
  let some collector := (← getState).collector
    | throw (.malformed "end_clip without begin_clip")
  let clip := collector.finish outside
  let box ← clipBox
  modifyState fun s =>
    { s with collector := none, clip := if clip.covers box then none else some clip }.learn .clip

def setColorSpace : ReplayM σ τ Unit := do
  let b ← read nextByte
  let highest ← if b &&& 8 != 0 then read Varint.decode else pure 0
  let colorSpace ← ColorSpace.ofCode b highest
  modifyState fun s => { s with colorSpace }.learn .colorSpace

/-- Four base levels packed in the first byte, or five bits each in three bytes. -/
def coloredBases : Decoder σ (List UInt8) := do
  let b ← nextByte
  let (word, width) ←
    if 0x10 ≤ b then do
      let low ← nextBytes 2
      pure (Word.ofBigEndian ((b - 0x10) :: low), 5)
    else pure (b.toNat, 1)
  return [3, 2, 1, 0].map fun i => UInt8.ofNat ((word >>> (i * width)) % (1 <<< width))

def setColored : ReplayM σ τ Unit := do
  let bases ← read coloredBases
  let levels ← read (Operand.many Varint.decode (← getState).config.components)
  modifyState fun s => { s with colored := some (.colored bases levels) }

end BandedPage.Replay
