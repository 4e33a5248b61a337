import BandedPage.Span
import BandedPage.Writer.Recovery
import BandedPage.Writer.Tile

/-!
# Drawing images

An image begins in a band with the first rows that the band is sent. After the page had to be
emptied it begins anew, without the rows that all bands have had. Its rows are sent in portions
that fit the reader's buffer.
-/

namespace BandedPage

namespace OpenImage

/-- The header of what is still to be sent. -/
def remaining (im : OpenImage) : ImageHeader :=
  if im.rowsSent = 0 then im.header
  else
    let whole := Rect.ofCorners 0 0 (Word.wrap32 im.header.width) (Word.wrap32 im.header.height)
    let r := im.header.rect.getD whole
    { im.header with rect := some { r with y1 := r.y1 + Word.wrap32 im.rowsSent } }

end OpenImage

/-- Some rows of every plane, `width` bits each, of pixels that have `depth` bits. -/
def Bitmap.rowsOfAll (planes : List Bitmap) (depth width : Nat) (rows : Span) :
    Except Error (List UInt8) := do
  let parts ← planes.mapM fun plane =>
    Bits.extract (plane.drop 0 rows.start).data plane.raster (plane.dataX * depth) width
      rows.length.toNat
  return (parts.map (·.toList)).flatten

namespace WriterState

variable {μ ν : Type}

def advanceImage (rows : Nat) (s : WriterState μ ν) : WriterState μ ν :=
  { s with image := s.image.map fun im => { im with rowsSent := im.rowsSent + rows } }

def markStarted (band : Nat) (s : WriterState μ ν) : WriterState μ ν :=
  { s with image := s.image.map fun im => { im with started := im.started.insert band } }

variable [Medium μ] [MemoryPolicy μ ν]

/-- Begin the image in a band. Only a mask is painted with the color. -/
def beginImageBand (band : Nat) (im : OpenImage) : WriteM μ ν Unit := do
  modify (·.useColorSpace im.space)
  updateImager im.state .image
  let s ← get
  let d := (← draft band).tellFields .image s.imager s.colorSpace
  let d := (d.useClip (← bandRect band) im.clip).useLop s.imager.logOp false
  let d := match im.header.mask, im.color with
    | true, .pure color => d.useColor s.config.depth .one color
    | _, _ => d
  let begin ← Command.imageBegin im.remaining im.space
  commit (d.emit begin)

/-- Send rows of the image to a band, in which it begins if it has not. -/
def imageDataBand (band : Nat) (rows : Command) : WriteM μ ν Unit := do
  let some im := (← get).image | throw (.malformed "image ended")
  if !im.started.contains band then
    beginImageBand band im
    modify (·.markStarted band)
  putBatch (.band band) [rows]

/-- End the image in a band in which it began. -/
def endImageBand (band : Nat) : WriteM μ ν Unit := do
  if (← get).image.any (·.started.contains band) then putBatch (.band band) [Command.imageEnd]

end WriterState

namespace Writer

variable {μ ν : Type} [Medium μ] [MemoryPolicy μ ν]

def beginImage (ps : ImagerState) (header : ImageHeader) (space : ColorSpace)
    (color : DrawingColor) (clip : Option ClipPath) : WriterM μ ν Unit := do
  check
  let s := (← get).state
  if !s.config.images then throw .imagesDisabled
  if s.image.isSome then throw (.malformed "begin_image inside another image")
  match header.mask, color with
  | true, .halftone _ _ _ | true, .colored _ _ =>
    throw (.malformed "image mask needs a pure color")
  | _, _ => pure ()
  let _ ← header.encode space
  let some bounds := header.deviceBounds ps.ctm | throw (.malformed "singular image matrix")
  let bands := (bounds.intersect s.config.pageRect).bind fun r =>
    s.config.bandsFor r.y1 r.height
  onState (WriterState.updateImager ps .image)
  update fun s =>
    let s := (s.useColorSpace space).useClip clip
    let started := .empty s.config.nbands
    { s with image := some { header, space, color, clip, state := ps, bands, started } }

def imageData (planes : List Bitmap) (height : Nat) : WriterM μ ν Unit := do
  check
  let s := (← get).state
  let some im := s.image | throw (.malformed "image_data without begin_image")
  let count := im.header.planes im.space
  if planes.length ≠ count then
    throw (.malformed s!"{planes.length} planes given, image has {count}")
  match im.bands with
  | none => update (·.advanceImage height)
  | some bands =>
    let depth := im.header.planeDepth im.space
    let width := im.header.suppliedWidth * depth
    let raster := Bits.shortRaster width
    let room := s.config.payloadRoom
    if room < raster * count then throw (.bitmapTooLarge (raster * count) room)
    let portion := if raster = 0 then height else room / (raster * count)
    Span.forM (max portion 1 : Nat) 0 0 height fun rows => do
      let data ← Bitmap.rowsOfAll planes depth width rows
      let command := Command.imageData rows.length.toNat raster data
      bands.toList.forM fun band => withRecovery (WriterState.imageDataBand band command)
      update (·.advanceImage rows.length.toNat)

def endImage : WriterM μ ν Unit := do
  check
  let some im := (← get).state.image | throw (.malformed "end_image without begin_image")
  (im.bands.elim [] BandRange.toList).forM fun band =>
    withRecovery (WriterState.endImageBand band)
  update fun s => { s with image := none }

end Writer

end BandedPage
