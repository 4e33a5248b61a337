import Mathlib
import BandedPage.Proofs.Imager.Agreement
import BandedPage.Proofs.Operand.Rect
import BandedPage.Proofs.Replay.Clip
import BandedPage.Proofs.Tile.Reach
import BandedPage.Writer.Draft
import BandedPage.Writer.State

/-!
# What replay knows of what the writer takes it to know

A band's commands mean something only to a reader that remembers the same as the writer. `Mirrors`
says that a replay does. Its colors agree only as far as colors fit the device, its imager state
only as long as no change of it failed half-way, and its clip is the one that was current when the
band was told. So how much is asked for is laid down in `Terms`.
-/

namespace BandedPage

/-- How much of what the writer knows a replay is to agree with. -/
structure Terms where
  /-- Every color is one that the device has. -/
  exactColors : Prop
  /-- The imager state is changed as a whole. -/
  exactImager : Prop
  /-- The clip that is current, if it matters. -/
  clip : Option ClipPath := none
  /-- Replay has the very bits of tiles that the cache has. -/
  exactTiles : Prop := False
  /-- The bits that bitmaps of a name and a geometry may have. -/
  named : BitmapId → TileSize → Bytes → Prop := fun _ _ _ => True
  /-- Bands in which the image has just ended. -/
  ended : Nat → Prop := fun _ => False
  /-- The range of coordinates and lengths. -/
  least : Int
  greatest : Int
  least_le : least ≤ 0
  le_greatest : 0 ≤ greatest
  span : greatest - least < 2147483648

namespace Terms

def Allows (q : Terms) (v : Int) : Prop := q.least ≤ v ∧ v ≤ q.greatest

theorem Allows.fits32 {q : Terms} {v : Int} (h : q.Allows v) : Word.fits32 v = true := by
  obtain ⟨hlo, hhi⟩ := h
  have := q.least_le
  have := q.le_greatest
  have := q.span
  rw [Word.fits32_iff]
  omega

theorem Allows.sub_fits32 {q : Terms} {v w : Int} (hv : q.Allows v) (hw : q.Allows w) :
    Word.fits32 (v - w) = true := by
  obtain ⟨hlo, hhi⟩ := hv
  obtain ⟨hlo', hhi'⟩ := hw
  have := q.span
  rw [Word.fits32_iff]
  omega

theorem allows_zero (q : Terms) : q.Allows 0 := ⟨q.least_le, q.le_greatest⟩

end Terms

/-- All numbers of the rectangle are allowed. -/
structure SizedRect.Within (q : Terms) (r : SizedRect) : Prop where
  x : q.Allows r.x
  y : q.Allows r.y
  width : q.Allows r.width
  height : q.Allows r.height

namespace SizedRect

variable {q : Terms} {r last : SizedRect}

theorem Within.fits (h : r.Within q) : r.Fits :=
  ⟨h.x.fits32, h.y.fits32, h.width.fits32, h.height.fits32⟩

theorem Within.minus_fits (h : r.Within q) (h' : last.Within q) : (r.minus last).Fits :=
  ⟨h.x.sub_fits32 h'.x, h.y.sub_fits32 h'.y, h.width.sub_fits32 h'.width,
    h.height.sub_fits32 h'.height⟩

theorem within_default (q : Terms) : ({} : SizedRect).Within q :=
  ⟨q.allows_zero, q.allows_zero, q.allows_zero, q.allows_zero⟩

end SizedRect

variable {μ ν : Type}

/-- A replay of `band` is in the state that the writer takes it to be in when the band is to know
`b`. -/
structure Mirrors (q : Terms) (s : WriterState μ ν) (band : Nat) (b : BandState) (r : ReplayState) :
    Prop where
  config : r.config = s.config
  rect : r.band.rect = b.rect
  within : b.rect.Within q
  colors : q.exactColors → r.band.colors = b.colors
  tileColors : q.exactColors → r.band.tileColors = b.tileColors
  tileIndex : r.band.tileIndex = b.tileIndex
  tileIndex_lt : b.tileIndex < 4096
  tilePhase : r.band.tilePhase = b.tilePhase
  lop : r.band.lop = b.lop
  lopEnabled : r.band.lopEnabled = b.lopEnabled
  clipEnabled : r.band.clipEnabled = b.clipEnabled
  copiesAlpha : r.band.copiesAlpha = b.copiesAlpha
  known : ∀ f, b.known.contains f = true → r.band.known.contains f = true
  imager : q.exactImager → ∀ f, b.known.contains f = true →
    r.imager.withField s.imager.sent f = r.imager
  colorSpace : b.known.contains .colorSpace = true → r.colorSpace = s.colorSpace
  clip : b.known.contains .clip = true → ∀ c ∈ q.clip, r.clip = c.regionIn (s.config.bandRect band)
  image : ∀ im ∈ s.image, ¬ q.ended band → im.started.contains band = true →
    ∃ header space, r.image = some (header, space) ∧ header.planes space = im.header.planes im.space
  dataX : r.dataX = 0
  collector : r.collector = none
  pen : r.pen.drawing = false ∧ r.pen.path = {} ∧ r.pen.notes = 0

namespace WriterState

/-- The states take the same for current, and so tell bands the same. -/
structure Alike (s s' : WriterState μ ν) : Prop where
  config : s'.config = s.config
  imager : s'.imager = s.imager
  clipId : s'.clipId = s.clipId
  colorSpace : s'.colorSpace = s.colorSpace
  image : s'.image = s.image
  params : s'.params = s.params
  halftone : s'.halftone = s.halftone
  transfers : s'.transfers = s.transfers

variable {s s' s'' : WriterState μ ν}

theorem Alike.refl (s : WriterState μ ν) : s.Alike s := ⟨rfl, rfl, rfl, rfl, rfl, rfl, rfl, rfl⟩

theorem Alike.trans (h : s.Alike s') (h' : s'.Alike s'') : s.Alike s'' :=
  ⟨h'.config.trans h.config, h'.imager.trans h.imager, h'.clipId.trans h.clipId,
    h'.colorSpace.trans h.colorSpace, h'.image.trans h.image, h'.params.trans h.params,
    h'.halftone.trans h.halftone, h'.transfers.trans h.transfers⟩

/-- A replay of `band` has the tiles that the writer takes the band to have, and the geometry that
was announced. -/
structure TilesReach (q : Terms) (s : WriterState μ ν) (band : Nat) (r : ReplayState) : Prop where
  tiles : s.tiles.Reaches q.exactTiles band [] r.tiles
  size : ∀ size ∈ s.tileSize, r.tileSize = size

end WriterState

theorem Mirrors.alike {q : Terms} {s s' : WriterState μ ν} {band : Nat} {b : BandState}
    {r : ReplayState} (h : Mirrors q s band b r) (hs : s.Alike s') : Mirrors q s' band b r := by
  obtain ⟨hconfig, himager, -, hcolorSpace, himage, -, -, -⟩ := hs
  exact { h with
    config := h.config.trans hconfig.symm
    imager := himager ▸ h.imager
    colorSpace := hcolorSpace ▸ h.colorSpace
    clip := hconfig ▸ h.clip
    image := himage ▸ h.image }

/-- A band that knows nothing is as a replay that begins. -/
theorem Mirrors.fresh {q : Terms} {s : WriterState μ ν} {band : Nat}
    (himage : ∀ im ∈ s.image, im.started.contains band = false) :
    Mirrors q s band {} (.fresh s.config) where
  config := rfl
  rect := rfl
  within := SizedRect.within_default q
  colors _ := rfl
  tileColors _ := rfl
  tileIndex := rfl
  tileIndex_lt := by decide
  tilePhase := rfl
  lop := rfl
  lopEnabled := rfl
  clipEnabled := rfl
  copiesAlpha := rfl
  known f hf := hf
  imager _ f hf := by
    rw [FieldSet.contains_empty] at hf
    cases hf
  colorSpace hf := by
    rw [FieldSet.contains_empty] at hf
    cases hf
  clip hf := by
    rw [FieldSet.contains_empty] at hf
    cases hf
  image im him _ hin := by
    rw [himage im him] at hin
    cases hin
  dataX := rfl
  collector := rfl
  pen := ⟨rfl, rfl, rfl⟩

theorem WriterState.TilesReach.fresh {q : Terms} {s : WriterState μ ν} {band : Nat}
    (hheap : s.tiles.heap.size = s.config.tileBytes)
    (htable : s.tiles.table.size = s.config.tileSlots)
    (htiles : ∀ index, s.tiles.entryAt index = none) (hsize : s.tileSize = none) :
    s.TilesReach q band (.fresh s.config) where
  tiles := by
    refine TileCache.reaches_of_no_entries (hheap ▸ Array.size_replicate)
      (htable ▸ Array.size_replicate) htiles
  size size hsize' := by
    rw [hsize] at hsize'
    cases hsize'

/-- The commands of a draft lead a replay from `r₀` to `r`, which is as the draft says; the target
gets `calls`. -/
structure Drafted (q : Terms) (s : WriterState μ ν) (r₀ : ReplayState) (d : BandDraft)
    (calls : List TargetCall) (r : ReplayState) : Prop where
  replays : ReplaysAll (s.config.bandRect d.band) d.commands.toList r₀ calls r
  mirrors : Mirrors q s d.band d.state r
  tileSize : r.tileSize = r₀.tileSize
  tiles : s.tiles.Reaches q.exactTiles d.band [] r₀.tiles →
    s.tiles.Reaches q.exactTiles d.band d.sent r.tiles

namespace Drafted

variable {q : Terms} {s : WriterState μ ν} {r₀ r r' : ReplayState} {d : BandDraft}
variable {calls calls' : List TargetCall}

/-- A draft without commands. -/
theorem start {band : Nat} {b : BandState} (h : Mirrors q s band b r₀) :
    Drafted q s r₀ { band, state := b } [] r₀ :=
  ⟨.nil r₀, h, rfl, id⟩

/-- One more command, and what the band knows then. -/
theorem emit (h : Drafted q s r₀ d calls r) {c : Command}
    (hc : Replays (s.config.bandRect d.band) c r calls' r') {b : BandState}
    (hm : Mirrors q s d.band b r') (hsize : r'.tileSize = r.tileSize) (htiles : r'.tiles = r.tiles) :
    Drafted q s r₀ { d.emit c with state := b } (calls ++ calls') r' := by
  refine ⟨?_, hm, hsize.trans h.tileSize, fun hreaches => ?_⟩
  · have := h.replays.append (.single hc)
    simpa [BandDraft.emit] using this
  · rw [htiles]
    exact h.tiles hreaches

/-- One more command that draws nothing. -/
theorem tell (h : Drafted q s r₀ d calls r) {c : Command}
    (hc : Replays (s.config.bandRect d.band) c r [] r') {b : BandState}
    (hm : Mirrors q s d.band b r') (hsize : r'.tileSize = r.tileSize) (htiles : r'.tiles = r.tiles) :
    Drafted q s r₀ { d.emit c with state := b } calls r' := by
  have := h.emit hc hm hsize htiles
  rwa [List.append_nil] at this

end Drafted

end BandedPage
