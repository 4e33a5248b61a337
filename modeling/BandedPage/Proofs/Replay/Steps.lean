import Mathlib
import BandedPage.Proofs.Source.Lawful
import BandedPage.Replay.State

/-!
# What a replay reads, draws and remembers

`Yields` says of a step of a replay which bytes it reads, which calls it makes on a target that
accepts them, what it answers and which state it leaves, whatever the source and the target are. It
says nothing of a target that refuses a call. Steps are put together part by part.
-/

namespace BandedPage

/-- A call on a target with all that the target is told. -/
inductive TargetCall where
  | fillRectangle (rect : Rect) (color : Color)
  | copyMono (bits : Bitmap) (rect : Rect) (colors : ColorPair)
  | copyColor (bits : Bitmap) (rect : Rect)
  | copyAlpha (bits : Bitmap) (rect : Rect) (color : Color) (depth : UInt8)
  | fillMask (bits : Bitmap) (rect : Rect) (color : DrawingColor) (depth : UInt8)
      (lop : LogicalOp) (clip : Option ClipRegion)
  | stripTileRectangle (tile : Tile) (rect : Rect) (colors : ColorPair) (phase : Phase)
  | stripCopyRop (rect : Rect) (texture : Option Tile) (colors : ColorPair) (phase : Phase)
      (lop : LogicalOp)
  | fillPath (state : ImagerState) (path : Path) (rule : FillRule) (color : DrawingColor)
      (clip : Option ClipRegion)
  | strokePath (state : ImagerState) (path : Path) (color : DrawingColor)
      (clip : Option ClipRegion)
  | beginImage (state : ImagerState) (header : ImageHeader) (space : ColorSpace)
      (color : DrawingColor) (clip : Option ClipRegion)
  | imageData (planes : List Bytes) (dataX raster height : Nat)
  | endImage
  | putParams (params : List UInt8)
  | installHalftone (halftone : Halftone)
  | installTransfer (index : Nat) (map : TransferMap)

namespace TargetCall

variable {τ : Type} [Target τ]

def perform : TargetCall → DrawM τ Unit
  | fillRectangle rect color => Target.fillRectangle rect color
  | copyMono bits rect colors => Target.copyMono bits rect colors
  | copyColor bits rect => Target.copyColor bits rect
  | copyAlpha bits rect color depth => Target.copyAlpha bits rect color depth
  | fillMask bits rect color depth lop clip => Target.fillMask bits rect color depth lop clip
  | stripTileRectangle tile rect colors phase => Target.stripTileRectangle tile rect colors phase
  | stripCopyRop rect texture colors phase lop =>
    Target.stripCopyRop rect texture colors phase lop
  | fillPath state path rule color clip => Target.fillPath state path rule color clip
  | strokePath state path color clip => Target.strokePath state path color clip
  | beginImage state header space color clip => Target.beginImage state header space color clip
  | imageData planes dataX raster height => Target.imageData planes dataX raster height
  | endImage => Target.endImage
  | putParams params => Target.putParams params
  | installHalftone halftone => Target.installHalftone halftone
  | installTransfer index map => Target.installTransfer index map

/-- The target accepts the calls one after another, while its area stays the same, and is then
`t'`. -/
def Accepts (box : Rect) : List TargetCall → τ → τ → Prop
  | [], t, t' => t' = t ∧ Target.clipBox t = box
  | call :: calls, t, t' =>
    Target.clipBox t = box ∧ ∃ t₁, call.perform t = .ok () t₁ ∧ Accepts box calls t₁ t'

theorem Accepts.clipBox_eq {box : Rect} {calls : List TargetCall} {t t' : τ}
    (h : Accepts box calls t t') : Target.clipBox t = box := by
  cases calls with
  | nil => exact h.2
  | cons call calls => exact h.1

@[simp] theorem accepts_append {box : Rect} {calls calls' : List TargetCall} {t t'' : τ} :
    Accepts box (calls ++ calls') t t'' ↔
      ∃ t', Accepts box calls t t' ∧ Accepts box calls' t' t'' := by
  induction calls generalizing t with
  | nil =>
    constructor
    · intro h
      exact ⟨t, ⟨rfl, h.clipBox_eq⟩, h⟩
    · rintro ⟨_, ⟨rfl, -⟩, h⟩
      exact h
  | cons call calls ih =>
    constructor
    · rintro ⟨hbox, t₁, hcall, h⟩
      obtain ⟨t', h, h'⟩ := ih.mp h
      exact ⟨t', ⟨hbox, t₁, hcall, h⟩, h'⟩
    · rintro ⟨t', ⟨hbox, t₁, hcall, h⟩, h'⟩
      exact ⟨hbox, t₁, hcall, ih.mpr ⟨t', h, h'⟩⟩

end TargetCall

/-- The step reads just `bytes`, makes these calls, answers `a` and leaves the state `r'`. -/
def Yields {σ τ α : Type} [ByteSource σ] [LawfulSource σ] [Target τ] (box : Rect)
    (m : ReplayM σ τ α) (bytes : List UInt8) (r : ReplayState) (calls : List TargetCall) (a : α)
    (r' : ReplayState) : Prop :=
  ∀ s rest t t', LawfulSource.Holds s (bytes ++ rest) → TargetCall.Accepts box calls t t' →
    ∃ s', m ⟨s, t, r⟩ = .ok a ⟨s', t', r'⟩ ∧ LawfulSource.Holds s' rest

namespace Yields

variable {σ τ α β : Type} [ByteSource σ] [LawfulSource σ] [Target τ] {box : Rect}
variable {r r' r'' : ReplayState} {bytes l : List UInt8} {calls calls' : List TargetCall}
variable {a : α} {b : β}

theorem pure (a : α) : Yields box (Pure.pure a : ReplayM σ τ α) [] r [] a r := by
  rintro s rest t _ hs ⟨rfl, -⟩
  exact ⟨s, rfl, hs⟩

/-- One step after the other. -/
theorem bind {m : ReplayM σ τ α} {f : α → ReplayM σ τ β} (hm : Yields box m bytes r calls a r')
    (hf : Yields box (f a) l r' calls' b r'') :
    Yields box (m >>= f) (bytes ++ l) r (calls ++ calls') b r'' := by
  intro s rest t t'' hs ht
  rw [List.append_assoc] at hs
  obtain ⟨t', ht', ht''⟩ := TargetCall.accepts_append.mp ht
  obtain ⟨s', hm', hs'⟩ := hm s (l ++ rest) t t' hs ht'
  obtain ⟨s'', hf', hs''⟩ := hf s' rest t' t'' hs' ht''
  exact ⟨s'', by rw [bind_of_ok hm', hf'], hs''⟩

theorem read {d : Decoder σ α} (h : Decodes d bytes a) :
    Yields box (Replay.read d : ReplayM σ τ α) bytes r [] a r := by
  rintro s rest t _ hs ⟨rfl, -⟩
  obtain ⟨s', hd, hs'⟩ := h s rest hs
  refine ⟨s', ?_, hs'⟩
  simp only [Replay.read, hd]

theorem read_bind {d : Decoder σ α} {f : α → ReplayM σ τ β} (h : Decodes d bytes a)
    (hf : Yields box (f a) l r calls b r') :
    Yields box (Replay.read d >>= f) (bytes ++ l) r calls b r' :=
  (read h).bind hf

/-- A byte is read. -/
theorem nextByte_bind {v : UInt8} {f : UInt8 → ReplayM σ τ β} (hf : Yields box (f v) l r calls b r') :
    Yields box (Replay.read ByteSource.nextByte >>= f) (v :: l) r calls b r' :=
  read_bind (Decodes.nextByte v) hf

theorem draw (call : TargetCall) :
    Yields box (Replay.draw call.perform : ReplayM σ τ Unit) [] r [call] () r := by
  rintro s rest t t' hs ⟨-, _, hcall, rfl, -⟩
  refine ⟨s, ?_, hs⟩
  simp only [Replay.draw, hcall]

theorem getState : Yields box (Replay.getState : ReplayM σ τ ReplayState) [] r [] r r := by
  rintro s rest t _ hs ⟨rfl, -⟩
  exact ⟨s, rfl, hs⟩

theorem getState_bind {f : ReplayState → ReplayM σ τ β}
    (hf : Yields box (f r) bytes r calls b r') :
    Yields box (Replay.getState >>= f) bytes r calls b r' :=
  getState.bind hf

theorem modifyState (f : ReplayState → ReplayState) :
    Yields box (Replay.modifyState f : ReplayM σ τ Unit) [] r [] () (f r) := by
  rintro s rest t _ hs ⟨rfl, -⟩
  exact ⟨s, rfl, hs⟩

theorem modifyState_bind {g : ReplayState → ReplayState} {f : Unit → ReplayM σ τ β}
    (hf : Yields box (f ()) bytes (g r) calls b r') :
    Yields box (Replay.modifyState g >>= f) bytes r calls b r' :=
  (modifyState g).bind hf

theorem modifyBand (f : BandState → BandState) :
    Yields box (Replay.modifyBand f : ReplayM σ τ Unit) [] r [] () { r with band := f r.band } :=
  modifyState _

theorem modifyBand_bind {g : BandState → BandState} {f : Unit → ReplayM σ τ β}
    (hf : Yields box (f ()) bytes { r with band := g r.band } calls b r') :
    Yields box (Replay.modifyBand g >>= f) bytes r calls b r' :=
  (modifyBand g).bind hf

theorem clipBox_bind {f : Rect → ReplayM σ τ β} (hf : Yields box (f box) bytes r calls b r') :
    Yields box (Replay.clipBox >>= f) bytes r calls b r' := by
  intro s rest t t' hs ht
  obtain ⟨s', hf', hs'⟩ := hf s rest t t' hs ht
  have hbox : Replay.clipBox (⟨s, t, r⟩ : Playback σ τ) = .ok box ⟨s, t, r⟩ := by
    rw [Replay.clipBox, ht.clipBox_eq]
  exact ⟨s', by rw [bind_of_ok hbox, hf'], hs'⟩

/-- A check that is passed changes nothing. -/
theorem lift_bind {x : Except Error α} {f : α → ReplayM σ τ β} (hx : x = .ok a)
    (hf : Yields box (f a) bytes r calls b r') :
    Yields box ((liftM x : ReplayM σ τ α) >>= f) bytes r calls b r' := by
  subst hx
  exact hf

theorem pure_bind {f : α → ReplayM σ τ β} (hf : Yields box (f a) bytes r calls b r') :
    Yields box ((Pure.pure a : ReplayM σ τ α) >>= f) bytes r calls b r' := hf

theorem forM_draw {γ : Type} (call : γ → TargetCall) (pieces : List γ) :
    Yields box (pieces.forM fun piece => (Replay.draw (call piece).perform : ReplayM σ τ Unit)) []
      r (pieces.map call) () r := by
  induction pieces with
  | nil => exact pure ()
  | cons piece pieces ih => exact (draw (call piece)).bind ih

/-- The bytes are judged as a whole when they are put together from parts. -/
theorem of_eq {m : ReplayM σ τ α} (h : Yields box m bytes r calls a r') (heq : l = bytes) :
    Yields box m l r calls a r' := heq ▸ h

end Yields

end BandedPage
