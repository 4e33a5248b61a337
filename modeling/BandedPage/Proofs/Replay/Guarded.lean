import Mathlib
import BandedPage.Proofs.Clip
import BandedPage.Proofs.Replay.Composing
import BandedPage.Proofs.Target.Guarded

/-!
# Commands that look before they read

Commands are carried out on a page with a look at every place in memory before it is read or
written: the places for the operands of a path, the arena of tiles, the components of a halftone,
the planes of an image, the rows of a bitmap, and the page itself. Numbers in a stream may be
anything, so what keeps each access in range is a check of an earlier command. Two facts hold
throughout: the tiles lie in the arena, and the page has all its bytes. From them a guarded step
does what the plain one does.
-/

namespace BandedPage

/-! ### Tiles in the arena -/

namespace TileArena

/-- Every tile lies in the arena. -/
def Sound (a : TileArena) : Prop :=
  ∀ index slot, a.slot? index = some slot → slot.offset + slot.size.dataSize ≤ a.heap.size

theorem sound_empty (bytes slots : Nat) : (empty bytes slots).Sound := by
  intro index slot h
  rw [slot?, empty, Array.getElem?_replicate] at h
  split at h <;> cases h

/-- What the arena takes has an index and a place. -/
theorem store_eq_ok {a a' : TileArena} {index offset : Nat} {size : TileSize} {bits : Bytes}
    (h : a.store index offset size bits = .ok a') :
    index < a.table.size ∧ size.dataSize ≤ bits.size ∧ offset + bits.size ≤ a.heap.size ∧
      a' = { heap := Bits.overwrite a.heap offset bits.toList
             table := a.table.setIfInBounds index (some { offset, size }) } := by
  by_cases hindex : a.table.size ≤ index
  · rw [store, if_pos hindex] at h
    cases h
  by_cases hshort : bits.size < size.dataSize
  · rw [store, if_neg hindex, if_pos hshort] at h
    cases h
  by_cases hpast : a.heap.size < offset + bits.size
  · simp only [store, if_neg hindex, if_neg hshort, if_pos hpast] at h
    cases h
  simp only [store, if_neg hindex, if_neg hshort, if_neg hpast] at h
  exact ⟨not_le.mp hindex, not_lt.mp hshort, not_lt.mp hpast, (Except.ok.inj h).symm⟩

theorem Sound.store {a a' : TileArena} {index offset : Nat} {size : TileSize} {bits : Bytes}
    (h : a.Sound) (hstore : a.store index offset size bits = .ok a') : a'.Sound := by
  obtain ⟨hindex, hbits, hroom, rfl⟩ := store_eq_ok hstore
  intro index' slot hslot
  rw [slot?, Array.getElem?_setIfInBounds] at hslot
  rw [Bits.size_overwrite]
  split at hslot
  · cases hslot
    dsimp only
    omega
  · exact h index' slot hslot

end TileArena

/-- On a page, the tiles lie in the arena, and the page has all its bytes. -/
structure Playback.Sound {σ : Type} (p : Playback σ Raster) : Prop where
  tiles : p.state.tiles.Sound
  target : p.target.Sound

namespace Replay

/-- A step that looks before it reads. -/
abbrev GuardedM (σ α : Type) := EStateM Fault (Playback σ Raster) α

variable {σ α β : Type}

/-! ### Steps that agree -/

/-- The step leaves a sound playback, also when it fails. -/
def Keeps (m : ReplayM σ Raster α) : Prop := ∀ p, p.Sound → (stateOf (m p)).Sound

theorem Keeps.bind {m : ReplayM σ Raster α} {f : α → ReplayM σ Raster β} (hm : Keeps m)
    (hf : ∀ a, Keeps (f a)) : Keeps (m >>= f) := by
  intro p hp
  have hp' := hm p hp
  cases h : m p with
  | ok a p' =>
    rw [h] at hp'
    rw [bind_of_ok h]
    exact hf a p' hp'
  | error e p' =>
    rw [h] at hp'
    rw [bind_of_error h]
    exact hp'

theorem Keeps.lift (x : Except Error α) : Keeps (liftM x : ReplayM σ Raster α) := by
  intro p hp
  cases x <;> exact hp

theorem Keeps.draw (call : TargetCall) :
    Keeps (Replay.draw call.perform : ReplayM σ Raster Unit) := by
  intro p hp
  have htarget := hp.target.perform call
  cases hcall : (call.perform : DrawM Raster Unit) p.target with
  | ok u t =>
    rw [hcall] at htarget
    have hdraw : Replay.draw call.perform p = .ok () { p with target := t } := by
      simp only [Replay.draw, hcall]
    rw [hdraw]
    exact ⟨hp.tiles, htarget⟩
  | error e t =>
    rw [hcall] at htarget
    have hdraw : Replay.draw call.perform p = .error e { p with target := t } := by
      simp only [Replay.draw, hcall]
    rw [hdraw]
    exact ⟨hp.tiles, htarget⟩

theorem Keeps.storeTile (index offset : Nat) (size : TileSize) (bits : Bytes) :
    Keeps (Replay.storeTile index offset size bits : ReplayM σ Raster Unit) := by
  intro p hp
  rw [storeTile_run]
  cases hstore : p.state.tiles.store index offset size bits with
  | ok tiles => exact ⟨hp.tiles.store hstore, hp.target⟩
  | error e => exact hp

/-- The playback answers `a` from somewhere where it is sound. -/
def Answers (m : ReplayM σ Raster α) (a : α) : Prop := ∃ p p', p.Sound ∧ m p = .ok a p'

/-- From a sound playback on, the guarded step does what the plain one does. -/
def Guards (c : GuardedM σ α) (m : ReplayM σ Raster α) : Prop := ∀ p, p.Sound → c p = unguarded m p

namespace Guards

theorem unguarded (m : ReplayM σ Raster α) : Guards (BandedPage.unguarded m) m := fun _ _ => rfl

theorem pure (a : α) : Guards (Pure.pure a : GuardedM σ α) (Pure.pure a) := fun _ _ => rfl

theorem throw (e : Error) :
    Guards (MonadExcept.throw (Fault.failed e) : GuardedM σ α) (MonadExcept.throw e) :=
  fun _ _ => rfl

theorem bind {c : GuardedM σ α} {m : ReplayM σ Raster α} {f : α → GuardedM σ β}
    {g : α → ReplayM σ Raster β} (hm : Guards c m) (hkeeps : Keeps m)
    (hf : ∀ a, Answers m a → Guards (f a) (g a)) : Guards (c >>= f) (m >>= g) := by
  intro p hp
  apply bind_eq_unguarded (hm p hp)
  intro a p' ha
  have hp' := hkeeps p hp
  rw [ha] at hp'
  exact hf a ⟨p, p', hp, ha⟩ p' hp'

/-- A step that looks at no place comes first. -/
theorem step {m : ReplayM σ Raster α} {f : α → GuardedM σ β} {g : α → ReplayM σ Raster β}
    (hkeeps : Keeps m) (hf : ∀ a, Guards (f a) (g a)) :
    Guards (BandedPage.unguarded m >>= f) (m >>= g) :=
  (unguarded m).bind hkeeps fun a _ => hf a

theorem getState {f : ReplayState → GuardedM σ β} {g : ReplayState → ReplayM σ Raster β}
    (hf : ∀ s, s.tiles.Sound → Guards (f s) (g s)) :
    Guards (BandedPage.unguarded Replay.getState >>= f) (Replay.getState >>= g) :=
  fun p hp => hf p.state hp.tiles p hp

/-- A place that is looked for first is there. -/
theorem found {o : Option α} {a : α} {f : α → GuardedM σ β} {m : ReplayM σ Raster β}
    (ho : o = some a) (hf : Guards (f a) m) : Guards (BandedPage.found o >>= f) m := by
  intro p hp
  rw [ho]
  exact hf p hp

theorem demand {inside : Prop} [Decidable inside] {f : Unit → GuardedM σ β}
    {m : ReplayM σ Raster β} (h : inside) (hf : Guards (f ()) m) :
    Guards (BandedPage.demand inside >>= f) m := by
  intro p hp
  rw [BandedPage.demand, if_pos h]
  exact hf p hp

theorem ite {c : Prop} [Decidable c] {a b : GuardedM σ α} {a' b' : ReplayM σ Raster α}
    (ha : Guards a a') (hb : Guards b b') : Guards (if c then a else b) (if c then a' else b') := by
  split
  · exact ha
  · exact hb

/-- A check, and what goes on if it is passed. -/
theorem check {c : Prop} [Decidable c] {e : Error} {f : PUnit → GuardedM σ α}
    {g : PUnit → ReplayM σ Raster α} (hf : Guards (f ⟨⟩) (g ⟨⟩)) :
    Guards (if c then MonadExcept.throw (Fault.failed e) >>= f else f ⟨⟩)
      (if c then MonadExcept.throw e >>= g else g ⟨⟩) := by
  split
  · exact fun _ _ => rfl
  · exact hf

theorem forM {γ : Type} {c : γ → GuardedM σ PUnit} {m : γ → ReplayM σ Raster PUnit} {l : List γ}
    (h : ∀ a ∈ l, Guards (c a) (m a)) (hkeeps : ∀ a, Keeps (m a)) :
    Guards (l.forM c) (l.forM m) := by
  induction l with
  | nil => exact pure _
  | cons a l ih =>
    apply bind (h a List.mem_cons_self) (hkeeps a)
    intro _ _
    exact ih fun a' ha' => h a' (List.mem_cons_of_mem a ha')

end Guards

/-! ### Parts of commands -/

namespace Guarded

def read (decoder : EStateM Fault σ α) : GuardedM σ α := fun ⟨source, target, state⟩ =>
  match decoder source with
  | .ok a source => .ok a ⟨source, target, state⟩
  | .error e source => .error e ⟨source, target, state⟩

def draw (call : TargetCall) : GuardedM σ Unit := fun ⟨source, target, state⟩ =>
  match call.guarded target with
  | .ok _ target => .ok () ⟨source, target, state⟩
  | .error e target => .error e ⟨source, target, state⟩

def drawVisible (r : Rect) (call : Rect → GuardedM σ Unit) : GuardedM σ Unit := do
  let box ← unguarded clipBox
  let s ← unguarded getState
  (s.visible box r).forM call

/-- The tile last selected, taken out of the arena if it has a place there. -/
def tileOf (s : ReplayState) : GuardedM σ Tile :=
  match s.tiles.slot? s.band.tileIndex with
  | none => unguarded (liftM s.tile)
  | some slot => do
    let data ← found
      (Bits.slice? s.tiles.heap slot.offset (slot.offset + slot.size.dataSize))
    return { id := UInt64.ofNat s.band.tileIndex, size := slot.size, data }

def halftoneColor (s : ReplayState) : GuardedM σ DrawingColor := do
  let tile ← tileOf s
  return .halftone tile s.band.tileColors s.band.tilePhase

def subBitmap? (bits : Bitmap) (rect piece : Rect) : Option Bitmap :=
  if rect.x1 ≤ piece.x1 ∧ rect.y1 ≤ piece.y1 then do
    let start := min ((piece.y1 - rect.y1).toNat * bits.raster) bits.data.size
    let data ← Bits.slice? bits.data start bits.data.size
    return { bits with data, dataX := bits.dataX + (piece.x1 - rect.x1).toNat }
  else none

/-- The planes in a block. A block cannot be cut into pieces of no size; it has no bytes then, and
each plane is the block. -/
def planes? (data : Bytes) (n planeSize : Nat) : Option (List Bytes) :=
  if planeSize = 0 then some (List.replicate n data)
  else (List.range n).mapM fun i => Bits.slice? data (i * planeSize) ((i + 1) * planeSize)

theorem mapM_eq_some {f : α → Option β} {g : α → β} {l : List α} (h : ∀ a ∈ l, f a = some (g a)) :
    l.mapM f = some (l.map g) := by
  induction l with
  | nil => rfl
  | cons a l ih =>
    rw [List.mapM_cons, h a List.mem_cons_self, ih fun a' ha' => h a' (List.mem_cons_of_mem a ha')]
    rfl

/-- A block of the size of its planes can be cut into them. -/
theorem planes?_eq {data : Bytes} {n planeSize : Nat} (h : data.size = n * planeSize) :
    planes? data n planeSize = some (planesOf data n planeSize) := by
  by_cases hzero : planeSize = 0
  · have hdata : data = #[] := by
      rw [hzero, Nat.mul_zero] at h
      exact Array.eq_empty_of_size_eq_zero h
    rw [planes?, if_pos hzero, planesOf, hdata]
    simp [List.map_const']
  · rw [planes?, if_neg hzero]
    apply mapM_eq_some
    intro i hi
    apply Bits.slice?_eq
    · exact Nat.mul_le_mul_right _ (Nat.le_succ i)
    · rw [h]
      exact Nat.mul_le_mul_right _ (List.mem_range.mp hi)

/-- The rows that are left of a bitmap, from the first of a part on, are there. -/
theorem subBitmap?_eq {bits : Bitmap} {rect piece : Rect} (h : rect.HasPixel piece.x1 piece.y1) :
    subBitmap? bits rect piece = some (subBitmap bits rect piece) := by
  have hcut : ∀ i, bits.data.extract (min i bits.data.size) bits.data.size =
      bits.data.extract i bits.data.size := by
    intro i
    rcases le_total i bits.data.size with hi | hi
    · rw [Nat.min_eq_left hi]
    · rw [Nat.min_eq_right hi, Array.extract_empty_of_stop_le_start (le_refl _),
        Array.extract_empty_of_stop_le_start hi]
  rw [subBitmap?, if_pos ⟨h.1, h.2.2.1⟩]
  dsimp only
  rw [Bits.slice?_eq (Nat.min_le_right ..) (le_refl _), hcut]
  rfl

theorem of_answers_lift {x : Except Error α} {a : α}
    (h : Answers (σ := σ) (liftM x) a) : x = .ok a := by
  obtain ⟨p, p', -, ha⟩ := h
  exact of_lift_eq_ok ha

theorem guards_draw (call : TargetCall) (h : call.HasRows) :
    Guards (draw call : GuardedM σ Unit) (Replay.draw call.perform) := by
  intro p hp
  have heq := (hp.target.agrees h).eq
  cases hcall : (call.perform : DrawM Raster Unit) p.target with
  | ok u t =>
    rw [unguarded_of_ok hcall] at heq
    simp only [draw, Replay.draw, BandedPage.unguarded, heq, hcall]
  | error e t =>
    rw [unguarded_of_error hcall] at heq
    simp only [draw, Replay.draw, BandedPage.unguarded, heq, hcall]

/-- A part of a rectangle that is visible begins in it. -/
theorem hasPixel_of_mem_visible {s : ReplayState} {box r piece : Rect}
    (h : piece ∈ s.visible box r) : r.HasPixel piece.x1 piece.y1 := by
  cases hcut : r.intersect box with
  | none =>
    rw [ReplayState.visible, hcut] at h
    cases h
  | some cut =>
    have hcorner : ∀ {part : Rect}, part.x1 < part.x2 → part.y1 < part.y2 →
        part.HasPixel part.x1 part.y1 := fun hx hy => ⟨le_refl _, hx, le_refl _, hy⟩
    have hnonempty := (Rect.intersect_eq_some hcut).2
    suffices hin : cut.HasPixel piece.x1 piece.y1 from
      ((Rect.hasPixel_of_intersect hcut _ _).mp hin).1
    cases hclip : s.activeClip with
    | none =>
      simp only [ReplayState.visible, hcut, hclip, List.mem_singleton] at h
      subst h
      exact hcorner hnonempty.1 hnonempty.2
    | some clip =>
      simp only [ReplayState.visible, hcut, hclip, ClipRegion.intersections] at h
      split at h
      · have hempty : piece.isEmpty = false := by
          apply Rect.isEmpty_of_mem_subtractAll _ piece h
          intro part hpart
          rw [List.mem_singleton.mp hpart, ← Bool.not_eq_true, Rect.isEmpty_iff]
          omega
        rw [← Bool.not_eq_true, Rect.isEmpty_iff] at hempty
        have hpiece : piece.HasPixel piece.x1 piece.y1 := hcorner (by omega) (by omega)
        exact Rect.covered_singleton.mp (Rect.covered_subtractAll.mp ⟨piece, h, hpiece⟩).1
      · obtain ⟨part, -, hpart⟩ := List.mem_filterMap.mp h
        obtain ⟨-, hx, hy⟩ := Rect.intersect_eq_some hpart
        exact ((Rect.hasPixel_of_intersect hpart _ _).mp (hcorner hx hy)).2

/-- A tile that lies in the arena has all its rows. -/
theorem full_of_tile {s : ReplayState} (hs : s.tiles.Sound) {tile : Tile}
    (h : s.tile = .ok tile) : tile.Full := by
  cases hslot : s.tiles.slot? s.band.tileIndex with
  | none =>
    rw [ReplayState.tile, TileArena.tile, hslot] at h
    cases h
  | some slot =>
    rw [ReplayState.tile, TileArena.tile, hslot] at h
    cases h
    have hroom := hs _ slot hslot
    show slot.size.dataSize ≤ _
    rw [Array.size_extract]
    omega

theorem guards_tileOf {s : ReplayState} (hs : s.tiles.Sound) :
    Guards (tileOf s : GuardedM σ Tile) (liftM s.tile) := by
  intro p _
  cases hslot : s.tiles.slot? s.band.tileIndex with
  | none => rw [tileOf, hslot]
  | some slot =>
    rw [tileOf, hslot, ReplayState.tile, TileArena.tile, hslot]
    dsimp only
    rw [Bits.slice?_eq (Nat.le_add_right ..) (hs _ slot hslot)]
    rfl

theorem guards_halftoneColor {s : ReplayState} (hs : s.tiles.Sound) :
    Guards (halftoneColor s : GuardedM σ DrawingColor) (liftM s.halftoneColor) := by
  have hlift : (liftM s.halftoneColor : ReplayM σ Raster DrawingColor) = do
      let tile ← liftM s.tile
      return .halftone tile s.band.tileColors s.band.tilePhase := by
    rw [ReplayState.halftoneColor]
    cases s.tile <;> rfl
  rw [hlift]
  apply (guards_tileOf hs).bind (.lift _)
  intro tile _
  exact .pure _

end Guarded

variable [ByteSource σ]

/-- No command loses what keeps accesses in range. -/
theorem keeps_composing : Composing (σ := σ) (τ := Raster) (fun _ => True) (fun m => Keeps m) where
  prepare := trivial
  currentOffset := trivial
  nextByte := trivial
  take _ := trivial
  varint := trivial
  varints _ := trivial
  signedVarint := trivial
  natural _ := trivial
  naturals _ _ := trivial
  integer := trivial
  single := trivial
  singles _ := trivial
  matrix := trivial
  offsets _ := trivial
  payload _ _ _ := trivial
  color _ _ _ := trivial
  colorDifference _ _ := trivial
  rect _ _ _ := trivial
  header _ := trivial
  order _ _ := trivial
  bases := trivial
  pure _ _ hp := hp
  throw _ _ hp := hp
  bind := .bind
  read {_ decoder} _ := by
    intro p hp
    cases hread : decoder p.source with
    | ok a source =>
      simp only [Replay.read, hread]
      exact ⟨hp.tiles, hp.target⟩
    | error e source =>
      simp only [Replay.read, hread]
      exact ⟨hp.tiles, hp.target⟩
  draw := .draw
  getState _ hp := hp
  modifyState hf p hp := ⟨(hf p.state).symm ▸ hp.tiles, hp.target⟩
  storeTile := .storeTile
  clipBox _ hp := hp

/-! ### The places of operands -/

def readPlaces (i : Nat) : Nat → EStateM Fault σ (List Fixed)
  | 0 => return []
  | 1 => do
    let b ← unguarded nextByte
    if b < 0x40 then
      throw (.failed (.malformed "operand pair in the last operand slot"))
    let d ← unguarded (Offset.decodeAlone b)
    demand (i < 6)
    return [d]
  | n + 2 => do
    let b ← unguarded nextByte
    if b < 0x40 then
      let rest ← unguarded (nextBytes 4)
      let pair := Word.ofBigEndian (b :: rest)
      demand (i < 6)
      demand (i + 1 < 6)
      let tail ← readPlaces (i + 2) n
      return Word.signed 19 (pair >>> 19) :: Word.signed 19 pair :: tail
    else
      let d ← unguarded (Offset.decodeAlone b)
      demand (i < 6)
      let tail ← readPlaces (i + 1) (n + 1)
      return d :: tail

/-- Six places are enough for operands that are no more than six. -/
theorem readPlaces_eq {i n : Nat} (h : i + n ≤ 6) (s : σ) :
    readPlaces i n s = unguarded (Offset.decode n) s := by
  have hplace : ∀ {j : Nat} {α : Type} (f : Unit → EStateM Fault σ α), j < 6 →
      (demand (j < 6) >>= f) = f () := by
    intro j α f hj
    rw [demand, if_pos hj]
    rfl
  induction n using Offset.decode.induct generalizing i s with
  | case1 => rfl
  | case2 =>
    rw [readPlaces, Offset.decode]
    apply bind_eq_unguarded rfl
    intro b s' _
    split
    · rfl
    · apply bind_eq_unguarded rfl
      intro d s'' _
      rw [hplace _ (by omega)]
      rfl
  | case3 n ihPair ihOne =>
    rw [readPlaces, Offset.decode]
    apply bind_eq_unguarded rfl
    intro b s' _
    split
    · apply bind_eq_unguarded rfl
      intro rest s'' _
      rw [hplace _ (by omega), hplace _ (by omega)]
      apply bind_eq_unguarded (ihPair (by omega) s'')
      exact fun _ _ _ => rfl
    · apply bind_eq_unguarded rfl
      intro d s'' _
      rw [hplace _ (by omega)]
      apply bind_eq_unguarded (ihOne (by omega) s'')
      exact fun _ _ _ => rfl

/-! ### Commands -/

namespace Guarded

theorem guards_drawVisible {r : Rect} {call : Rect → GuardedM σ Unit}
    {plain : Rect → DrawM Raster Unit}
    (hcall : ∀ piece, r.HasPixel piece.x1 piece.y1 →
      Guards (call piece) (Replay.draw (plain piece)))
    (hkeeps : ∀ piece, Keeps (Replay.draw (plain piece) : ReplayM σ Raster Unit)) :
    Guards (drawVisible r call) (Replay.drawVisible r plain) := by
  apply Guards.step (keeps_composing (σ := σ)).clipBox
  intro box
  apply Guards.getState
  intro s _
  apply Guards.forM
  · intro piece hpiece
    exact hcall piece (hasPixel_of_mem_visible hpiece)
  · exact hkeeps

def fillRect : GuardedM σ Unit := do
  let s ← unguarded getState
  let r := s.band.rect.toRect
  let color := s.band.colors.one
  match s.collector with
  | some collector =>
    unguarded (modifyState fun s => { s with collector := some (collector.add r) })
  | none =>
    drawVisible r fun piece =>
      if s.band.lopEnabled then
        draw (.stripCopyRop piece none ⟨color, color⟩ s.band.tilePhase s.band.lop)
      else draw (.fillRectangle piece color)

def tileRect : GuardedM σ Unit := do
  let s ← unguarded getState
  let tile ← tileOf s
  drawVisible s.band.rect.toRect fun piece =>
    if s.band.lopEnabled then
      draw (.stripCopyRop piece (some tile) s.band.tileColors s.band.tilePhase s.band.lop)
    else draw (.stripTileRectangle tile piece s.band.tileColors s.band.tilePhase)

def drawingColor (source : ColorSource) : GuardedM σ DrawingColor := do
  let s ← unguarded getState
  match source with
  | .halftone => halftoneColor s
  | source => unguarded (Replay.drawingColor source)

def liftPen (s : ReplayState) : ReplayM σ Raster Unit := do
  let p := s.pen.point
  if s.pen.drawing then
    modifyBand fun band =>
      { band with rect := { band.rect with x := Fixed.floor p.x, y := Fixed.floor p.y } }
  modifyState fun s => { s with pen := s.pen.lifted }

def drawPath (op : PathOp) : GuardedM σ Unit := do
  unguarded (modifyState fun s => { s with imager := { s.imager with logOp := s.band.lop } })
  let s ← unguarded getState
  let path := s.pen.path
  match op with
  | .fill source =>
    let color ← drawingColor source
    draw (.fillPath s.imager path .nonZero color s.activeClip)
  | .evenOddFill source =>
    let color ← drawingColor source
    draw (.fillPath s.imager path .evenOdd color s.activeClip)
  | .stroke source =>
    let color ← drawingColor source
    draw (.strokePath s.imager path color s.activeClip)
  unguarded (liftPen s)

def tileCopy : GuardedM σ (Rect × Bitmap) := do
  let x ← unguarded (Replay.read Varint.decodeInt)
  let y ← unguarded (Replay.read Varint.decodeInt)
  let tile ← tileOf (← unguarded getState)
  let rect := Rect.ofSize x y (Word.wrap32 tile.width) (Word.wrap32 tile.height)
  return (rect, { data := tile.data, raster := tile.raster })

def copySource (flags : UInt8) (depth : Nat) : GuardedM σ (Rect × Bitmap) := do
  let (rect, bits) ←
    if flags &&& Opcode.copyFromTile != 0 then tileCopy
    else unguarded (inlineCopy flags depth)
  unguarded (modifyBand fun band => { band with rect := .ofRect rect })
  return (rect, bits)

def copyMono (flags : UInt8) : GuardedM σ Unit := do
  let (rect, bits) ← copySource flags 1
  let s ← unguarded getState
  if flags &&& Opcode.copyWithTileColor != 0 then
    let color ← halftoneColor s
    draw (.fillMask bits rect color 1 s.band.lop s.activeClip)
  else
    drawVisible rect fun piece => do
      let bits ← found (subBitmap? bits rect piece)
      draw (.copyMono bits piece s.band.colors)

def copyPixels (s : ReplayState) (flags depth : UInt8) : GuardedM σ Unit := do
  let (rect, bits) ← copySource flags depth.toNat
  drawVisible rect fun piece => do
    let bits ← found (subBitmap? bits rect piece)
    if s.band.copiesAlpha then draw (.copyAlpha bits piece s.band.colors.one depth)
    else draw (.copyColor bits piece)

def copyDeep (flags : UInt8) : GuardedM σ Unit := do
  let s ← unguarded getState
  let copiesAlpha := s.band.copiesAlpha
  let depth ← if copiesAlpha then unguarded (Replay.read nextByte)
    else pure (UInt8.ofNat s.config.depth)
  if depth = 0 || 32 < depth then throw (.failed (.malformed s!"copy depth {depth}"))
  copyPixels s flags depth

def extendPath (op : SegmentOp) : GuardedM σ Unit := do
  let operands ← read (readPlaces 0 op.arity)
  let s ← unguarded getState
  let corner : Point := ⟨Fixed.ofPixel s.band.rect.x, Fixed.ofPixel s.band.rect.y⟩
  let pen ← unguarded (liftM ((s.pen.startAt corner).performAll (op.penMoves operands)))
  unguarded (modifyState fun s => { s with pen })

def imageData : GuardedM σ Unit := do
  let height ← unguarded (Replay.read Varint.decode)
  if height = 0 then
    if (← unguarded getState).image.isNone then
      throw (.failed (.malformed "end of image outside an image"))
    unguarded (modifyState fun s => { s with image := none })
    draw .endImage
  else
    let raster ← unguarded (Replay.read Varint.decode)
    let some (header, space) := (← unguarded getState).image
      | throw (.failed (.malformed "image data outside an image"))
    let n := header.planes space
    unguarded (checkSize (raster * n * height))
    let data ← unguarded (Replay.read (ByteSource.take (raster * n * height)))
    let planes ← found (planes? data.toArray n (raster * height))
    draw (.imageData planes 0 raster height)

/-- Keep tile bits, once the arena has been found to have their place, and select them. -/
def storeTile (index offset : Nat) (size : TileSize) (bits : Bytes) : GuardedM σ Unit := do
  let arena := (← unguarded getState).tiles
  let _ ← unguarded (liftM (arena.store index offset size bits))
  let _ ← found (Bits.slice? arena.heap offset (offset + bits.size))
  demand (index < arena.table.size)
  unguarded (Replay.storeTile index offset size bits)

def setTileBits : GuardedM σ Unit := do
  let index ← unguarded (Replay.read Varint.decode)
  let offset ← unguarded (Replay.read Varint.decode)
  let size := (← unguarded getState).tileSize
  let bits ← unguarded (Replay.read (ByteSource.take size.dataSize))
  storeTile index offset size bits.toArray

def setBits : GuardedM σ Unit := do
  let flags ← unguarded (Replay.read nextByte)
  let compression ← unguarded (liftM (Compression.ofCode flags))
  let width ← unguarded (Replay.read Varint.decode)
  let height ← unguarded (Replay.read Varint.decode)
  let index ← unguarded (Replay.read Varint.decode)
  let offset ← unguarded (Replay.read Varint.decode)
  let size := TileSize.single width height (flags >>> 2).toNat
  let bits ← unguarded (Replay.read (Payload.decode compression size.raster height))
  storeTile index offset size bits

/-- Set an order of the halftone. Order `n + 1` belongs to component `n`. -/
def setOrder (index name : Nat) : GuardedM σ Unit := do
  let width ← unguarded (Replay.read Varint.decode)
  let height ← unguarded (Replay.read Varint.decode)
  let raster ← unguarded (Replay.read Varint.decode)
  let shift ← unguarded (Replay.read Varint.decode)
  let levelCount ← unguarded (Replay.read Varint.decode)
  let bitCount ← unguarded (Replay.read Varint.decode)
  let s ← unguarded getState
  let (halftone, _) ← unguarded (liftM (orderOf s.halftone index "order"))
  demand (0 < index → index - 1 < halftone.components.length)
  let halftone := halftone.modifyOrder index fun _ =>
    { width, height, raster, shift, levelCount, bitCount }
  let halftone := halftone.setName index name
  unguarded (modifyState fun s => { s with halftone := some { halftone, index } })

def setHalftoneOrder : GuardedM σ Unit := do
  let index ← unguarded (Replay.read Varint.decode)
  let name ← if 0 < index then unguarded (Replay.read Varint.decode) else pure 0
  setOrder index name

/-- Carry out a command with a look at every place. Other commands than these look at none. -/
def perform : Op → GuardedM σ Unit
  | .control .setTileBits => setTileBits
  | .control .setBits => setBits
  | .control .setHalftoneOrder => setHalftoneOrder
  | .fillRect form n => do
    unguarded (setRect form n)
    fillRect
  | .tileRect form n => do
    unguarded (setRect form n)
    tileRect
  | .copyMono flags => copyMono flags
  | .copyDeep flags => copyDeep flags
  | .state .imageData => imageData
  | .segment op => extendPath op
  | .path op => drawPath op
  | op => unguarded (Replay.perform op)

end Guarded

end Replay

end BandedPage
