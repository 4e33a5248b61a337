import Mathlib
import BandedPage.Proofs.Computation
import BandedPage.Writer.Session

/-!
# What operations on bands keep

An operation on bands asks for memory, looks for tiles and notes which of them a band was sent, and
otherwise changes only what is known of the bands and what is current. What each of these steps keeps
is kept by all operations, whatever becomes of them.
-/

namespace BandedPage.WriterState

variable {μ ν α β : Type}

/-- Whatever comes of the operation, what was so of the state is so then. -/
def Keeps (I : WriterState μ ν → Prop) (op : WriteM μ ν α) : Prop := ∀ s, I s → I (stateOf (op s))

/-- What is so of a state's memory and tiles, and stays so when they are asked for more. -/
structure Stable [MemoryPolicy μ ν] (I : WriterState μ ν → Prop) : Prop where
  of_eq {s s' : WriterState μ ν} (htiles : s'.tiles = s.tiles) (hmemory : s'.memory = s.memory)
    (hs : I s) : I s'
  reserve (n : Nat) {s : WriterState μ ν} (hs : I s) :
    I { s with memory := stateOf ((MemoryPolicy.reserve μ n : EStateM Error ν Unit) s.memory) }
  lookup (id : BitmapId) (size : TileSize) (bits : Bytes) {s : WriterState μ ν} (hs : I s) :
    I { s with tiles := stateOf (TileCache.lookupOrAdd id size bits s.tiles) }
  mark (index band : Nat) {s : WriterState μ ν} (hs : I s) :
    I { s with tiles := s.tiles.markBand index band }

namespace Keeps

variable {I : WriterState μ ν → Prop}

theorem pure (a : α) : Keeps I (pure a : WriteM μ ν α) := fun _ hs => hs

theorem throw (e : Error) : Keeps I (throw e : WriteM μ ν α) := fun _ hs => hs

theorem get : Keeps I (get : WriteM μ ν _) := fun _ hs => hs

theorem lift (x : Except Error α) : Keeps I (liftM x : WriteM μ ν α) := by
  intro s hs
  cases x <;> exact hs

theorem bind {op : WriteM μ ν α} {f : α → WriteM μ ν β} (h : Keeps I op) (hf : ∀ a, Keeps I (f a)) :
    Keeps I (op >>= f) := by
  intro s hs
  have hop := h s hs
  cases hrun : op s with
  | ok a s' =>
    rw [hrun] at hop
    rw [bind_of_ok hrun]
    exact hf a s' hop
  | error e s' =>
    rw [hrun] at hop
    rw [bind_of_error hrun]
    exact hop

theorem tryCatch {op : WriteM μ ν α} {f : Error → WriteM μ ν α} (h : Keeps I op)
    (hf : ∀ e, Keeps I (f e)) : Keeps I (tryCatch op f) := by
  intro s hs
  have hop := h s hs
  rw [tryCatch_run]
  cases hrun : op s with
  | ok a s' =>
    rw [hrun] at hop
    exact hop
  | error e s' =>
    rw [hrun] at hop
    exact hf e s' hop

theorem forM {op : α → WriteM μ ν Unit} (h : ∀ a, Keeps I (op a)) (l : List α) :
    Keeps I (l.forM op) := by
  induction l with
  | nil => exact pure ()
  | cons a l ih => exact (h a).bind fun _ => ih

end Keeps

namespace Stable

variable [MemoryPolicy μ ν] {I : WriterState μ ν → Prop} (h : Stable I)

include h

protected theorem modify {f : WriterState μ ν → WriterState μ ν} (htiles : ∀ s, (f s).tiles = s.tiles)
    (hmemory : ∀ s, (f s).memory = s.memory) : Keeps I (modify f : WriteM μ ν _) :=
  fun s hs => h.of_eq (htiles s) (hmemory s) hs

theorem onBuffer (m : BufferM μ α) : Keeps I (onBuffer m : WriteM μ ν α) := by
  intro s hs
  rw [WriterState.onBuffer]
  split
  · exact h.of_eq (s := s) rfl rfl hs
  · exact h.of_eq (s := s) rfl rfl hs

theorem lookupOrAdd (id : BitmapId) (size : TileSize) (bits : Bytes) :
    Keeps I (onTiles (TileCache.lookupOrAdd id size bits) : WriteM μ ν _) := by
  intro s hs
  have hlookup := h.lookup id size bits hs
  rw [onTiles]
  cases hrun : TileCache.lookupOrAdd id size bits s.tiles <;>
  · rw [hrun] at hlookup
    exact hlookup

/-! ### What drafts are drawn up from -/

theorem adoptFields (new : ImagerState) (fields : List StateField) :
    Keeps I (adoptFields new fields : WriteM μ ν FieldSet) := by
  induction fields with
  | nil => exact .pure _
  | cons f fields ih =>
    refine .bind .get fun s => ?_
    split
    · have hrest : Keeps I (do
          modify fun s => { s with imager := s.imager.withField new f }
          return (← WriterState.adoptFields new fields).insert f : WriteM μ ν FieldSet) :=
        .bind (h.modify (fun _ => rfl) fun _ => rfl) fun _ => .bind ih fun _ => .pure _
      split
      · exact .bind (.lift _) fun _ => hrest
      · exact hrest
    · exact ih

theorem updateImager (new : ImagerState) (selected : FieldSet) :
    Keeps I (updateImager new selected : WriteM μ ν Unit) :=
  .bind (h.adoptFields new _) fun _ => h.modify (fun _ => rfl) fun _ => rfl

theorem cacheTile (tile : Tile) : Keeps I (cacheTile tile : WriteM μ ν Nat) := by
  refine .bind .get fun s => ?_
  split
  · exact .pure _
  · exact .bind (h.lookupOrAdd _ _ _) fun _ => .pure _

theorem cachePlace (id : BitmapId) (size : TileSize) (rows : Bytes) :
    Keeps I (cachePlace id size rows : WriteM μ ν (Option Nat)) := by
  refine .tryCatch (.bind (h.lookupOrAdd _ _ _) fun _ => .pure _) fun e => ?_
  split
  · exact .pure _
  · exact .throw _

theorem cacheCopy (c : BitmapCopy) (id : BitmapId) :
    Keeps I (cacheCopy c id : WriteM μ ν _) := by
  refine .bind .get fun s => ?_
  dsimp only
  split
  · exact .pure _
  · refine .bind (.lift _) fun rows => .bind (h.cachePlace id _ rows) fun place => ?_
    split
    · exact .bind .get fun _ => .pure _
    · exact .pure _

theorem sendCopy (d : BandDraft) (c : BitmapCopy) :
    Keeps I (sendCopy d c : WriteM μ ν BandDraft) := by
  refine .bind .get fun s => ?_
  cases hname : c.name with
  | none => exact .bind (.pure none) (Option.forall.mpr ⟨.lift _, fun _ => .pure _⟩)
  | some id =>
    exact .bind (h.cacheCopy c id) fun _ =>
      .bind (.pure _) (Option.forall.mpr ⟨.lift _, fun _ => .pure _⟩)

omit h [MemoryPolicy μ ν] in
theorem tellColored (d : BandDraft) (bases : List UInt8) (levels : List Nat) :
    Keeps I (tellColored d bases levels : WriteM μ ν BandDraft) := by
  refine .bind .get fun s => ?_
  dsimp only
  split
  · exact .throw _
  · exact .pure _

variable [Medium μ]

theorem putBatch (whom : Addressee) (batch : List Command) :
    Keeps I (putBatch whom batch : WriteM μ ν Unit) := by
  have hreserve : Keeps I (onMemory (MemoryPolicy.reserve μ batch.flatten.length) :
      WriteM μ ν Unit) := by
    intro s hs
    have hasked := h.reserve batch.flatten.length hs
    rw [onMemory]
    cases hrun : (MemoryPolicy.reserve μ batch.flatten.length : EStateM Error ν Unit) s.memory <;>
    · rw [hrun] at hasked
      exact hasked
  rw [WriterState.putBatch]
  split
  · exact .bind hreserve fun _ => h.onBuffer _
  · exact .pure _

theorem putAllBands (batch : List Command) : Keeps I (putAllBands batch : WriteM μ ν Unit) :=
  .bind .get fun _ => h.putBatch _ batch

theorem putPageState : Keeps I (putPageState : WriteM μ ν Unit) := by
  have hoption : ∀ {β : Type} (x : Option β) (op : β → WriteM μ ν Unit),
      (∀ b, Keeps I (op b)) → Keeps I (x.forM op) := by
    intro β x op hop
    cases x with
    | none => exact .pure ()
    | some b => exact hop b
  refine .bind .get fun s => .bind (hoption s.params _ fun _ => h.putAllBands _) fun _ => ?_
  refine .bind (hoption s.halftone _ fun _ => h.putAllBands _) fun _ => ?_
  exact .forM (fun (map, index) => hoption map _ fun _ => h.putAllBands _) _

theorem commit (d : BandDraft) : Keeps I (commit d : WriteM μ ν Unit) := by
  have hmarks : ∀ (sent : List Nat) (s : WriterState μ ν), I s →
      I { s with tiles := sent.foldl (·.markBand · d.band) s.tiles } := by
    intro sent
    induction sent with
    | nil => exact fun s hs => hs
    | cons i sent ih => exact fun s hs => ih { s with tiles := _ } (h.mark i d.band hs)
  refine .bind (h.putBatch _ _) fun _ s hs => ?_
  exact h.of_eq (s := { s with tiles := d.sent.foldl (·.markBand · d.band) s.tiles }) rfl rfl
    (hmarks d.sent s hs)

theorem announceTileSize (size : TileSize) :
    Keeps I (announceTileSize size : WriteM μ ν Unit) := by
  refine .bind .get fun s => ?_
  split
  · exact .bind (h.putAllBands _) fun _ => h.modify (fun _ => rfl) fun _ => rfl
  · exact .pure _

theorem selectTile (d : BandDraft) (tile : Tile) :
    Keeps I (selectTile d tile : WriteM μ ν BandDraft) := by
  refine .bind (h.cacheTile tile) fun index => .bind .get fun s => ?_
  split
  · next entry _ =>
    dsimp only
    split
    · exact .pure _
    · refine .bind (h.announceTileSize entry.slot.size) fun _ => .bind .get fun s' => ?_
      split
      · exact .pure _
      · exact .throw _
  · exact .throw _

theorem useTile (d : BandDraft) (tile : Tile) (colors : ColorPair) (phase : Phase) :
    Keeps I (useTile d tile colors phase : WriteM μ ν BandDraft) :=
  .bind (h.selectTile d tile) fun _ => .bind .get fun _ => .pure _

theorem useDrawingColor (d : BandDraft) (color : DrawingColor) :
    Keeps I (useDrawingColor d color : WriteM μ ν (ColorSource × BandDraft)) := by
  cases color with
  | pure color => exact .bind .get fun _ => .pure _
  | halftone tile colors phase => exact .bind (h.useTile d tile colors phase) fun _ => .pure _
  | colored bases levels => exact .bind (tellColored d bases levels) fun _ => .pure _

theorem usePaint (d : BandDraft) (paint : CopyPaint) :
    Keeps I (usePaint d paint : WriteM μ ν BandDraft) := by
  refine .bind .get fun s => ?_
  cases paint with
  | mono colors => exact .pure _
  | deep => exact .pure _
  | coverage color depth => exact .pure _
  | halftone tile colors phase => exact h.useTile d tile colors phase

/-! ### Operations on bands -/

theorem fillBand (band : Nat) (r : Rect) (color : Color) :
    Keeps I (fillBand band r color : WriteM μ ν Unit) :=
  .bind .get fun _ => .bind .get fun _ => h.commit _

theorem tileBand (band : Nat) (r : Rect) (tile : Tile) (colors : ColorPair) (phase : Phase) :
    Keeps I (tileBand band r tile colors phase : WriteM μ ν Unit) :=
  .bind .get fun _ => .bind .get fun _ => .bind (h.selectTile _ tile) fun _ => h.commit _

theorem pathBand (band : Nat) (p : PathDrawing) (rows : RowRange) :
    Keeps I (pathBand band p rows : WriteM μ ν Unit) :=
  .bind .get fun _ => .bind .get fun _ => .bind .get fun _ =>
    .bind (h.useDrawingColor _ p.color) fun _ => h.commit _

theorem copyBand (band : Nat) (c : BitmapCopy) :
    Keeps I (copyBand band c : WriteM μ ν Unit) :=
  .bind .get fun _ => .bind .get fun _ => .bind .get fun _ =>
    .bind (h.usePaint _ c.paint) fun d => .bind (h.sendCopy d c) fun _ => h.commit _

theorem beginImageBand (band : Nat) (im : OpenImage) :
    Keeps I (beginImageBand band im : WriteM μ ν Unit) := by
  have hspace : ∀ s : WriterState μ ν, (s.useColorSpace im.space).tiles = s.tiles ∧
      (s.useColorSpace im.space).memory = s.memory := by
    intro s
    rw [useColorSpace]
    split <;> exact ⟨rfl, rfl⟩
  refine .bind (h.modify (fun s => (hspace s).1) fun s => (hspace s).2) fun _ => ?_
  refine .bind (h.updateImager im.state _) fun _ => .bind .get fun s => .bind .get fun _ => ?_
  exact .bind .get fun _ => .bind (.lift _) fun _ => h.commit _

theorem imageDataBand (band : Nat) (rows : Command) :
    Keeps I (imageDataBand band rows : WriteM μ ν Unit) := by
  refine .bind .get fun s => ?_
  split
  · next im _ =>
    split
    · refine .bind (h.beginImageBand band im) fun _ => ?_
      exact .bind (h.modify (fun _ => rfl) fun _ => rfl) fun _ => h.putBatch _ _
    · exact h.putBatch _ _
  · exact .throw _

theorem endImageBand (band : Nat) : Keeps I (endImageBand band : WriteM μ ν Unit) := by
  refine .bind .get fun s => ?_
  split
  · exact h.putBatch _ _
  · exact .pure _

end Stable

end BandedPage.WriterState
