import Mathlib
import BandedPage.Proofs.Computation
import BandedPage.Proofs.Imager.Agreement
import BandedPage.Proofs.Tile.Lookup
import BandedPage.Proofs.Writer.Buffer
import BandedPage.Proofs.Writer.Watched
import BandedPage.Writer.Copy
import BandedPage.Writer.Image
import BandedPage.Writer.Page
import BandedPage.Writer.Path
import BandedPage.Writer.Rectangle

/-!
# Band operations that were refused memory

A band operation that is refused memory may have got a tile into the cache, told all bands a
geometry or begun an image. Done again from there, it does what it would have done from the
beginning: `Resumes` says so of an operation, compared with itself where memory has no limit.
-/

namespace BandedPage

namespace CommandBuffer

variable {μ : Type} [Medium μ] [LawfulMedium μ] {b : CommandBuffer μ}

/-- The store is in order. -/
def Stored (b : CommandBuffer μ) : Prop := ∃ entries, b.store.Contains entries

theorem Stored.turnTo (h : b.Stored) (whom : Addressee) :
    ∃ b', CommandBuffer.turnTo whom b = .ok () b' ∧ b'.Stored := by
  obtain ⟨entries, hc⟩ := h
  cases whom with
  | band i => exact ⟨b, rfl, entries, hc⟩
  | range bands =>
    simp only [CommandBuffer.turnTo, get_bind_run]
    split
    · obtain ⟨store, hc', hflush, -⟩ := flush_eq hc Opcode.endRun
      exact ⟨_, bind_of_ok hflush _, _, hc'⟩
    · exact ⟨_, rfl, entries, hc⟩

theorem Stored.appendOne (h : b.Stored) (whom : Addressee) (c : Command) :
    ∃ b', CommandBuffer.appendOne whom c b = .ok () b' ∧ b'.Stored := by
  obtain ⟨b₁, hturn, entries₁, hc₁⟩ := h.turnTo whom
  rw [CommandBuffer.appendOne, bind_of_ok hturn, get_bind_run]
  have hhold : ∀ b₂ : CommandBuffer μ, (b₂.hold whom c).store = b₂.store := fun b₂ => by
    cases whom <;> rfl
  split
  · obtain ⟨store, hc₂, hflush, -⟩ := flush_eq hc₁ Opcode.endRun
    refine ⟨_, bind_of_ok hflush _, entries₁ ++ b₁.flushed Opcode.endRun, ?_⟩
    rw [hhold]
    exact hc₂
  · refine ⟨_, rfl, entries₁, ?_⟩
    rw [hhold]
    exact hc₁

theorem Stored.forM_appendOne (h : b.Stored) (whom : Addressee) (batch : List Command) :
    ∃ b', batch.forM (CommandBuffer.appendOne whom) b = .ok () b' ∧ b'.Stored := by
  induction batch generalizing b with
  | nil => exact ⟨b, rfl, h⟩
  | cons c batch ih =>
    obtain ⟨b₁, hrun, h₁⟩ := h.appendOne whom c
    obtain ⟨b₂, hrun₂, h₂⟩ := ih h₁
    exact ⟨b₂, (bind_of_ok hrun _).trans hrun₂, h₂⟩

/-- A batch is held, or one of its commands is too long. -/
theorem Stored.append (h : b.Stored) (whom : Addressee) (batch : List Command) :
    (∃ b', CommandBuffer.append whom batch b = .ok () b' ∧ b'.Stored) ∨
      ∃ n, CommandBuffer.append whom batch b = .error (.commandTooLarge n b.capacity) b := by
  simp only [CommandBuffer.append, get_bind_run]
  split
  · exact .inr ⟨_, rfl⟩
  · exact .inl (h.forM_appendOne whom batch)

end CommandBuffer

/-- A failure of the computation is no lack of memory. -/
def NeverLacks {α : Type} (x : Except Error α) : Prop := ∀ e, x = .error e → e.isRetryable = false

namespace NeverLacks

variable {α β : Type}

theorem ok (a : α) : NeverLacks (.ok a : Except Error α) := fun _ h => by cases h

theorem malformed (text : String) : NeverLacks (.error (.malformed text) : Except Error α) :=
  fun _ h => by cases h; rfl

theorem bind {x : Except Error α} {f : α → Except Error β} (hx : NeverLacks x)
    (hf : ∀ a, NeverLacks (f a)) : NeverLacks (x >>= f) := by
  intro e he
  cases x with
  | ok a => exact hf a e he
  | error e' =>
    cases he
    exact hx e rfl

theorem foldlM {f : β → α → Except Error β} (hf : ∀ b a, NeverLacks (f b a)) (l : List α) (b : β) :
    NeverLacks (l.foldlM f b) := by
  induction l generalizing b with
  | nil => exact .ok b
  | cons a l ih => exact (hf b a).bind ih

theorem mapM {f : α → Except Error β} (hf : ∀ a, NeverLacks (f a)) (l : List α) :
    NeverLacks (l.mapM f) := by
  induction l with
  | nil => exact .ok []
  | cons a l ih =>
    rw [List.mapM_cons]
    exact (hf a).bind fun b => ih.bind fun _ => .ok _

theorem spanFoldlM {f : β → Span → Except Error β} (hf : ∀ b a, NeverLacks (f b a))
    (period origin lo hi : Int) (b : β) : NeverLacks (Span.foldlM period origin lo hi f b) := by
  rw [Span.foldlM_eq_cut]
  exact foldlM hf _ b

theorem extract (data : Bytes) (raster x width rows : Nat) :
    NeverLacks (Bits.extract data raster x width rows) := by
  rw [Bits.extract]
  split
  · exact .malformed _
  · exact .ok _

theorem choose (rows : Bytes) (raster height : Nat) (methods : CompressionSet) (readerSize : Nat) :
    NeverLacks (Payload.choose rows raster height methods readerSize) := by
  simp only [Payload.choose]
  split
  · exact .ok _
  · split
    · exact fun _ h => by cases h; rfl
    · exact .ok _

theorem sendPieces (c : BitmapCopy) (config : Config) (d : BandDraft) :
    NeverLacks (c.sendPieces config d) :=
  spanFoldlM (fun _ _ => spanFoldlM (fun _ _ =>
    bind (extract _ _ _ _ _) fun _ => bind (choose _ _ _ _ _) fun _ => .ok _) _ _ _ _ _) _ _ _ _ _

theorem imageBegin (h : ImageHeader) (cs : ColorSpace) : NeverLacks (Command.imageBegin h cs) := by
  have hcode : NeverLacks h.sampleCode := by
    rw [ImageHeader.sampleCode]
    split
    · exact .ok _
    · split <;> first | exact .ok _ | exact .malformed _
  have hranges : NeverLacks (h.decodeBytes cs) := by
    simp only [ImageHeader.decodeBytes]
    split
    · exact .ok _
    · split
      · exact .malformed _
      · split <;> exact .ok _
  exact (hcode.bind fun _ => hranges.bind fun _ => .ok _).bind fun _ => .ok _

end NeverLacks

namespace WriterState

section

variable {μ ν : Type}

def unlimited (s : WriterState μ ν) : WriterState μ Unlimited := { s with memory := {} }

/-- The bands that the image touches, and how many bands it may have begun in. -/
def imageBands (s : WriterState μ ν) : Option (Option BandRange × Nat) :=
  s.image.map fun im => (im.bands, im.started.capacity)

/-- Drafts are drawn up in the same way from both states. -/
structure SameDrafts (s s' : WriterState μ ν) : Prop where
  config : s'.config = s.config
  bands : s'.bands = s.bands
  imager : s'.imager = s.imager
  clipId : s'.clipId = s.clipId
  colorSpace : s'.colorSpace = s.colorSpace
  image : s'.image = s.image

theorem SameDrafts.refl (s : WriterState μ ν) : s.SameDrafts s := ⟨rfl, rfl, rfl, rfl, rfl, rfl⟩

theorem SameDrafts.trans {s s' s'' : WriterState μ ν} (h : s.SameDrafts s')
    (h' : s'.SameDrafts s'') : s.SameDrafts s'' :=
  ⟨h'.config.trans h.config, h'.bands.trans h.bands, h'.imager.trans h.imager,
    h'.clipId.trans h.clipId, h'.colorSpace.trans h.colorSpace, h'.image.trans h.image⟩

end

variable {μ ν α β : Type} [Medium μ] [LawfulMedium μ]

/-- No page was rendered on the way, the store is in order, and the image is the one it was, if one
is being written. -/
structure Stays (s s' : WriterState μ (Watched μ ν)) : Prop where
  rendered : s'.memory.rendered = s.memory.rendered
  stored : s'.buffer.Stored
  config : s'.config = s.config
  imageBands : s'.imageBands = s.imageBands

theorem Stays.trans {s s' s'' : WriterState μ (Watched μ ν)} (h : s.Stays s') (h' : s'.Stays s'') :
    s.Stays s'' :=
  ⟨h'.rendered.trans h.rendered, h'.stored, h'.config.trans h.config,
    h'.imageBands.trans h.imageBands⟩

/-- Neither the memory nor what is held was touched. -/
theorem Stays.of_eq {s s' : WriterState μ (Watched μ ν)} (h : s.buffer.Stored)
    (hmemory : s'.memory = s.memory) (hbuffer : s'.buffer = s.buffer)
    (hconfig : s'.config = s.config) (himage : s'.imageBands = s.imageBands) : s.Stays s' :=
  ⟨by rw [hmemory], by rwa [hbuffer], hconfig, himage⟩

/-- What an operation answers in a state that is `ok` is what `op'` answers without a limit; refused
memory, it has done nothing that `op'` would not do. -/
def ResumesWhen (ok : WriterState μ (Watched μ ν) → Prop) (op : WriteM μ (Watched μ ν) α)
    (op' : WriteM μ Unlimited α) : Prop :=
  ∀ s, s.buffer.Stored → ok s → match op s with
    | .ok a s' => s.Stays s' ∧ op' s.unlimited = .ok a s'.unlimited
    | .error e s' => s.Stays s' ∧
      if e.isRetryable then op' s'.unlimited = op' s.unlimited
      else op' s.unlimited = .error e s'.unlimited

/-- The operation resumes from every state. -/
def Resumes (op : WriteM μ (Watched μ ν) α) (op' : WriteM μ Unlimited α) : Prop :=
  ResumesWhen (fun _ => True) op op'

/-- The operation resumes, and when it is refused memory it has done nothing at all. -/
def Atomic (op : WriteM μ (Watched μ ν) α) (op' : WriteM μ Unlimited α) : Prop :=
  ∀ s, s.buffer.Stored → match op s with
    | .ok a s' => s.Stays s' ∧ op' s.unlimited = .ok a s'.unlimited
    | .error e s' => s.Stays s' ∧
      if e.isRetryable then s'.unlimited = s.unlimited
      else op' s.unlimited = .error e s'.unlimited

theorem Atomic.resumes {op : WriteM μ (Watched μ ν) α} {op' : WriteM μ Unlimited α}
    (h : Atomic op op') : Resumes op op' := by
  intro s hs _
  have := h s hs
  split
  · next a s' heq =>
    rw [heq] at this
    exact this
  · next e s' heq =>
    rw [heq] at this
    refine ⟨this.1, ?_⟩
    split
    · next hretry => rw [show s'.unlimited = s.unlimited by simpa [hretry] using this.2]
    · next hretry => simpa [hretry] using this.2

/-- The operation resumes, leaves what drafts are drawn up from, and does nothing where it has
succeeded. -/
def Prepares (op : WriteM μ (Watched μ ν) α) (op' : WriteM μ Unlimited α) : Prop :=
  ∀ s, s.buffer.Stored → match op s with
    | .ok a s' => s.Stays s' ∧ s.SameDrafts s' ∧ op' s.unlimited = .ok a s'.unlimited ∧
      op' s'.unlimited = .ok a s'.unlimited
    | .error e s' => s.Stays s' ∧ s.SameDrafts s' ∧
      if e.isRetryable then op' s'.unlimited = op' s.unlimited
      else op' s.unlimited = .error e s'.unlimited

/-- An operation is resumed if what leads to its last step is prepared. -/
theorem Resumes.of_prepares {op : WriteM μ (Watched μ ν) β} {op' : WriteM μ Unlimited β}
    (prepare : WriterState μ (Watched μ ν) → WriteM μ (Watched μ ν) α)
    (prepare' : WriterState μ Unlimited → WriteM μ Unlimited α)
    {last : α → WriteM μ (Watched μ ν) β} {last' : α → WriteM μ Unlimited β}
    (hop : ∀ s, op s = (prepare s >>= last) s) (hop' : ∀ s, op' s = (prepare' s >>= last') s)
    (hprepare : ∀ s, Prepares (prepare s) (prepare' s.unlimited))
    (hsame : ∀ s s' : WriterState μ Unlimited, s.SameDrafts s' → prepare' s' = prepare' s)
    (hlast : ∀ a, Atomic (last a) (last' a)) : Resumes op op' := by
  intro s hs _
  have hp := hprepare s s hs
  rw [hop]
  have hsame' : ∀ {s' : WriterState μ (Watched μ ν)}, s.SameDrafts s' →
      prepare' s'.unlimited = prepare' s.unlimited := fun {s'} h => by
    obtain ⟨hconfig, hbands, himager, hclipId, hcolorSpace, himage⟩ := h
    exact hsame _ _ ⟨hconfig, hbands, himager, hclipId, hcolorSpace, himage⟩
  cases hrun : prepare s s with
  | error e s₁ =>
    rw [hrun] at hp
    obtain ⟨hstays, hdrafts, hresult⟩ := hp
    rw [bind_of_error hrun]
    refine ⟨hstays, ?_⟩
    split
    · next hretry =>
      rw [if_pos hretry] at hresult
      rw [hop', hop', hsame' hdrafts]
      exact bind_of_same hresult _
    · next hretry =>
      rw [if_neg hretry] at hresult
      rw [hop']
      exact bind_of_error hresult _
  | ok a s₁ =>
    rw [hrun] at hp
    obtain ⟨hstays, hdrafts, hresult, hagain⟩ := hp
    rw [bind_of_ok hrun]
    have hl := hlast a s₁ hstays.stored
    have hrun' : op' s.unlimited = last' a s₁.unlimited := by
      rw [hop']
      exact bind_of_ok hresult _
    cases hlastRun : last a s₁ with
    | ok b s₂ =>
      rw [hlastRun] at hl
      exact ⟨hstays.trans hl.1, hrun'.trans hl.2⟩
    | error e s₂ =>
      rw [hlastRun] at hl
      refine ⟨hstays.trans hl.1, ?_⟩
      split
      · next hretry =>
        have hsame₂ : s₂.unlimited = s₁.unlimited := by simpa [hretry] using hl.2
        rw [hrun', hsame₂, hop', hsame' hdrafts]
        exact bind_of_ok hagain _
      · next hretry =>
        rw [hrun']
        simpa [hretry] using hl.2

variable [MemoryPolicy μ ν]

omit [Medium μ] [LawfulMedium μ] [MemoryPolicy μ ν] in
theorem onMemory_of_ok' {m : EStateM Error ν Unit} {s : WriterState μ (Watched μ ν)} {memory : ν}
    (h : m s.memory.memory = .ok () memory) :
    onMemory (Watched.onMemory m) s = .ok () { s with memory := { s.memory with memory } } := by
  simp only [onMemory, Watched.onMemory, h]

theorem atomic_putBatch (hlack : MemoryPolicy.RefusesForLack μ ν) (whom : Addressee)
    (batch : List Command) :
    Atomic (putBatch whom batch : WriteM μ (Watched μ ν) Unit) (putBatch whom batch) := by
  intro s hs
  by_cases hempty : (!batch.isEmpty) = true
  · simp only [putBatch, if_pos hempty]
    cases hreserve : (MemoryPolicy.reserve μ batch.flatten.length s.memory.memory :
        EStateM.Result Error ν Unit) with
    | ok u memory =>
      have hrun : onMemory (MemoryPolicy.reserve μ batch.flatten.length) s =
          .ok () { s with memory := { s.memory with memory } } := onMemory_of_ok' hreserve
      rw [bind_of_ok hrun]
      have hrun' : onMemory (MemoryPolicy.reserve μ batch.flatten.length) s.unlimited =
          .ok () s.unlimited := rfl
      rw [bind_of_ok hrun']
      rcases hs.append whom batch with ⟨b', happend, hs'⟩ | ⟨n, happend⟩
      · simp only [onBuffer, unlimited, happend]
        exact ⟨⟨rfl, hs', rfl, rfl⟩, trivial⟩
      · simp only [onBuffer, unlimited, happend]
        exact ⟨⟨rfl, hs, rfl, rfl⟩, trivial⟩
    | error e memory =>
      have hrun : onMemory (MemoryPolicy.reserve μ batch.flatten.length) s =
          .error e { s with memory := { s.memory with memory } } := by
        simp only [onMemory, MemoryPolicy.reserve, Watched.onMemory, hreserve]
      rw [bind_of_error hrun]
      refine ⟨⟨rfl, hs, rfl, rfl⟩, ?_⟩
      rw [if_pos (hlack _ _ _ _ hreserve)]
      rfl
  · simp only [putBatch, if_neg hempty]
    exact ⟨.of_eq hs rfl rfl rfl rfl, rfl⟩

omit [MemoryPolicy μ ν] in
/-- A last change that has nothing to do with memory. -/
theorem Atomic.modify {op : WriteM μ (Watched μ ν) α} {op' : WriteM μ Unlimited α}
    (h : Atomic op op') (f : WriterState μ (Watched μ ν) → WriterState μ (Watched μ ν))
    (f' : WriterState μ Unlimited → WriterState μ Unlimited)
    (hf : ∀ s, (f s).memory = s.memory ∧ (f s).buffer = s.buffer ∧ (f s).config = s.config ∧
      (f s).imageBands = s.imageBands ∧ (f s).unlimited = f' s.unlimited) :
    Atomic (op >>= fun _ => modify f) (op' >>= fun _ => modify f') := by
  intro s hs
  have ho := h s hs
  cases hrun : op s with
  | ok a s' =>
    rw [hrun] at ho
    obtain ⟨hstays, hresult⟩ := ho
    rw [bind_of_ok hrun, bind_of_ok hresult]
    obtain ⟨hmemory, hbuffer, hconfig, himage, hsame⟩ := hf s'
    refine ⟨hstays.trans (.of_eq hstays.stored hmemory hbuffer hconfig himage), ?_⟩
    simp [hsame]
  | error e s' =>
    rw [hrun] at ho
    rw [bind_of_error hrun]
    refine ⟨ho.1, ?_⟩
    split
    · next hretry => simpa [hretry] using ho.2
    · next hretry => exact bind_of_error (by simpa [hretry] using ho.2) _

theorem atomic_commit (hlack : MemoryPolicy.RefusesForLack μ ν) (d : BandDraft) :
    Atomic (commit d : WriteM μ (Watched μ ν) Unit) (commit d) :=
  (atomic_putBatch hlack _ _).modify _ _ fun _ => ⟨rfl, rfl, rfl, rfl, rfl⟩

theorem atomic_putAllBands (hlack : MemoryPolicy.RefusesForLack μ ν) (batch : List Command) :
    Atomic (putAllBands batch : WriteM μ (Watched μ ν) Unit) (putAllBands batch) :=
  fun s hs => atomic_putBatch hlack (.range s.config.allBands) batch s hs

theorem atomic_announceTileSize (hlack : MemoryPolicy.RefusesForLack μ ν) (size : TileSize) :
    Atomic (announceTileSize size : WriteM μ (Watched μ ν) Unit) (announceTileSize size) := by
  intro s hs
  by_cases hsize : s.tileSize ≠ some size
  · have hrun : announceTileSize size s = (putAllBands [Command.tileSize size] >>= fun _ =>
        modify fun s => { s with tileSize := some size }) s := by
      simp only [announceTileSize, get_bind_run, if_pos hsize]
    have hrun' : announceTileSize size s.unlimited =
        (putAllBands [Command.tileSize size] >>= fun _ =>
          modify fun s => { s with tileSize := some size }) s.unlimited := by
      simp only [announceTileSize, get_bind_run, unlimited, if_pos hsize]
    rw [hrun, hrun']
    exact (atomic_putAllBands hlack _).modify (fun s => { s with tileSize := some size })
      (fun s => { s with tileSize := some size }) (fun _ => ⟨rfl, rfl, rfl, rfl, rfl⟩) s hs
  · have hrun : announceTileSize size s = .ok () s := by
      simp only [announceTileSize, get_bind_run, if_neg hsize]
      rfl
    have hrun' : announceTileSize size s.unlimited = .ok () s.unlimited := by
      simp only [announceTileSize, get_bind_run, unlimited, if_neg hsize]
      rfl
    rw [hrun]
    exact ⟨.of_eq hs rfl rfl rfl rfl, hrun'⟩

omit [LawfulMedium μ] in
/-- A batch touches nothing but the memory and what is held. -/
theorem putBatch_eq (whom : Addressee) (batch : List Command) (s : WriterState μ ν) :
    ∃ memory buffer, putBatch whom batch s = .ok () { s with memory, buffer } ∨
      ∃ e, putBatch whom batch s = .error e { s with memory, buffer } := by
  by_cases hempty : (!batch.isEmpty) = true
  · simp only [putBatch, if_pos hempty]
    cases hreserve : (MemoryPolicy.reserve μ batch.flatten.length s.memory :
        EStateM.Result Error ν Unit) with
    | ok u memory =>
      have hrun : onMemory (MemoryPolicy.reserve μ batch.flatten.length) s =
          .ok () { s with memory } := by
        simp only [onMemory, hreserve]
      rw [bind_of_ok hrun]
      cases happend : CommandBuffer.append whom batch s.buffer with
      | ok u buffer => exact ⟨memory, buffer, .inl (by simp only [onBuffer, happend])⟩
      | error e buffer => exact ⟨memory, buffer, .inr ⟨e, by simp only [onBuffer, happend]⟩⟩
    | error e memory =>
      have hrun : onMemory (MemoryPolicy.reserve μ batch.flatten.length) s =
          .error e { s with memory } := by
        simp only [onMemory, hreserve]
      exact ⟨memory, s.buffer, .inr ⟨e, bind_of_error hrun _⟩⟩
  · simp only [putBatch, if_neg hempty]
    exact ⟨s.memory, s.buffer, .inl rfl⟩

omit [LawfulMedium μ] in
/-- Announcing a geometry touches nothing else but the memory and what is held. -/
theorem announceTileSize_eq (size : TileSize) (s : WriterState μ ν) :
    ∃ memory buffer, announceTileSize size s =
        .ok () { s with memory, buffer, tileSize := some size } ∨
      ∃ e, announceTileSize size s = .error e { s with memory, buffer } := by
  by_cases hsize : s.tileSize ≠ some size
  · simp only [announceTileSize, get_bind_run, if_pos hsize, putAllBands]
    obtain ⟨memory, buffer, hput | ⟨e, hput⟩⟩ :=
      putBatch_eq (.range s.config.allBands) [Command.tileSize size] s
    · exact ⟨memory, buffer, .inl (bind_of_ok hput _)⟩
    · exact ⟨memory, buffer, .inr ⟨e, bind_of_error hput _⟩⟩
  · simp only [announceTileSize, get_bind_run, if_neg hsize]
    rw [ne_eq, not_not] at hsize
    refine ⟨s.memory, s.buffer, .inl ?_⟩
    rw [← hsize]
    rfl

omit [LawfulMedium μ] in
theorem announceTileSize_of_eq {size : TileSize} {s : WriterState μ ν}
    (h : s.tileSize = some size) : announceTileSize size s = .ok () s := by
  simp only [announceTileSize, get_bind_run, if_neg (not_not_intro h)]
  rfl

section

omit [Medium μ] [LawfulMedium μ] [MemoryPolicy μ ν]

/-- What becomes of the tiles when a tile is looked for is the same however memory is got. -/
theorem cacheTile_cases (tile : Tile) (c : TileCache) :
    (∃ index tiles, tiles.find? tile.id = some index ∧ ∀ {ν : Type} (s : WriterState μ ν),
      s.tiles = c → cacheTile tile s = .ok index { s with tiles }) ∨
    ∃ e tiles, e.isRetryable = false ∧ ∀ {ν : Type} (s : WriterState μ ν),
      s.tiles = c → cacheTile tile s = .error e { s with tiles } := by
  cases hfind : c.find? tile.id with
  | some index =>
    refine .inl ⟨index, c, hfind, fun s hs => ?_⟩
    subst hs
    simp only [cacheTile, get_bind_run, hfind]
    rfl
  | none =>
    have hid : tile.replicated.id = tile.id := by
      rw [Tile.replicated]
      split <;> rfl
    cases hlookup : TileCache.lookupOrAdd tile.replicated.id tile.replicated.size
        tile.replicated.data c with
    | ok l tiles =>
      refine .inl ⟨l.index, tiles, hid ▸ TileCache.find?_of_lookupOrAdd hlookup, fun s hs => ?_⟩
      subst hs
      have hrun : onTiles (TileCache.lookupOrAdd tile.replicated.id tile.replicated.size
          tile.replicated.data) s = .ok l { s with tiles } := by
        simp only [onTiles, hlookup]
      simp only [cacheTile, get_bind_run, hfind, bind_of_ok hrun, pure_run]
    | error e tiles =>
      refine .inr ⟨e, tiles, TileCache.not_isRetryable_of_lookupOrAdd hlookup, fun s hs => ?_⟩
      subst hs
      have hrun : onTiles (TileCache.lookupOrAdd tile.replicated.id tile.replicated.size
          tile.replicated.data) s = .error e { s with tiles } := by
        simp only [onTiles, hlookup]
      simp only [cacheTile, get_bind_run, hfind, bind_of_error hrun]

end

omit [Medium μ] [LawfulMedium μ] [MemoryPolicy μ ν] in
theorem cacheTile_of_find? {tile : Tile} {s : WriterState μ ν} {index : Nat}
    (h : s.tiles.find? tile.id = some index) : cacheTile tile s = .ok index s := by
  simp [cacheTile, h]

def selectCached (d : BandDraft) (tile : Tile) (index : Nat) : WriteM μ ν BandDraft := do
  let some entry := (← get).tiles.entryAt index
    | throw (.malformed s!"tile slot {index} vanished")
  let d := { d with state := { d.state with tileId := some tile.id } }
  if entry.bands.contains d.band then return d.useTileIndex index
  announceTileSize entry.slot.size
  let some bits := (← get).tiles.bits? index
    | throw (.malformed s!"tile slot {index} has no bits")
  return d.sendTile index (Command.tileBits index entry.slot.offset bits.toList)

omit [LawfulMedium μ] in
theorem selectTile_eq (d : BandDraft) (tile : Tile) :
    (selectTile d tile : WriteM μ ν BandDraft) = cacheTile tile >>= selectCached d tile := rfl

/-- The tile of a cached entry is selected at once if the band has it, or after its geometry was
announced. -/
theorem prepares_selectCached (hlack : MemoryPolicy.RefusesForLack μ ν) (d : BandDraft) (tile : Tile)
    (index : Nat) :
    ∀ s : WriterState μ (Watched μ ν), s.buffer.Stored → match selectCached d tile index s with
      | .ok d' s' => s.Stays s' ∧ s.SameDrafts s' ∧ s'.tiles = s.tiles ∧
        selectCached d tile index s.unlimited = .ok d' s'.unlimited ∧
        selectCached d tile index s'.unlimited = .ok d' s'.unlimited
      | .error e s' => s.Stays s' ∧ s.SameDrafts s' ∧
        if e.isRetryable then s'.unlimited = s.unlimited
        else selectCached d tile index s.unlimited = .error e s'.unlimited := by
  intro s hs
  have hun : s.unlimited.tiles = s.tiles := rfl
  cases hentry : s.tiles.entryAt index with
  | none =>
    simp only [selectCached, get_bind_run, hun, hentry, throw_run]
    exact ⟨.of_eq hs rfl rfl rfl rfl, .refl s, trivial⟩
  | some entry =>
    by_cases hknown : entry.bands.contains d.band = true
    · simp only [selectCached, get_bind_run, hun, hentry, if_pos hknown, pure_run]
      exact ⟨.of_eq hs rfl rfl rfl rfl, .refl s, trivial, trivial, trivial⟩
    · simp only [selectCached, get_bind_run, hun, hentry, if_neg hknown]
      have hannounce := atomic_announceTileSize hlack entry.slot.size s hs
      obtain ⟨memory, buffer, hrun | ⟨e, hrun⟩⟩ := announceTileSize_eq entry.slot.size s
      · rw [hrun] at hannounce
        obtain ⟨hstays, hrun'⟩ := hannounce
        rw [bind_of_ok hrun, bind_of_ok hrun', get_bind_run, get_bind_run]
        have hagain := announceTileSize_of_eq
          (s := ({ s with memory, buffer, tileSize := some entry.slot.size } :
            WriterState μ (Watched μ ν)).unlimited) rfl
        simp only [unlimited] at hagain ⊢
        cases hbits : s.tiles.bits? index with
        | none => exact ⟨hstays, ⟨rfl, rfl, rfl, rfl, rfl, rfl⟩, rfl⟩
        | some bits =>
          refine ⟨hstays, ⟨rfl, rfl, rfl, rfl, rfl, rfl⟩, rfl, rfl, ?_⟩
          simp only [hentry, if_neg hknown]
          rw [bind_of_ok hagain, get_bind_run]
          simp [hbits]
      · rw [hrun] at hannounce
        rw [bind_of_error hrun]
        refine ⟨hannounce.1, ⟨rfl, rfl, rfl, rfl, rfl, rfl⟩, ?_⟩
        split
        · next hretry => simpa [hretry] using hannounce.2
        · next hretry => exact bind_of_error (by simpa [hretry] using hannounce.2) _

/-- A tile is selected in the same way again. -/
theorem prepares_selectTile (hlack : MemoryPolicy.RefusesForLack μ ν) (d : BandDraft) (tile : Tile) :
    Prepares (selectTile d tile : WriteM μ (Watched μ ν) BandDraft) (selectTile d tile) := by
  intro s hs
  rw [selectTile_eq, selectTile_eq]
  rcases cacheTile_cases tile s.tiles with ⟨index, tiles, hfind, hcache⟩ | ⟨e, tiles, he, hcache⟩
  · have hrun := hcache s rfl
    have hrun' := hcache s.unlimited rfl
    rw [bind_of_ok hrun, bind_of_ok hrun']
    have hselect := prepares_selectCached hlack d tile index { s with tiles } hs
    cases hsel : selectCached d tile index { s with tiles } with
    | ok d' s' =>
      rw [hsel] at hselect
      obtain ⟨hstays, hdrafts, htiles, hresult, hagain⟩ := hselect
      refine ⟨⟨hstays.rendered, hstays.stored, hstays.config, hstays.imageBands⟩, ⟨hdrafts.config, hdrafts.bands, hdrafts.imager,
        hdrafts.clipId, hdrafts.colorSpace, hdrafts.image⟩, hresult, ?_⟩
      have hcached : cacheTile tile s'.unlimited = .ok index s'.unlimited := by
        refine cacheTile_of_find? ?_
        show s'.tiles.find? tile.id = some index
        rw [htiles]
        exact hfind
      rw [bind_of_ok hcached]
      exact hagain
    | error e s' =>
      rw [hsel] at hselect
      obtain ⟨hstays, hdrafts, hresult⟩ := hselect
      refine ⟨⟨hstays.rendered, hstays.stored, hstays.config, hstays.imageBands⟩, ⟨hdrafts.config, hdrafts.bands, hdrafts.imager,
        hdrafts.clipId, hdrafts.colorSpace, hdrafts.image⟩, ?_⟩
      split
      · next hretry =>
        rw [if_pos hretry] at hresult
        rw [hresult]
        have hcached : cacheTile tile ({ s with tiles } : WriterState μ (Watched μ ν)).unlimited =
            .ok index ({ s with tiles } : WriterState μ (Watched μ ν)).unlimited :=
          cacheTile_of_find? hfind
        exact bind_of_ok hcached _
      · next hretry =>
        rw [if_neg hretry] at hresult
        exact hresult
  · have hrun := hcache s rfl
    have hrun' := hcache s.unlimited rfl
    rw [bind_of_error hrun]
    refine ⟨.of_eq hs rfl rfl rfl rfl, ⟨rfl, rfl, rfl, rfl, rfl, rfl⟩, ?_⟩
    rw [if_neg (by simp [he])]
    exact bind_of_error hrun' _

end WriterState

end BandedPage
