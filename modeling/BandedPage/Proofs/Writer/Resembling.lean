import Mathlib
import BandedPage.Proofs.Imager.Sharing
import BandedPage.Proofs.Tile.Residue
import BandedPage.Proofs.Writer.Drafting
import BandedPage.Writer.Session

/-!
# Writers that bands cannot tell apart

A writer keeps its imager state and its color space from one page to the next, and the bytes of the
tiles it held. Two states that differ in nothing else resemble each other as long as they share every
field that some band knows: the same operation, done in both, tells the bands the same, and leaves two
states that resemble each other.
-/

namespace BandedPage

namespace CommandBuffer

variable {μ : Type}

/-- A buffer for the bands of a page whose shared commands are for all of them. -/
structure Shaped (config : Config) (b : CommandBuffer μ) : Prop where
  bands : b.bands.size = config.nbands
  capacity : b.capacity = config.bufferSize
  range : b.range = config.allBands

/-- The same buffer, of the shape that the page asks for. -/
def Matched (config : Config) (b b' : CommandBuffer μ) : Prop := b = b' ∧ b.Shaped config

variable {config : Config}

theorem Matched.modify {f : CommandBuffer μ → CommandBuffer μ}
    (h : ∀ b, b.Shaped config → (f b).Shaped config) :
    Lockstep (Matched config) (modify f : BufferM μ PUnit) :=
  .modify fun b _ hb => ⟨congrArg f hb.1, h b hb.2⟩

theorem matched_onStore {α : Type} (m : StoreM μ α) : Lockstep (Matched config) (onStore m) := by
  have hrun : ∀ b : CommandBuffer μ, onStore m b =
      endWith (answerOf (m b.store)) { b with store := stateOf (m b.store) } := fun b => by
    simp only [onStore]
    cases m b.store <;> rfl
  rintro b _ ⟨rfl, hb⟩
  refine ⟨_, by rw [hrun, answerOf_endWith], ?_⟩
  rw [hrun, stateOf_endWith]
  exact ⟨rfl, hb.bands, hb.capacity, hb.range⟩

/-- The buffer is looked at. -/
theorem Matched.read {α : Type} {f : CommandBuffer μ → BufferM μ α}
    (h : ∀ b, Lockstep (Matched config) (f b)) : Lockstep (Matched config) (get >>= f) :=
  .read_of_eq (fun _ _ hb => hb.1 ▸ rfl) h

variable [Medium μ]

theorem matched_flushShared : Lockstep (Matched config) (flushShared : BufferM μ Unit) := by
  refine Matched.read fun b => ?_
  split
  · exact (matched_onStore _).bind fun _ => Matched.modify fun b hb =>
      ⟨hb.bands, hb.capacity, hb.range⟩
  · exact .pure ()

theorem matched_flushBand (last : UInt8) (band : Nat) :
    Lockstep (Matched config) (flushBand last band : BufferM μ Unit) := by
  refine Matched.read fun b => ?_
  dsimp only
  split
  · refine (matched_onStore _).bind fun _ => Matched.modify fun b hb => ?_
    exact ⟨(Array.size_setIfInBounds ..).trans hb.bands, hb.capacity, hb.range⟩
  · exact .pure ()

theorem matched_flush (last : UInt8) : Lockstep (Matched config) (flush last : BufferM μ Unit) :=
  matched_flushShared.bind fun _ => Matched.read fun _ =>
    (Lockstep.forM fun band _ => matched_flushBand last band).bind fun _ =>
      Matched.modify fun _ hb => ⟨hb.bands, hb.capacity, hb.range⟩

/-- Commands are for one band, or for all. -/
theorem matched_append {whom : Addressee}
    (hwhom : ∀ bands, whom = .range bands → bands = config.allBands)
    (batch : List Command) : Lockstep (Matched config) (append whom batch : BufferM μ Unit) := by
  have hturn : Lockstep (Matched config) (turnTo whom : BufferM μ Unit) := by
    cases whom with
    | band i => exact .pure ()
    | range bands =>
      have hrange : Lockstep (Matched config)
          (modify ({ · with range := bands }) : BufferM μ PUnit) :=
        Matched.modify fun b hb => ⟨hb.bands, hb.capacity, hwhom bands rfl⟩
      refine Matched.read fun b => ?_
      split
      · exact (matched_flush _).bind fun _ => hrange
      · exact hrange
  have hhold : ∀ c, Lockstep (Matched config)
      (modify (·.hold whom c) : BufferM μ PUnit) := fun c => Matched.modify fun b hb => by
    cases whom with
    | band i => exact ⟨(Array.size_modify ..).trans hb.bands, hb.capacity, hb.range⟩
    | range bands => exact ⟨hb.bands, hb.capacity, hb.range⟩
  have hone : ∀ c, Lockstep (Matched config) (appendOne whom c : BufferM μ Unit) := fun c => by
    refine hturn.bind fun _ => Matched.read fun b => ?_
    split
    · exact (matched_flush _).bind fun _ => hhold c
    · exact hhold c
  refine Matched.read fun b => ?_
  dsimp only
  split
  · exact .throw _
  · exact .forM fun c _ => hone c

theorem matched_closePage : Lockstep (Matched config) (closePage : BufferM μ Unit) :=
  (matched_flush _).bind fun _ => matched_onStore _

end CommandBuffer

namespace WriterState

variable {μ ν : Type} {config : Config} {s s' : WriterState μ ν} {fields more : FieldSet}
variable {f : StateField}

/-- A field that is among `fields` or that a band knows. -/
def Relies (s : WriterState μ ν) (fields : FieldSet) (f : StateField) : Prop :=
  fields.contains f = true ∨ ∃ band, (s.band band).known.contains f = true

/-- The sizes of a writer's parts are those that the configuration asks for. -/
structure Shaped (config : Config) (s : WriterState μ ν) : Prop where
  config_eq : s.config = config
  bands : s.bands.size = config.nbands
  buffer : s.buffer.Shaped config
  heap : s.tiles.heap.size = config.tileBytes
  table : s.tiles.table.size = config.tileSlots
  nbands : s.tiles.nbands = config.nbands
  slots : 0 < config.tileSlots
  transfers : s.transfers.size = transferMapCount
  maps : ∀ entries, some (some entries) ∈ s.transfers → entries.length = transferMapSize

/-- The states differ in bytes between tiles, and in the imager state and the color space as far as
neither bands nor `fields` rely on them. -/
structure Resembles (config : Config) (fields : FieldSet) (s s' : WriterState μ ν) : Prop where
  rest : s' = { s with tiles := s'.tiles, imager := s'.imager, colorSpace := s'.colorSpace }
  shaped : s.Shaped config
  tiles : s.tiles.SameTiles s'.tiles
  layout : s.tiles.Layout
  logOp : s'.imager.logOp = s.imager.logOp
  current : s.imager.Current
  current' : s'.imager.Current
  imager : ∀ f, s.Relies fields f → s.imager.Shares s'.imager f
  colorSpace : s.Relies fields .colorSpace → s'.colorSpace = s.colorSpace
  image : ∀ im ∈ s.image, im.state.Plain

namespace Resembles

theorem config_eq (h : Resembles config fields s s') : s'.config = s.config := by rw [h.rest]

theorem buffer (h : Resembles config fields s s') : s'.buffer = s.buffer := by rw [h.rest]

theorem memory (h : Resembles config fields s s') : s'.memory = s.memory := by rw [h.rest]

theorem bands (h : Resembles config fields s s') : s'.bands = s.bands := by rw [h.rest]

theorem tileSize (h : Resembles config fields s s') : s'.tileSize = s.tileSize := by rw [h.rest]

theorem clipId (h : Resembles config fields s s') : s'.clipId = s.clipId := by rw [h.rest]

theorem image_eq (h : Resembles config fields s s') : s'.image = s.image := by rw [h.rest]

theorem params (h : Resembles config fields s s') : s'.params = s.params := by rw [h.rest]

theorem halftone (h : Resembles config fields s s') : s'.halftone = s.halftone := by rw [h.rest]

theorem transfers (h : Resembles config fields s s') : s'.transfers = s.transfers := by rw [h.rest]

theorem band (h : Resembles config fields s s') (band : Nat) : s'.band band = s.band band := by
  rw [WriterState.band, WriterState.band, h.bands]

/-- States that share more fields resemble each other all the more. -/
theorem mono (h : Resembles config fields s s') (hmore : ∀ f, s.Relies more f → s.Relies fields f) :
    Resembles config more s s' :=
  { h with
    imager := fun f hf => h.imager f (hmore f hf)
    colorSpace := fun hf => h.colorSpace (hmore _ hf) }

theorem forget_all (h : Resembles config fields s s') : Resembles config ∅ s s' :=
  h.mono fun f hf => hf.elim (fun hf => by rw [FieldSet.contains_empty] at hf; cases hf) .inr

/-- What a band knows may be relied on. -/
theorem known (h : Resembles config fields s s') (band : Nat) :
    Resembles config (fields ∪ (s.band band).known) s s' :=
  h.mono fun f hf => hf.elim (fun hf => by
    rw [FieldSet.contains_union, Bool.or_eq_true] at hf
    exact hf.imp id fun hf => ⟨band, hf⟩) .inr

end Resembles

variable {α : Type}

/-- What is done with the buffer is done in the same way in both. -/
theorem lockstep_onBuffer {m : BufferM μ α} (h : Lockstep (CommandBuffer.Matched config) m) :
    Lockstep (Resembles config fields) (onBuffer m : WriteM μ ν α) := by
  have hrun : ∀ s : WriterState μ ν, onBuffer m s =
      endWith (answerOf (m s.buffer)) { s with buffer := stateOf (m s.buffer) } := fun s => by
    simp only [onBuffer]
    cases m s.buffer <;> rfl
  intro s s' hs
  obtain ⟨-, -, -, hshaped⟩ := h s.buffer s.buffer ⟨rfl, hs.shaped.buffer⟩
  refine ⟨_, by rw [hrun, hrun, hs.buffer, answerOf_endWith], ?_⟩
  rw [hrun, stateOf_endWith]
  refine { hs with rest := ?_, shaped := { hs.shaped with buffer := hshaped } }
  rw [hs.rest]

/-- Memory is got in the same way in both. -/
theorem lockstep_onMemory (m : EStateM Error ν α) :
    Lockstep (Resembles config fields) (onMemory m : WriteM μ ν α) := by
  have hrun : ∀ s : WriterState μ ν, onMemory m s =
      endWith (answerOf (m s.memory)) { s with memory := stateOf (m s.memory) } := fun s => by
    simp only [onMemory]
    cases m s.memory <;> rfl
  intro s s' hs
  refine ⟨_, by rw [hrun, hrun, hs.memory, answerOf_endWith], ?_⟩
  rw [hrun, stateOf_endWith]
  refine { hs with rest := ?_, shaped := { hs.shaped with } }
  rw [hs.rest]

/-- The bytes between tiles make no difference. -/
theorem lockstep_lookupOrAdd (id : BitmapId) (size : TileSize) (bits : Bytes) :
    Lockstep (Resembles config fields)
      (onTiles (TileCache.lookupOrAdd id size bits) : WriteM μ ν CacheLookup) := by
  obtain ⟨m, hm⟩ : ∃ m, m = TileCache.lookupOrAdd id size bits := ⟨_, rfl⟩
  have hrun : ∀ s : WriterState μ ν, onTiles m s =
      endWith (answerOf (m s.tiles)) { s with tiles := stateOf (m s.tiles) } := fun s => by
    simp only [onTiles]
    cases m s.tiles <;> rfl
  rw [← hm]
  intro s s' hs
  have hpos : 0 < s.tiles.table.size := hs.shaped.table ▸ hs.shaped.slots
  obtain ⟨tiles', hrun', hsame⟩ := hm ▸ hs.tiles.lookupOrAdd hs.layout hpos id size bits
  have hasked : s.tiles.Asked id size bits (stateOf (m s.tiles)) := by
    rcases TileCache.lookupOrAdd_asked id size bits hs.layout hpos with
      ⟨l, tiles, hl, hasked⟩ | ⟨e, tiles, he, hasked⟩
    · rw [hm, hl]
      exact hasked
    · rw [hm, he]
      exact hasked
  refine ⟨_, by rw [hrun, hrun, hrun', answerOf_endWith, answerOf_endWith, stateOf_endWith], ?_⟩
  rw [hrun, stateOf_endWith]
  refine { hs with
    rest := by rw [hs.rest]
    shaped := { hs.shaped with
      heap := hasked.heapSize.trans hs.shaped.heap
      table := hasked.tableSize.trans hs.shaped.table
      nbands := (hm ▸ TileCache.nbands_lookupOrAdd ..).trans hs.shaped.nbands }
    tiles := hsame
    layout := hasked.layout }

section

variable [Medium μ] [MemoryPolicy μ ν]

theorem lockstep_putBatch {whom : Addressee}
    (hwhom : ∀ bands, whom = .range bands → bands = config.allBands) (batch : List Command) :
    Lockstep (Resembles config fields) (putBatch whom batch : WriteM μ ν Unit) := by
  simp only [putBatch]
  split
  · exact (lockstep_onMemory _).bind fun _ =>
      lockstep_onBuffer (CommandBuffer.matched_append hwhom batch)
  · exact .pure ()

theorem lockstep_putBand (band : Nat) (batch : List Command) :
    Lockstep (Resembles config fields) (putBatch (.band band) batch : WriteM μ ν Unit) :=
  lockstep_putBatch (fun _ h => by cases h) batch

theorem lockstep_putAllBands (batch : List Command) :
    Lockstep (Resembles config fields) (putAllBands batch : WriteM μ ν Unit) := by
  refine .read fun s s' hs => ?_
  rw [hs.config_eq]
  refine lockstep_putBatch (fun bands h => ?_) batch s s' hs
  cases h
  rw [hs.shaped.config_eq]

theorem lockstep_putPageState :
    Lockstep (Resembles config fields) (putPageState : WriteM μ ν Unit) := by
  have hoption : ∀ {β : Type} (x : Option β) (op : β → WriteM μ ν Unit),
      (∀ b, Lockstep (Resembles config fields) (op b)) →
      Lockstep (Resembles config fields) (x.forM op) := by
    intro β x op hop
    cases x with
    | none => exact .pure ()
    | some b => exact hop b
  refine .read_of_eq (fun s s' hs => by rw [hs.params, hs.halftone, hs.transfers]) fun s => ?_
  refine (hoption _ _ fun _ => lockstep_putAllBands _).bind fun _ => ?_
  refine (hoption _ _ fun _ => lockstep_putAllBands _).bind fun _ => ?_
  exact .forM fun (map, index) _ => hoption _ _ fun _ => lockstep_putAllBands _

theorem lockstep_renderPartialPage :
    Lockstep (Resembles config fields) (renderPartialPage : WriteM μ ν Unit) := by
  refine (lockstep_onBuffer CommandBuffer.matched_closePage).bind fun _ => ?_
  refine .read_of_eq (fun s s' hs => by rw [hs.buffer]) fun s => ?_
  exact (lockstep_onMemory _).bind fun _ => lockstep_onBuffer (CommandBuffer.matched_onStore _)

end

/-! ### What becomes current -/

/-- Nothing is known of a band that does not exist. -/
@[simp] theorem known_forget (s : WriterState μ ν) (more : FieldSet) (band : Nat) (f : StateField) :
    ((s.forget more).band band).known.contains f =
      ((s.band band).known.contains f && !more.contains f) := by
  rw [WriterState.band, WriterState.band, forget]
  by_cases hband : band < s.bands.size
  · simp [hband, BandState.forget]
  · simp [hband]

/-- Bands forget what they do not share, and perhaps more. -/
theorem forget_eq_forget {more' : FieldSet}
    (h : ∀ band f, (s.band band).known.contains f = true → more'.contains f = more.contains f) :
    s.bands.map (·.forget more') = s.bands.map (·.forget more) := by
  refine Array.map_congr_left fun b hb => ?_
  obtain ⟨i, hi, rfl⟩ := Array.getElem_of_mem hb
  have hknown : s.bands[i].known \ more' = s.bands[i].known \ more := by
    refine FieldSet.ext_contains fun f => ?_
    rw [FieldSet.contains_sdiff, FieldSet.contains_sdiff]
    cases hf : s.bands[i].known.contains f with
    | false => rfl
    | true =>
      have hband : s.band i = s.bands[i] := by simp [WriterState.band, hi]
      rw [h i f (by rw [hband]; exact hf)]
  simp only [BandState.forget, hknown]

/-- A field that is relied on after bands forgot fields was relied on before. -/
theorem Relies.of_forget (h : (s.forget more).Relies fields f) : s.Relies fields f := by
  refine h.imp id fun ⟨band, hf⟩ => ⟨band, ?_⟩
  rw [known_forget, Bool.and_eq_true] at hf
  exact hf.1

theorem Shaped.forget (h : s.Shaped config) (more : FieldSet) : (s.forget more).Shaped config :=
  { h with bands := (Array.size_map ..).trans h.bands }

namespace Resembles

/-- An imager state becomes current in both as far as it is selected. -/
theorem updateImager (hs : Resembles config fields s s') {new : ImagerState} (hnew : new.Plain)
    (selected : FieldSet) :
    (∃ t t', WriterState.updateImager new selected s = .ok () t ∧
      WriterState.updateImager new selected s' = .ok () t' ∧
      Resembles config (fields ∪ (selected \ .singleton .colorSpace)) t t') ∨
    ∃ e t t', WriterState.updateImager new selected s = .error e t ∧
      WriterState.updateImager new selected s' = .error e t' ∧ Resembles config fields t t' := by
  rcases adoptFields_both hnew (StateField.all.filter selected.contains) hs.current hs.current' with
    ⟨changed, changed', a, a', hrun, hrun', hboth, hselected, hchanged⟩ | ⟨e, a, a', hrun, hrun', hboth⟩
  · refine .inl ⟨_, _, bind_of_ok hrun _, bind_of_ok hrun' _, ?_⟩
    have hbands : s'.bands.map (·.forget changed') = s.bands.map (·.forget changed) := by
      rw [hs.bands]
      exact forget_eq_forget fun band f hf => hchanged f (hs.imager f (.inr ⟨band, hf⟩))
    have hrelies : ∀ f, (s.forget changed).Relies (fields ∪ (selected \ .singleton .colorSpace)) f →
        s.Relies fields f ∨ f ≠ .colorSpace ∧ f ∈ StateField.all.filter selected.contains := by
      rintro f (hf | hknown)
      · rw [FieldSet.contains_union, FieldSet.contains_sdiff, FieldSet.contains_singleton,
          Bool.or_eq_true, Bool.and_eq_true, Bool.not_eq_true', decide_eq_false_iff_not] at hf
        exact hf.imp .inl fun hf => ⟨Ne.symm hf.2, List.mem_filter.mpr ⟨f.mem_all, hf.1⟩⟩
      · exact .inl (Relies.of_forget (.inr hknown))
    refine { hs with
      rest := ?_
      shaped := { hs.shaped with bands := (Array.size_map ..).trans hs.shaped.bands }
      logOp := rfl
      current := hboth.left.withLogOp _
      current' := hboth.right.withLogOp _
      imager := fun f hf => ?_
      colorSpace := fun hf => ?_ }
    · simp only [WriterState.forget, hbands]
      rw [hs.rest]
    · rcases hrelies f hf with hf | ⟨-, hf⟩
      · exact (hboth.shares f (hs.imager f hf)).withLogOp _ _
      · exact (hselected f hf).withLogOp _ _
    · exact hs.colorSpace ((hrelies _ hf).resolve_right fun h => h.1 rfl)
  · refine .inr ⟨e, _, _, bind_of_error hrun _, bind_of_error hrun' _, ?_⟩
    refine { hs with
      rest := by rw [hs.rest]
      shaped := { hs.shaped with }
      logOp := hboth.rightLogOp.trans (hs.logOp.trans hboth.leftLogOp.symm)
      current := hboth.left
      current' := hboth.right
      imager := fun f hf => hboth.shares f (hs.imager f hf) }

/-- Whatever comes of it, states in which an imager state became current resemble each other. -/
theorem updateImager_inStep (hs : Resembles config fields s s') {new : ImagerState} (hnew : new.Plain)
    (selected : FieldSet) :
    InStep (Resembles config fields) (WriterState.updateImager new selected) s
      (WriterState.updateImager new selected) s' := by
  rcases hs.updateImager hnew selected with ⟨t, t', hrun, hrun', ht⟩ | ⟨e, t, t', hrun, hrun', ht⟩
  · refine .of_ok hrun hrun' (ht.mono fun f hf => hf.imp_left fun hf => ?_)
    rw [FieldSet.contains_union, hf]
    rfl
  · exact .of_error hrun hrun' ht

/-- A color space becomes current in both. A band that knows one knows that of both. -/
theorem useColorSpace (hs : Resembles config fields s s') (space : ColorSpace) :
    Resembles config (fields.insert .colorSpace) (s.useColorSpace space) (s'.useColorSpace space) := by
  have heq : ∀ s : WriterState μ ν, s.useColorSpace space =
      { s with colorSpace := space, bands := (s.useColorSpace space).bands } := fun s => by
    simp only [WriterState.useColorSpace]
    split
    · next hspace => rw [← hspace]
    · rfl
  have hbands : (s'.useColorSpace space).bands = (s.useColorSpace space).bands := by
    by_cases hknown : ∃ band, (s.band band).known.contains .colorSpace = true
    · simp only [WriterState.useColorSpace, hs.colorSpace (.inr hknown)]
      split
      · exact hs.bands
      · simp only [WriterState.forget, hs.bands]
    · -- No band has to forget anything.
      have hforget : s.bands.map (·.forget (.singleton .colorSpace)) = s.bands := by
        have hsame : s.bands.map (·.forget (.singleton .colorSpace)) = s.bands.map (·.forget ∅) :=
          forget_eq_forget fun band f hf => by
            rw [FieldSet.contains_singleton, FieldSet.contains_empty, decide_eq_false_iff_not]
            rintro rfl
            exact hknown ⟨band, hf⟩
        rw [hsame]
        refine (Array.map_congr_left fun b _ => ?_).trans (Array.map_id _)
        have hempty : b.known \ ∅ = b.known := FieldSet.ext_contains fun f => by simp
        simp only [BandState.forget, hempty, id]
      have hkeep : ∀ t : WriterState μ ν, t.bands = s.bands → (t.useColorSpace space).bands = s.bands := by
        intro t ht
        simp only [WriterState.useColorSpace]
        split
        · exact ht
        · simp only [WriterState.forget, ht, hforget]
      rw [hkeep s' hs.bands, hkeep s rfl]
  have hrelies : ∀ f, (s.useColorSpace space).Relies (fields.insert .colorSpace) f →
      s.Relies fields f ∨ f = .colorSpace := by
    rintro f (hf | hf)
    · rw [FieldSet.contains_insert, Bool.or_eq_true, decide_eq_true_iff] at hf
      exact hf.imp .inl Eq.symm
    · refine .inl (.inr ?_)
      simp only [WriterState.useColorSpace] at hf
      split at hf
      · exact hf
      · obtain ⟨band, hf⟩ := hf
        rw [known_forget, Bool.and_eq_true] at hf
        exact ⟨band, hf.1⟩
  have hsize : (s.useColorSpace space).bands.size = s.bands.size := by
    simp only [WriterState.useColorSpace]
    split
    · rfl
    · exact Array.size_map ..
  have hfields : ∀ f, (s.useColorSpace space).Relies (fields.insert .colorSpace) f →
      s.imager.Shares s'.imager f := fun f hf => by
    rcases hrelies f hf with hf | rfl
    · exact hs.imager f hf
    · exact fun _ => rfl
  rw [heq s, heq s', hbands]
  rw [heq s] at hfields
  refine { hs with
    rest := by rw [hs.rest]
    shaped := { hs.shaped with bands := hsize.trans hs.shaped.bands }
    imager := hfields
    colorSpace := fun _ => rfl }

/-- A clip becomes current in both. -/
theorem useClip (hs : Resembles config fields s s') (clip : Option ClipPath) :
    Resembles config fields (s.useClip clip) (s'.useClip clip) := by
  cases clip with
  | none => exact hs
  | some c =>
    simp only [WriterState.useClip, hs.clipId]
    split
    · exact hs
    · refine { hs with
        rest := ?_
        shaped := { hs.shaped with bands := (Array.size_map ..).trans hs.shaped.bands }
        imager := fun f hf => hs.imager f (Relies.of_forget hf)
        colorSpace := fun hf => hs.colorSpace (Relies.of_forget hf) }
      simp only [WriterState.forget, hs.bands]
      rw [hs.rest]

theorem setLogicalOp (hs : Resembles config fields s s') (op : LogicalOp) :
    Resembles config fields { s with imager := { s.imager with logOp := op } }
      { s' with imager := { s'.imager with logOp := op } } :=
  { hs with
    rest := by rw [hs.rest]
    shaped := { hs.shaped with }
    logOp := rfl
    current := hs.current.withLogOp op
    current' := hs.current'.withLogOp op
    imager := fun f hf => (hs.imager f hf).withLogOp op op }

/-- The same image may be open in both. -/
theorem withImage (hs : Resembles config fields s s') {image image' : Option OpenImage} (heq : image' = image)
    (himage : ∀ im ∈ image, im.state.Plain) :
    Resembles config fields { s with image } { s' with image := image' } := by
  refine { hs with
    rest := ?_
    shaped := { hs.shaped with }
    image := himage }
  rw [heq, hs.rest]

theorem withParams (hs : Resembles config fields s s') (params : Option (List UInt8)) :
    Resembles config fields { s with params } { s' with params } :=
  { hs with
    rest := by rw [hs.rest]
    shaped := { hs.shaped with } }

theorem withHalftone (hs : Resembles config fields s s') (halftone : Option Halftone) :
    Resembles config fields { s with halftone } { s' with halftone } :=
  { hs with
    rest := by rw [hs.rest]
    shaped := { hs.shaped with } }

/-- A transfer map is kept that commands carry. -/
theorem withTransfer (hs : Resembles config fields s s') (index : Nat) {map : TransferMap}
    (hmap : ∀ entries, map = some entries → entries.length = transferMapSize) :
    Resembles config fields { s with transfers := s.transfers.setIfInBounds index (some map) }
      { s' with transfers := s'.transfers.setIfInBounds index (some map) } := by
  rw [hs.transfers]
  refine { hs with
    rest := by rw [hs.rest]
    shaped := { hs.shaped with
      transfers := (Array.size_setIfInBounds ..).trans hs.shaped.transfers
      maps := fun entries hentries => ?_ } }
  rcases Array.mem_or_eq_of_mem_setIfInBounds hentries with hold | hnew
  · exact hs.shaped.maps entries hold
  · exact hmap entries (Option.some.inj hnew).symm

/-- Nothing is left of a page but what differs between states that resemble each other. -/
theorem resetPage (hs : Resembles config fields s s') : Resembles config fields s.resetPage s'.resetPage := by
  have hrelies : ∀ f, s.resetPage.Relies fields f → s.Relies fields f := by
    rintro f (hf | ⟨band, hf⟩)
    · exact .inl hf
    · have hband : s.resetPage.band band = {} := by
        simp only [WriterState.band, WriterState.resetPage]
        by_cases hlt : band < s.bands.size <;> simp [hlt]
      rw [hband] at hf
      cases f <;> cases hf
  refine { hs with
    rest := ?_
    shaped := { hs.shaped with
      bands := (Array.size_map ..).trans hs.shaped.bands
      buffer := ⟨(Array.size_map ..).trans hs.shaped.buffer.bands, hs.shaped.buffer.capacity,
        hs.shaped.buffer.range⟩
      table := (Array.size_replicate ..).trans hs.shaped.table }
    tiles := hs.tiles.reset
    layout := TileCache.layout_of_no_entries (Nat.zero_le _) fun i => TileCache.entryAt_reset _ i
    imager := fun f hf => hs.imager f (hrelies f hf)
    colorSpace := fun hf => hs.colorSpace (hrelies _ hf)
    image := fun im him => ?_ }
  · simp only [WriterState.resetPage, hs.bands, hs.buffer, hs.image_eq]
    rw [hs.rest]
  · obtain ⟨im', him', rfl⟩ := Option.mem_map.mp him
    exact hs.image im' him'

end Resembles

end WriterState

end BandedPage
