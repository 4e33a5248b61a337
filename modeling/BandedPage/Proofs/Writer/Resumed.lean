import Mathlib
import BandedPage.Proofs.Writer.Resuming

/-!
# Every band operation resumes

Each band operation draws up a draft and has it held; what selects tiles or looks for bitmaps in the
cache is the same when it is done again.
-/

namespace BandedPage

/-- A bitmap that is painted with a tile does not go through the cache. -/
def BitmapCopy.IsPlain (c : BitmapCopy) : Prop :=
  c.name = none ∨ ∀ tile colors phase, c.paint ≠ .halftone tile colors phase

namespace WriterState

section

variable {μ ν α : Type}

def rectDraft (s : WriterState μ ν) (band : Nat) : BandDraft :=
  ({ band, state := s.band band : BandDraft }.switchClip false).useLop s.imager.logOp true

def fillDraft (s : WriterState μ ν) (band : Nat) (r : Rect) (color : Color) : BandDraft :=
  ((s.rectDraft band).useColor s.config.depth .one color).rect Opcode.fillRect r

def tileDraft (config : Config) (r : Rect) (tile : Tile) (colors : ColorPair) (phase : Phase)
    (d : BandDraft) : BandDraft :=
  ((if tile.size.depth = 1 then d.useTileColors config.depth colors else d).useTilePhase phase).rect
    Opcode.tileRect r

def pathDraft (s : WriterState μ ν) (band : Nat) (p : PathDrawing) : BandDraft :=
  ((({ band, state := s.band band : BandDraft }.tellFields p.use.required s.imager
    s.colorSpace).useClip (s.config.bandRect band) p.clip).useLop s.imager.logOp false)

def copyDraft (s : WriterState μ ν) (band : Nat) (c : BitmapCopy) : BandDraft :=
  let d := ({ band, state := s.band band : BandDraft }.useClip (s.config.bandRect band) c.clip)
  if c.isMask then d.useLop s.imager.logOp false else d

theorem band_of_sameDrafts {s s' : WriterState μ ν} (h : s.SameDrafts s') (b : Nat) :
    s'.band b = s.band b := by
  rw [band, band, h.bands]

/-- An answer that depends on the configuration alone. -/
def reading (g : Config → Except Error α) : WriteM μ ν α := do liftM (g (← get).config)

@[simp] theorem reading_run (g : Config → Except Error α) (s : WriterState μ ν) :
    (reading g : WriteM μ ν α) s =
      match g s.config with
      | .ok a => .ok a s
      | .error e => .error e s := by
  rw [reading, get_bind_run]
  cases g s.config <;> rfl

end

variable {μ ν α β : Type} [Medium μ] [LawfulMedium μ]

theorem prepares_reading {g : Config → Except Error α} (hg : ∀ config, NeverLacks (g config)) :
    Prepares (reading g : WriteM μ (Watched μ ν) α) (reading g) := by
  intro s hs
  have hun : s.unlimited.config = s.config := rfl
  rw [reading_run, reading_run, hun]
  cases ha : g s.config with
  | ok a => exact ⟨.of_eq hs rfl rfl rfl rfl, .refl s, rfl, by rw [reading_run, hun, ha]⟩
  | error e =>
    refine ⟨.of_eq hs rfl rfl rfl rfl, .refl s, ?_⟩
    rw [if_neg (by simp [hg s.config e ha])]

/-- What was prepared may be looked at. -/
theorem Prepares.bind_reading {op : WriteM μ (Watched μ ν) α} {op' : WriteM μ Unlimited α}
    (h : Prepares op op') {g : α → Config → Except Error β}
    (hg : ∀ a config, NeverLacks (g a config)) :
    Prepares (op >>= fun a => reading (g a)) (op' >>= fun a => reading (g a)) := by
  intro s hs
  have ho := h s hs
  cases hrun : op s with
  | ok a s₁ =>
    rw [hrun] at ho
    obtain ⟨hstays, hdrafts, hresult, hagain⟩ := ho
    rw [bind_of_ok hrun, bind_of_ok hresult, reading_run, reading_run]
    have hun : s₁.unlimited.config = s₁.config := rfl
    rw [hun]
    cases hb : g a s₁.config with
    | ok b =>
      refine ⟨hstays, hdrafts, rfl, ?_⟩
      simp [bind_of_ok hagain, hun, hb]
    | error e =>
      refine ⟨hstays, hdrafts, ?_⟩
      rw [if_neg (by simp [hg a s₁.config e hb])]
  | error e s₁ =>
    rw [hrun] at ho
    obtain ⟨hstays, hdrafts, hresult⟩ := ho
    rw [bind_of_error hrun]
    refine ⟨hstays, hdrafts, ?_⟩
    split
    · next hretry =>
      rw [if_pos hretry] at hresult
      exact bind_of_same hresult _
    · next hretry =>
      rw [if_neg hretry] at hresult
      exact bind_of_error hresult _

/-- The configuration may be looked at before. -/
theorem Prepares.reading_bind {g : Config → Except Error α} (hg : ∀ config, NeverLacks (g config))
    {op : α → WriteM μ (Watched μ ν) β} {op' : α → WriteM μ Unlimited β}
    (h : ∀ a, Prepares (op a) (op' a)) : Prepares (reading g >>= op) (reading g >>= op') := by
  intro s hs
  have hun : s.unlimited.config = s.config := rfl
  cases ha : g s.config with
  | error e =>
    have hrun : (reading g : WriteM μ (Watched μ ν) α) s = .error e s := by simp [ha]
    have hrun' : (reading g : WriteM μ Unlimited α) s.unlimited = .error e s.unlimited := by
      simp [hun, ha]
    rw [bind_of_error hrun]
    refine ⟨.of_eq hs rfl rfl rfl rfl, .refl s, ?_⟩
    rw [if_neg (by simp [hg s.config e ha])]
    exact bind_of_error hrun' _
  | ok a =>
    have hread : ∀ s' : WriterState μ (Watched μ ν), s'.config = s.config →
        (reading g >>= op') s'.unlimited = op' a s'.unlimited := by
      intro s' hs'
      refine bind_of_ok ?_ _
      rw [reading_run]
      show (match g s'.config with | .ok a => _ | .error e => _) = _
      rw [hs', ha]
    have hrun : (reading g : WriteM μ (Watched μ ν) α) s = .ok a s := by simp [ha]
    rw [bind_of_ok hrun, hread s rfl]
    have ho := h a s hs
    cases hop : op a s with
    | ok b s₁ =>
      rw [hop] at ho
      obtain ⟨hstays, hdrafts, hresult, hagain⟩ := ho
      exact ⟨hstays, hdrafts, hresult, (hread s₁ hdrafts.config).trans hagain⟩
    | error e s₁ =>
      rw [hop] at ho
      obtain ⟨hstays, hdrafts, hresult⟩ := ho
      refine ⟨hstays, hdrafts, ?_⟩
      split
      · next hretry =>
        rw [if_pos hretry] at hresult
        rw [hread s₁ hdrafts.config]
        exact hresult
      · next hretry =>
        rw [if_neg hretry] at hresult
        exact hresult

/-- A colored halftone is sent if it has the right number of levels. -/
theorem prepares_tellColored (d : BandDraft) (bases : List UInt8) (levels : List Nat) :
    Prepares (tellColored d bases levels : WriteM μ (Watched μ ν) BandDraft)
      (tellColored d bases levels) := by
  have hrun : ∀ {ν : Type}, (tellColored d bases levels : WriteM μ ν BandDraft) =
      reading fun config =>
        if levels.length ≠ config.components then
          .error (.malformed
            s!"colored halftone with {levels.length} levels for {config.components} components")
        else .ok (d.emit (Command.colored bases levels)) := by
    intro ν
    funext s
    simp only [tellColored, get_bind_run, reading_run]
    split <;> rfl
  rw [hrun, hrun]
  refine prepares_reading fun config => ?_
  split
  · exact .malformed _
  · exact .ok _

variable [MemoryPolicy μ ν]

theorem prepares_useTile (hlack : MemoryPolicy.RefusesForLack μ ν) (d : BandDraft) (tile : Tile)
    (colors : ColorPair) (phase : Phase) :
    Prepares (useTile d tile colors phase : WriteM μ (Watched μ ν) BandDraft)
      (useTile d tile colors phase) :=
  (prepares_selectTile hlack d tile).bind_reading
    (g := fun d config => .ok ((d.useTileColors config.depth colors).useTilePhase phase))
    fun _ _ => .ok _

theorem prepares_useDrawingColor (hlack : MemoryPolicy.RefusesForLack μ ν) (d : BandDraft)
    (color : DrawingColor) :
    Prepares (useDrawingColor d color : WriteM μ (Watched μ ν) (ColorSource × BandDraft))
      (useDrawingColor d color) := by
  cases color with
  | pure color =>
    exact prepares_reading
      (g := fun config => .ok (ColorSource.pure, d.useColor config.depth .one color))
      fun _ => .ok _
  | halftone tile colors phase =>
    exact (prepares_useTile hlack d tile colors phase).bind_reading
      (g := fun d _ => .ok (ColorSource.halftone, d)) fun _ _ => .ok _
  | colored bases levels =>
    exact (prepares_tellColored d bases levels).bind_reading
      (g := fun d _ => .ok (ColorSource.colored, d)) fun _ _ => .ok _

theorem prepares_usePaint (hlack : MemoryPolicy.RefusesForLack μ ν) (d : BandDraft)
    (paint : CopyPaint) :
    Prepares (usePaint d paint : WriteM μ (Watched μ ν) BandDraft) (usePaint d paint) := by
  cases paint with
  | mono colors =>
    exact prepares_reading (g := fun config => .ok (d.useColors config.depth colors)) fun _ => .ok _
  | deep => exact prepares_reading (g := fun _ => .ok (d.useCopyMode false)) fun _ => .ok _
  | coverage color depth =>
    exact prepares_reading
      (g := fun config => .ok ((d.useCopyMode true).useColor config.depth .one color)) fun _ => .ok _
  | halftone tile colors phase => exact prepares_useTile hlack d tile colors phase

/-- A band operation that has its draft held resumes if what the draft relies on is prepared. -/
theorem resumes_of_draft (hlack : MemoryPolicy.RefusesForLack μ ν)
    {op : WriteM μ (Watched μ ν) Unit} {op' : WriteM μ Unlimited Unit}
    (prepare : WriterState μ (Watched μ ν) → WriteM μ (Watched μ ν) α)
    (prepare' : WriterState μ Unlimited → WriteM μ Unlimited α) (draft : α → BandDraft)
    (hop : ∀ s, op s = (prepare s >>= fun a => commit (draft a)) s)
    (hop' : ∀ s, op' s = (prepare' s >>= fun a => commit (draft a)) s)
    (hprepare : ∀ s, Prepares (prepare s) (prepare' s.unlimited))
    (hsame : ∀ s s' : WriterState μ Unlimited, s.SameDrafts s' → prepare' s' = prepare' s) :
    Resumes op op' :=
  .of_prepares prepare prepare' hop hop' hprepare hsame fun a => atomic_commit hlack (draft a)

omit [MemoryPolicy μ ν] in
theorem prepares_pure (a : α) :
    Prepares (pure a : WriteM μ (Watched μ ν) α) (pure a) :=
  fun s hs => ⟨.of_eq hs rfl rfl rfl rfl, .refl s, rfl, rfl⟩

theorem resumes_fillBand (hlack : MemoryPolicy.RefusesForLack μ ν) (band : Nat) (r : Rect)
    (color : Color) :
    Resumes (fillBand band r color : WriteM μ (Watched μ ν) Unit) (fillBand band r color) := by
  refine resumes_of_draft hlack (fun s => pure (s.fillDraft band r color))
    (fun s => pure (s.fillDraft band r color)) id (fun _ => rfl) (fun _ => rfl) (fun _ => prepares_pure _) ?_
  intro s s' h
  simp only [fillDraft, rectDraft, band_of_sameDrafts h, h.config, h.imager]

theorem resumes_tileBand (hlack : MemoryPolicy.RefusesForLack μ ν) (band : Nat) (r : Rect)
    (tile : Tile) (colors : ColorPair) (phase : Phase) :
    Resumes (tileBand band r tile colors phase : WriteM μ (Watched μ ν) Unit)
      (tileBand band r tile colors phase) := by
  have hop : ∀ {ν : Type} [MemoryPolicy μ ν] (s : WriterState μ ν),
      tileBand band r tile colors phase s =
        ((selectTile (s.rectDraft band) tile >>= fun d => reading fun _ =>
          .ok (tileDraft s.config r tile colors phase d)) >>= commit) s := by
    intro ν _ s
    rw [bind_assoc]
    rfl
  refine .of_prepares _ _ hop hop (fun s => (prepares_selectTile hlack _ tile).bind_reading fun _ _ =>
    .ok _) ?_ (atomic_commit hlack)
  intro s s' h
  simp only [rectDraft, band_of_sameDrafts h, h.config, h.imager]

theorem resumes_pathBand (hlack : MemoryPolicy.RefusesForLack μ ν) (band : Nat) (p : PathDrawing)
    (rows : RowRange) :
    Resumes (pathBand band p rows : WriteM μ (Watched μ ν) Unit) (pathBand band p rows) := by
  refine resumes_of_draft hlack (fun s => useDrawingColor (s.pathDraft band p) p.color)
    (fun s => useDrawingColor (s.pathDraft band p) p.color)
    (fun drawn => drawn.2.drawPath p rows drawn.1) (fun s => rfl) (fun s => rfl)
    (fun s => prepares_useDrawingColor hlack _ _) ?_
  intro s s' h
  simp only [pathDraft, band_of_sameDrafts h, h.config, h.imager, h.colorSpace]

section

omit [LawfulMedium μ] [MemoryPolicy μ ν] [Medium μ]

/-- What becomes of the tiles when a bitmap is looked for is the same however memory is got, and the
same again. -/
theorem cachePlace_cases (id : BitmapId) (size : TileSize) (rows : Bytes) (c : TileCache) :
    (∃ place tiles, tiles.heap.size = c.heap.size ∧ (∀ {ν : Type} (s : WriterState μ ν),
      s.tiles = c → cachePlace id size rows s = .ok place { s with tiles }) ∧
      ∀ {ν : Type} (s : WriterState μ ν), s.tiles = tiles →
        cachePlace id size rows s = .ok place s) ∨
    ∃ e tiles, e.isRetryable = false ∧ ∀ {ν : Type} (s : WriterState μ ν),
      s.tiles = c → cachePlace id size rows s = .error e { s with tiles } := by
  have hok : ∀ {l : CacheLookup} {c tiles : TileCache},
      TileCache.lookupOrAdd id size rows c = .ok l tiles → ∀ {ν : Type} (s : WriterState μ ν),
        s.tiles = c → cachePlace id size rows s = .ok (some l.index) { s with tiles } := by
    intro l c tiles hlookup ν s hs
    subst hs
    simp only [cachePlace, tryCatch, tryCatchThe, MonadExceptOf.tryCatch, EStateM.tryCatch, bind,
      EStateM.bind, onTiles, hlookup]
    rfl
  have hlarge : ∀ {a b : Nat} {c tiles : TileCache},
      TileCache.lookupOrAdd id size rows c = .error (.bitmapTooLarge a b) tiles →
      ∀ {ν : Type} (s : WriterState μ ν),
        s.tiles = c → cachePlace id size rows s = .ok none { s with tiles } := by
    intro a b c tiles hlookup ν s hs
    subst hs
    simp only [cachePlace, tryCatch, tryCatchThe, MonadExceptOf.tryCatch, EStateM.tryCatch, bind,
      EStateM.bind, onTiles, hlookup]
    rfl
  cases hlookup : TileCache.lookupOrAdd id size rows c with
  | ok l tiles =>
    refine .inl ⟨some l.index, tiles, TileCache.heap_size_of_lookupOrAdd tiles (.inl ⟨l, hlookup⟩),
      hok hlookup, fun s hs => ?_⟩
    subst hs
    have hagain := TileCache.lookupOrAdd_of_find? (TileCache.find?_of_lookupOrAdd hlookup) size rows
    exact hok hagain s rfl
  | error e tiles =>
    by_cases hl : ∃ a b, e = .bitmapTooLarge a b
    · obtain ⟨a, b, rfl⟩ := hl
      obtain ⟨b', hagain⟩ := TileCache.lookupOrAdd_again hlookup
      refine .inl ⟨none, tiles, TileCache.heap_size_of_lookupOrAdd tiles (.inr ⟨_, hlookup⟩),
        hlarge hlookup, fun s hs => ?_⟩
      subst hs
      exact hlarge hagain s rfl
    · refine .inr ⟨e, tiles, TileCache.not_isRetryable_of_lookupOrAdd hlookup, fun s hs => ?_⟩
      subst hs
      simp only [cachePlace, tryCatch, tryCatchThe, MonadExceptOf.tryCatch, EStateM.tryCatch, bind,
        EStateM.bind, onTiles, hlookup]
      split
      · exact absurd ⟨_, _, rfl⟩ hl
      · rfl

end

/-- The entry at the place of a bitmap, unless it is one of another size. -/
def placedCopy {ν : Type} (size : TileSize) (rows : Bytes) (place : Option Nat) :
    WriteM μ ν (Option (Nat × TileEntry × Bytes)) := do
  let tiles := (← get).tiles
  return place.bind fun index =>
    ((tiles.entryAt index).filter (·.slot.size = size)).map (index, ·, rows)

/-- A copy added to a draft, from its place in the cache if it has one that can be used. -/
def addedCopy (d : BandDraft) (c : BitmapCopy) (place : Option (Nat × TileEntry × Bytes))
    (config : Config) : Except Error BandDraft :=
  match place.bind fun (index, entry, rows) => c.sendCached config d index entry rows with
  | some d => .ok d
  | none => c.sendPieces config d

section

omit [MemoryPolicy μ ν]

theorem prepares_cacheCopy (c : BitmapCopy) (id : BitmapId) :
    Prepares (cacheCopy c id : WriteM μ (Watched μ ν) (Option (Nat × TileEntry × Bytes)))
      (cacheCopy c id) := by
  intro s hs
  obtain ⟨size, hsize⟩ : ∃ size, size = TileSize.single c.rect.width.toNat c.rect.height.toNat
    (c.paint.depth s.config.depth) := ⟨_, rfl⟩
  by_cases hlarge : s.tiles.maxTileSize < size.dataSize
  · have hrun : ∀ {ν : Type} (s' : WriterState μ ν), s'.config = s.config → s'.tiles = s.tiles →
        cacheCopy c id s' = .ok none s' := by
      intro ν s' hconfig htiles
      simp only [cacheCopy, get_bind_run, hconfig, htiles, ← hsize, if_pos hlarge, pure_run]
    rw [hrun s rfl rfl]
    exact ⟨.of_eq hs rfl rfl rfl rfl, .refl s, hrun s.unlimited rfl rfl, hrun s.unlimited rfl rfl⟩
  cases hextract : Bits.extract c.bitmap.data c.bitmap.raster
      (c.bitmap.dataX * c.paint.depth s.config.depth) size.patternBits size.repHeight with
  | error e =>
    have hrun : ∀ {ν : Type} (s' : WriterState μ ν), s'.config = s.config → s'.tiles = s.tiles →
        cacheCopy c id s' = .error e s' := by
      intro ν s' hconfig htiles
      simp only [cacheCopy, get_bind_run, hconfig, htiles, ← hsize, if_neg hlarge, hextract]
      rfl
    rw [hrun s rfl rfl]
    refine ⟨.of_eq hs rfl rfl rfl rfl, .refl s, ?_⟩
    rw [if_neg (by simp [NeverLacks.extract _ _ _ _ _ e hextract])]
    exact hrun s.unlimited rfl rfl
  | ok rows =>
    have hrest : ∀ {ν : Type} (s' : WriterState μ ν), s'.config = s.config →
        s'.tiles.heap.size = s.tiles.heap.size →
        cacheCopy c id s' = (cachePlace id size rows >>= placedCopy size rows) s' := by
      intro ν s' hconfig hheap
      have hfits : ¬ s'.tiles.maxTileSize < size.dataSize := by
        rw [TileCache.maxTileSize, hheap]
        exact hlarge
      simp only [cacheCopy, get_bind_run, hconfig, ← hsize, if_neg hfits, hextract,
        lift_ok_bind_run]
      refine congrFun (bind_congr fun place => ?_) s'
      cases place <;> rfl
    rcases cachePlace_cases id size rows s.tiles with ⟨place, tiles, hheap, hplace, hagain⟩ |
      ⟨e, tiles, he, hplace⟩
    · have hun : ({ s with tiles } : WriterState μ (Watched μ ν)).unlimited.tiles = tiles := rfl
      have hplaced : ∀ {ν : Type} (s' : WriterState μ ν), s'.tiles = tiles →
          placedCopy size rows place s' = .ok (place.bind fun index =>
            ((tiles.entryAt index).filter (·.slot.size = size)).map (index, ·, rows)) s' := by
        intro ν s' hs'
        subst hs'
        cases place <;> rfl
      rw [hrest s rfl rfl, bind_of_ok (hplace s rfl), hplaced _ rfl]
      refine ⟨.of_eq hs rfl rfl rfl rfl, ⟨rfl, rfl, rfl, rfl, rfl, rfl⟩, ?_, ?_⟩
      · rw [hrest s.unlimited rfl rfl, bind_of_ok (hplace s.unlimited rfl), hplaced _ rfl]
        rfl
      · rw [hrest ({ s with tiles } : WriterState μ (Watched μ ν)).unlimited rfl hheap,
          bind_of_ok (hagain _ hun), hplaced _ hun]
    · rw [hrest s rfl rfl, bind_of_error (hplace s rfl)]
      refine ⟨.of_eq hs rfl rfl rfl rfl, ⟨rfl, rfl, rfl, rfl, rfl, rfl⟩, ?_⟩
      rw [if_neg (by simp [he]), hrest s.unlimited rfl rfl]
      exact bind_of_error (hplace s.unlimited rfl) _

theorem addedCopy_neverLacks (d : BandDraft) (c : BitmapCopy)
    (place : Option (Nat × TileEntry × Bytes)) (config : Config) :
    NeverLacks (addedCopy d c place config) := by
  rw [addedCopy]
  split
  · exact .ok _
  · exact .sendPieces c config d

omit [Medium μ] [LawfulMedium μ] in
/-- A bitmap without a name does not go through the cache. -/
theorem sendCopy_of_name {c : BitmapCopy} (d : BandDraft) (hname : c.name = none) :
    (sendCopy d c : WriteM μ ν BandDraft) = reading (addedCopy d c none) := by
  funext s
  simp only [sendCopy, hname, get_bind_run, pure_bind_run, reading_run, addedCopy,
    Option.bind_none]
  cases c.sendPieces s.config d <;> rfl

/-- A copy is added through the cache, or in pieces, whichever is possible. -/
theorem prepares_sendCopy (d : BandDraft) (c : BitmapCopy) :
    Prepares (sendCopy d c : WriteM μ (Watched μ ν) BandDraft) (sendCopy d c) := by
  cases hname : c.name with
  | none =>
    rw [sendCopy_of_name d hname, sendCopy_of_name d hname]
    exact prepares_reading (addedCopy_neverLacks d c none)
  | some id =>
    have hrun : ∀ {ν : Type} (config : Config) (s : WriterState μ ν), s.config = config →
        sendCopy d c s =
          (cacheCopy c id >>= fun place => reading fun _ => addedCopy d c place config) s := by
      intro ν config s hconfig
      subst hconfig
      simp only [sendCopy, hname, get_bind_run]
      refine congrFun (bind_congr fun place => ?_) s
      funext s'
      simp only [pure_bind_run, reading_run, addedCopy]
      cases place.bind fun x => c.sendCached s.config d x.1 x.2.1 x.2.2 with
      | some d' => rfl
      | none =>
        dsimp only
        cases c.sendPieces s.config d <;> rfl
    intro s hs
    have h := (prepares_cacheCopy c id).bind_reading
      (g := fun place _ => addedCopy d c place s.config) (fun place _ => addedCopy_neverLacks d c place s.config) s hs
    rw [← hrun s.config s rfl, ← hrun s.config s.unlimited rfl] at h
    cases hsend : sendCopy d c s with
    | ok d' s' =>
      rw [hsend] at h
      obtain ⟨hstays, hdrafts, hresult, hagain⟩ := h
      refine ⟨hstays, hdrafts, hresult, ?_⟩
      rw [hrun s.config s'.unlimited hdrafts.config]
      exact hagain
    | error e s' =>
      rw [hsend] at h
      obtain ⟨hstays, hdrafts, hresult⟩ := h
      refine ⟨hstays, hdrafts, ?_⟩
      rw [← hrun s.config s'.unlimited hdrafts.config] at hresult
      exact hresult

end

theorem prepares_usePaint_sendCopy (hlack : MemoryPolicy.RefusesForLack μ ν) (d : BandDraft)
    {c : BitmapCopy} (hc : c.IsPlain) :
    Prepares (usePaint d c.paint >>= fun d => sendCopy d c : WriteM μ (Watched μ ν) BandDraft)
      (usePaint d c.paint >>= fun d => sendCopy d c) := by
  rcases hc with hname | hpaint
  · have hsend : ∀ {ν : Type} (d : BandDraft), (sendCopy d c : WriteM μ ν BandDraft) =
        reading (addedCopy d c none) := by
      intro ν d
      exact sendCopy_of_name d hname
    simp only [hsend]
    exact (prepares_usePaint hlack d c.paint).bind_reading fun d config => addedCopy_neverLacks d c none config
  · obtain ⟨g, hpaint'⟩ : ∃ g : Config → BandDraft, ∀ {ν : Type} [MemoryPolicy μ ν],
        (usePaint d c.paint : WriteM μ ν BandDraft) = reading fun config => .ok (g config) := by
      cases hp : c.paint with
      | mono colors => exact ⟨fun config => d.useColors config.depth colors, rfl⟩
      | deep => exact ⟨fun _ => d.useCopyMode false, rfl⟩
      | coverage color depth =>
        exact ⟨fun config => (d.useCopyMode true).useColor config.depth .one color, rfl⟩
      | halftone tile colors phase => exact absurd hp (hpaint tile colors phase)
    rw [hpaint', hpaint']
    exact .reading_bind (fun _ => .ok _) fun d => prepares_sendCopy d c

theorem resumes_copyBand (hlack : MemoryPolicy.RefusesForLack μ ν) (band : Nat) {c : BitmapCopy}
    (hc : c.IsPlain) :
    Resumes (copyBand band c : WriteM μ (Watched μ ν) Unit) (copyBand band c) := by
  have hop : ∀ {ν : Type} [MemoryPolicy μ ν] (s : WriterState μ ν), copyBand band c s =
      ((usePaint (s.copyDraft band c) c.paint >>= fun d => sendCopy d c) >>= commit) s := by
    intro ν _ s
    rw [bind_assoc]
    rfl
  refine .of_prepares _ _ hop hop (fun s => prepares_usePaint_sendCopy hlack _ hc) ?_
    (atomic_commit hlack)
  intro s s' h
  simp only [copyDraft, band_of_sameDrafts h, h.config, h.imager]

theorem resumes_endImageBand (hlack : MemoryPolicy.RefusesForLack μ ν) (band : Nat) :
    Resumes (endImageBand band : WriteM μ (Watched μ ν) Unit) (endImageBand band) := by
  have hop : ∀ {ν : Type} [MemoryPolicy μ ν] (s : WriterState μ ν), endImageBand band s =
      (pure (s.image.any (·.started.contains band)) >>= fun started =>
        if started then putBatch (.band band) [Command.imageEnd] else pure ()) s :=
    fun _ => rfl
  refine .of_prepares _ _ hop hop (fun _ => prepares_pure _) ?_ ?_
  · intro s s' h
    rw [h.image]
  · intro started
    cases started with
    | true => exact atomic_putBatch hlack (.band band) [Command.imageEnd]
    | false => exact fun s hs => ⟨.of_eq hs rfl rfl rfl rfl, rfl⟩

end WriterState

end BandedPage
