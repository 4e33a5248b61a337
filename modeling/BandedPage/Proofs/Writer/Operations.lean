import Mathlib
import BandedPage.Proofs.Writer.Paths
import BandedPage.Proofs.Writer.Rectangle
import BandedPage.Proofs.Writer.Selecting

/-!
# Operations on bands in step with replay

An operation tells a band all of a drawing or nothing. What replay then calls is told by a predicate
on the calls, which depends on what is current and on nothing else that the writer knows.
-/

namespace BandedPage

variable {μ ν : Type} {q : Terms} {s s' : WriterState μ ν} {calls : Nat → List TargetCall}

section

variable [Medium μ] [LawfulMedium μ]

/-- From a writer in step, the operation makes replay of the band call what `P` says. If it fails,
the band is told nothing. -/
def Tells (q : Terms) (s : WriterState μ ν) (calls : Nat → List TargetCall) (band : Nat)
    (op : WriteM μ ν Unit) (P : List TargetCall → Prop) : Prop :=
  Meets op s
    (fun _ s' => s.Alike s' ∧ ∃ more, P more ∧ Synced q s' (extendCalls calls band more))
    fun _ s' => s.Alike s' ∧ Synced q s' calls

variable {band : Nat} {op : WriteM μ ν Unit} {P P' : List TargetCall → Prop}

theorem Tells.mono (h : Tells q s calls band op P) (hp : ∀ more, P more → P' more) :
    Tells q s calls band op P' :=
  Meets.mono h (fun _ _ ⟨halike, more, hmore, hs⟩ => ⟨halike, more, hp more hmore, hs⟩)
    fun _ _ h => h

/-- What is current before may have been established by an earlier step. -/
theorem Tells.after (halike : s.Alike s') (h : Tells q s' calls band op P) :
    Meets op s'
      (fun _ s'' => s.Alike s'' ∧ ∃ more, P more ∧ Synced q s'' (extendCalls calls band more))
      fun _ s'' => s.Alike s'' ∧ Synced q s'' calls :=
  Meets.mono h (fun _ _ h => ⟨halike.trans h.1, h.2⟩) fun _ _ h => ⟨halike.trans h.1, h.2⟩

variable [MemoryPolicy μ ν]

theorem Synced.tells_commit (h : Synced q s calls) {d : BandDraft} (hd : Drafts q s d P)
    (hband : d.band < s.config.nbands) :
    Tells q s calls d.band (WriterState.commit d) P := by
  rcases h.commit hd hband with ⟨s', more, hcommit, halike, -, hmore, hs⟩ | ⟨e, memory, hcommit⟩
  · exact .of_ok hcommit ⟨halike, more, hmore, hs⟩
  · exact .of_error hcommit ⟨⟨rfl, rfl, rfl, rfl, rfl, rfl, rfl, rfl⟩, h.withMemory memory⟩

end

/-! ### Tiles -/

/-- A tile that is drawn for a name has bits that the name may have. Offsets in larger caches do not
travel. -/
def Terms.ShowsTile (q : Terms) (config : Config) (id : BitmapId) (tile : Tile) : Prop :=
  q.exactTiles → config.tileBytes < 4294967296 → q.named id tile.size tile.data

theorem TileCache.Gives.showsTile {entry : TileEntry} {tile : Tile}
    (h : s.tiles.Gives q.exactTiles entry tile) (hcache : s.CacheSound q) {index : Nat}
    (hentry : s.tiles.entryAt index = some entry) : q.ShowsTile s.config entry.id tile := by
  intro hexact hsmall
  rw [h.size, h.data hexact (hcache.heapSize.trans_lt hsmall)]
  exact hcache.named index entry hentry

/-- The name under which the cache finds an entry is the entry's. -/
theorem WriterState.Holds.id_eq {tile : Tile} {band index : Nat} {entry : TileEntry}
    (h : s.Holds tile band index entry) : entry.id = tile.id := by
  obtain ⟨entry', hentry', hid⟩ := TileCache.entryAt_of_findFrom h.found
  rw [h.entryAt] at hentry'
  cases hentry'
  exact hid

namespace BandDraft

variable {d : BandDraft} {index : Nat} {entry : TileEntry}

/-- The band knows the same of the tile in question. -/
theorem HasTile.of_eq (h : d.HasTile index entry) {d' : BandDraft}
    (hindex : d'.state.tileIndex = d.state.tileIndex) (hband : d'.band = d.band)
    (hsent : d'.sent = d.sent) : d'.HasTile index entry :=
  ⟨hindex.trans h.selected, by rw [hband, hsent]; exact h.has⟩

/-- What of a band's settings a path or a mask depends on apart from its color. -/
structure Continues (d d' : BandDraft) : Prop where
  band : d'.band = d.band
  known : d'.state.known = d.state.known
  clipEnabled : d'.state.clipEnabled = d.state.clipEnabled
  lop : d'.state.lop = d.state.lop

theorem Continues.trans {d d' d'' : BandDraft} (h : d.Continues d') (h' : d'.Continues d'') :
    d.Continues d'' :=
  ⟨h'.band.trans h.band, h'.known.trans h.known, h'.clipEnabled.trans h.clipEnabled,
    h'.lop.trans h.lop⟩

theorem continues_useColor (d : BandDraft) (depth : Nat) (slot : ColorSlot) (color : Color) :
    d.Continues (d.useColor depth slot color) := by
  constructor <;> simp

theorem continues_useCopyMode (d : BandDraft) (alpha : Bool) :
    d.Continues (d.useCopyMode alpha) := by
  constructor <;> simp

/-- The draft with the tile at `index` selected, with its colors and its shift. -/
def tiled (d : BandDraft) (c : TileCache) (index : Nat) (entry : TileEntry) (id : BitmapId)
    (depth : Nat) (colors : ColorPair) (phase : Phase) : BandDraft :=
  ((d.select c index entry id).useTileColors depth colors).useTilePhase phase

theorem continues_tiled (d : BandDraft) (c : TileCache) (index : Nat) (entry : TileEntry)
    (id : BitmapId) (depth : Nat) (colors : ColorPair) (phase : Phase) :
    d.Continues (d.tiled c index entry id depth colors phase) := by
  constructor <;> simp [tiled, useTileColors]

end BandDraft

/-- Both colors are such as the device has, if that matters. -/
def ColorPair.Fits (q : Terms) (config : Config) (colors : ColorPair) : Prop :=
  q.exactColors → ∀ slot, (colors.get slot).IsOf config.depth

/-- Shifts that commands carry. -/
def Phase.Fits (phase : Phase) : Prop :=
  Word.fits32 phase.x = true ∧ Word.fits32 phase.y = true

namespace Drafted

variable {r₀ r : ReplayState} {d : BandDraft} {drawn : List TargetCall} {index : Nat}
variable {entry : TileEntry} {tile : Tile} {colors : ColorPair} {phase : Phase}

/-- A tile is selected with its colors and its shift, and replay has it. -/
theorem tiled (h : Drafted q s r₀ d drawn r) (hcache : s.CacheSound q) (hvalid : s.config.Valid)
    (ht : s.TilesReach q d.band r₀) (hholds : s.Holds tile d.band index entry)
    (hcolors : colors.Fits q s.config) (hphase : phase.Fits) :
    ∃ r' shown,
      Drafted q s r₀ (d.tiled s.tiles index entry tile.id s.config.depth colors phase) drawn r' ∧
        r'.tile = .ok shown ∧ q.ShowsTile s.config tile.id shown ∧
        (q.exactColors → r'.band.tileColors = colors) ∧ r'.band.tilePhase = phase := by
  obtain ⟨r₁, h₁⟩ := h.select hcache hvalid.tileSlots.2 ht hholds
  obtain ⟨r₂, h₂⟩ := h₁.useTileColors hvalid.depth hcolors
  obtain ⟨r₃, h₃⟩ := h₂.useTilePhase hphase.1 hphase.2
  have hhas : (d.tiled s.tiles index entry tile.id s.config.depth colors phase).HasTile index
      entry := by
    have hselect : (d.select s.tiles index entry tile.id).HasTile index entry :=
      BandDraft.select_hasTile
    refine hselect.of_eq ?_ ?_ ?_ <;> simp [BandDraft.tiled, BandDraft.useTileColors]
  have ht' : s.TilesReach q
      (d.tiled s.tiles index entry tile.id s.config.depth colors phase).band r₀ := by
    rw [(BandDraft.continues_tiled ..).band]
    exact ht
  obtain ⟨shown, hshown, hgives⟩ := h₃.tile_eq hcache ht' hholds.entryAt hhas
  refine ⟨r₃, shown, h₃, hshown, hholds.id_eq ▸ hgives.showsTile hcache hholds.entryAt,
    fun hq => ?_, ?_⟩
  · rw [h₃.mirrors.tileColors hq]
    simp only [BandDraft.useTilePhase_state, BandDraft.useTileColors,
      BandDraft.useTileColor_state]
    rfl
  · simp [h₃.mirrors.tilePhase]

end Drafted

namespace Synced

variable [Medium μ] [LawfulMedium μ] [MemoryPolicy μ ν]

/-- A rectangle is filled where it lies in the band. -/
theorem fillBand (h : Synced q s calls) {band : Nat} (hband : band < s.config.nbands) {rect : Rect}
    (hrect : (SizedRect.ofRect rect).Within q) {color : Color}
    (hcolor : q.exactColors → color.IsOf s.config.depth) :
    Tells q s calls band (WriterState.fillBand band rect color) fun more =>
      ∃ b : BandState, b.lop = s.imager.logOp ∧ b.lopEnabled = (s.imager.logOp != .default) ∧
        (q.exactColors → b.colors.one = color) ∧
        more = (rect.intersect (s.config.bandRect band)).toList.map (fillCall b) := by
  have hd := drafts_fill h.valid.depth band hrect hcolor s.imager.logOp
  have hfill := h.tells_commit hd (by rw [BandDraft.fill_band]; exact hband)
  rw [BandDraft.fill_band] at hfill
  exact hfill

/-- A tile is selected with its colors and its shift. -/
theorem useTile (h : Synced q s calls) (d : BandDraft) {tile : Tile} (htile : tile.Fits q)
    (colors : ColorPair) (phase : Phase) :
    Meets (WriterState.useTile d tile colors phase) s
      (fun d' s' => s.Kept s' ∧ Synced q s' calls ∧ ∃ index entry,
        s'.Holds tile d.band index entry ∧
          d' = d.tiled s'.tiles index entry tile.id s'.config.depth colors phase)
      fun _ s' => s.Kept s' ∧ Synced q s' calls := by
  refine (h.selectTile d htile).bind fun d₁ s₁ hselected => ?_
  obtain ⟨hkept, hs, index, entry, hholds, rfl⟩ := hselected
  exact .get_bind (.pure ⟨hkept, hs, index, entry, hholds, rfl⟩)

end Synced

/-- The draft that fills a rectangle with the tile at `index`. -/
def BandDraft.tileRect (d : BandDraft) (c : TileCache) (index : Nat) (entry : TileEntry) (tile : Tile)
    (depth : Nat) (colors : ColorPair) (phase : Phase) (rect : Rect) : BandDraft :=
  let d := d.select c index entry tile.id
  let d := if tile.size.depth = 1 then d.useTileColors depth colors else d
  (d.useTilePhase phase).rect Opcode.tileRect rect

/-- The call that fills a rectangle of a band with a tile when `lop` is current. Its colors count
only if the tile has one bit a pixel. -/
def Terms.TilesRect (q : Terms) (config : Config) (lop : LogicalOp) (band : Nat) (rect : Rect)
    (tile : Tile) (colors : ColorPair) (phase : Phase) (more : List TargetCall) : Prop :=
  ∃ (b : BandState) (shown : Tile), b.lop = lop ∧ b.lopEnabled = (lop != .default) ∧
    b.tilePhase = phase ∧ q.ShowsTile config tile.id shown ∧
    (q.exactColors → tile.size.depth = 1 → b.tileColors = colors) ∧
    more = (rect.intersect (config.bandRect band)).toList.map (tileCall b shown)

/-- A tile's colors are told to a band if they count. -/
theorem Drafted.useColorsOf {r₀ r : ReplayState} {d : BandDraft} {drawn : List TargetCall}
    (h : Drafted q s r₀ d drawn r) (hdepth : s.config.depth ∈ Config.depths) (tile : Tile)
    {colors : ColorPair} (hcolors : colors.Fits q s.config) :
    ∃ r', Drafted q s r₀
      (if tile.size.depth = 1 then d.useTileColors s.config.depth colors else d) drawn r' := by
  split
  · exact h.useTileColors hdepth hcolors
  · exact ⟨r, h⟩

/-- What the colors of a tile leave alone. -/
theorem BandDraft.useColorsOf_keeps (d : BandDraft) (tile : Tile) (depth : Nat)
    (colors : ColorPair) :
    let d' := if tile.size.depth = 1 then d.useTileColors depth colors else d
    d'.band = d.band ∧ d'.sent = d.sent ∧
      (tile.size.depth = 1 → d'.state.tileColors = colors) ∧
      d'.state = { d.state with tileColors := d'.state.tileColors } := by
  dsimp only
  split
  · next hdepth =>
    refine ⟨by simp [useTileColors], by simp [useTileColors], fun _ => ?_, ?_⟩
    · simp only [useTileColors, useTileColor_state]
      rfl
    · simp [useTileColors]
  · next hdepth => exact ⟨rfl, rfl, fun h => absurd h hdepth, rfl⟩

/-- Without a clip a rectangle is filled with a tile where it lies in the band. -/
theorem drafts_tileRect (hcache : s.CacheSound q) (hvalid : s.config.Valid) {band : Nat}
    {rect : Rect} (hrect : (SizedRect.ofRect rect).Within q) {tile : Tile} {index : Nat}
    {entry : TileEntry} (hholds : s.Holds tile band index entry) {colors : ColorPair}
    (hcolors : colors.Fits q s.config) {phase : Phase} (hphase : phase.Fits) (lop : LogicalOp) :
    let d : BandDraft := ((BandDraft.switchClip { band, state := s.band band } false).useLop lop
      true).tileRect s.tiles index entry tile s.config.depth colors phase rect
    d.band = band ∧
      Drafts q s d (q.TilesRect s.config lop band rect tile colors phase) := by
  dsimp only
  obtain ⟨d₂, hd₂⟩ : ∃ d₂ : BandDraft,
    d₂ = (BandDraft.switchClip { band, state := s.band band } false).useLop lop true := ⟨_, rfl⟩
  have hband₂ : d₂.band = band := by simp [hd₂]
  have hstate₂ : d₂.state.clipEnabled = false ∧ d₂.state.lop = lop ∧
      d₂.state.lopEnabled = (lop != .default) := by
    rw [hd₂, BandDraft.useLop_state, BandDraft.switchClip_state]
    exact ⟨rfl, rfl, rfl⟩
  obtain ⟨d₃, hd₃⟩ : ∃ d₃, d₃ = d₂.select s.tiles index entry tile.id := ⟨_, rfl⟩
  have hband₃ : d₃.band = band := by simp [hd₃, hband₂]
  have hhas₃ : d₃.HasTile index entry := hd₃ ▸ BandDraft.select_hasTile
  obtain ⟨d₄, hd₄⟩ : ∃ d₄, d₄ =
    if tile.size.depth = 1 then d₃.useTileColors s.config.depth colors else d₃ := ⟨_, rfl⟩
  obtain ⟨hband₄, hsent₄, hcolors₄, hstate₄⟩ :=
    d₃.useColorsOf_keeps tile s.config.depth colors
  rw [← hd₄] at hband₄ hsent₄ hcolors₄ hstate₄
  have hdraft : (((BandDraft.switchClip { band, state := s.band band } false).useLop lop
      true).tileRect s.tiles index entry tile s.config.depth colors phase rect) =
      (d₄.useTilePhase phase).rect Opcode.tileRect rect := by
    rw [BandDraft.tileRect, ← hd₂, hd₄, hd₃]
  have hband₅ : (d₄.useTilePhase phase).band = band := by
    simp [hband₄, hband₃]
  rw [hdraft]
  refine ⟨hband₅, fun r₀ hm ht => ?_⟩
  have hrectBand : ((d₄.useTilePhase phase).rect Opcode.tileRect rect).band = band := hband₅
  rw [hrectBand] at hm ht
  obtain ⟨r₁, h₁⟩ := (Drafted.start hm).switchClip false
  obtain ⟨r₂, h₂⟩ := h₁.useLop lop true
  rw [← hd₂] at h₂
  obtain ⟨r₃, h₃⟩ := h₂.select hcache hvalid.tileSlots.2 (hband₂.symm ▸ ht) (hband₂.symm ▸ hholds)
  rw [← hd₃] at h₃
  obtain ⟨r₄, h₄⟩ := h₃.useColorsOf hvalid.depth tile hcolors
  rw [← hd₄] at h₄
  obtain ⟨r₅, h₅⟩ := h₄.useTilePhase hphase.1 hphase.2
  have hhas₅ : (d₄.useTilePhase phase).HasTile index entry := by
    refine hhas₃.of_eq ?_ ?_ ?_
    · rw [BandDraft.useTilePhase_state, hstate₄]
    · simp [hband₄]
    · simp [hsent₄]
  obtain ⟨shown, hshown, hgives⟩ := h₅.tile_eq hcache (hband₅.symm ▸ ht) hholds.entryAt hhas₅
  have hm₅ := h₅.mirrors
  have hstate₅ : (d₄.useTilePhase phase).state =
      { d₃.state with tileColors := d₄.state.tileColors, tilePhase := phase } := by
    rw [BandDraft.useTilePhase_state, hstate₄]
  have hstate₃ : d₃.state = { d₂.state with tileId := some tile.id, tileIndex := index } := by
    simp [hd₃]
  obtain ⟨hclip, hlop, henabled⟩ := hstate₂
  have hreplays : Replays (s.config.bandRect band) _ _ _ _ := replays_tileRect hrect.fits
    (hm₅.rect ▸ hrect.minus_fits hm₅.within) hshown
  rw [SizedRect.toRect_ofRect, r₅.visible_of_not_clipEnabled
    (by rw [hm₅.clipEnabled, hstate₅, hstate₃]; exact hclip), hm₅.rect] at hreplays
  refine ⟨_, r₅.withRect (.ofRect rect), ⟨r₅.band, shown, ?_, ?_, ?_, ?_, ?_, rfl⟩,
    h₅.emit (hband₅.symm ▸ hreplays) { hm₅ with rect := rfl, within := hrect } rfl rfl⟩
  · rw [hm₅.lop, hstate₅, hstate₃]
    exact hlop
  · rw [hm₅.lopEnabled, hstate₅, hstate₃]
    exact henabled
  · rw [hm₅.tilePhase, hstate₅]
  · exact hholds.id_eq ▸ hgives.showsTile hcache hholds.entryAt
  · intro hq hone
    rw [hm₅.tileColors hq, hstate₅]
    exact hcolors₄ hone

namespace Synced

variable [Medium μ] [LawfulMedium μ] [MemoryPolicy μ ν]

/-- A rectangle is filled with a tile where it lies in the band. -/
theorem tileBand (h : Synced q s calls) {band : Nat} (hband : band < s.config.nbands) {rect : Rect}
    (hrect : (SizedRect.ofRect rect).Within q) {tile : Tile} (htile : tile.Fits q)
    {colors : ColorPair} (hcolors : colors.Fits q s.config) {phase : Phase} (hphase : phase.Fits) :
    Tells q s calls band (WriterState.tileBand band rect tile colors phase)
      (q.TilesRect s.config s.imager.logOp band rect tile colors phase) := by
  refine .get_bind (.get_bind ?_)
  have hselect := h.selectTile ((BandDraft.switchClip { band, state := s.band band } false).useLop
    s.imager.logOp true) htile
  refine (Meets.mono hselect (fun _ _ h => h) fun e s' hs' => ⟨hs'.1.alike, hs'.2⟩).bind
    fun d s' hd => ?_
  obtain ⟨hkept, hs, index, entry, hholds, rfl⟩ := hd
  have hsame := hkept.alike
  rw [BandDraft.useLop_band, BandDraft.switchClip_band] at hholds
  obtain ⟨hband', hdrafts⟩ := drafts_tileRect hs.cache hs.valid hrect hholds
    (hsame.config ▸ hcolors) hphase s.imager.logOp
  have htells := hs.tells_commit hdrafts (by rw [hband', hsame.config]; exact hband)
  rw [hband', hsame.config, hkept.band_eq] at htells
  exact htells.after hsame

end Synced

/-! ### Paths -/

/-- A color that can be sent. -/
def DrawingColor.Fits (q : Terms) (config : Config) : DrawingColor → Prop
  | .pure color => q.exactColors → color.IsOf config.depth
  | .halftone tile colors phase => tile.Fits q ∧ colors.Fits q config ∧ phase.Fits
  | .colored bases levels => ReadableBases bases ∧ ∀ level ∈ levels, level < 4294967296

def DrawingColor.ShownAs (q : Terms) (config : Config) : DrawingColor → DrawingColor → Prop
  | .pure color, .pure shown => q.exactColors → shown = color
  | .halftone tile colors phase, .halftone tile' colors' phase' =>
    q.ShowsTile config tile.id tile' ∧ (q.exactColors → colors' = colors) ∧ phase' = phase
  | .colored bases levels, .colored bases' levels' =>
    levels' = levels ∧ ((∀ b ∈ bases, b < 32) → bases' = bases)
  | _, _ => False

/-- The draft goes on to one after which a path can be drawn with the color. -/
structure Colors (q : Terms) (s : WriterState μ ν) (color : DrawingColor) (d d' : BandDraft)
    (source : ColorSource) : Prop where
  continues : d.Continues d'
  drafted : ∀ {r₀ r drawn}, s.TilesReach q d.band r₀ → Drafted q s r₀ d drawn r →
    ∃ r' shown, Drafted q s r₀ d' drawn r' ∧ r'.pathColor? source = .ok shown ∧
      color.ShownAs q s.config shown

def BandDraft.forPath (d : BandDraft) (area : Rect) (p : PathDrawing) (imager : ImagerState)
    (space : ColorSpace) : BandDraft :=
  ((d.tellFields p.use.required imager space).useClip area p.clip).useLop imager.logOp false

namespace BandDraft

variable (d : BandDraft) (area : Rect) (p : PathDrawing) (imager : ImagerState) (space : ColorSpace)

@[simp] theorem tellClip_known (clip : ClipPath) :
    (d.tellClip area clip).state.known = d.state.known.insert .clip := by
  have hrects : ∀ (rects : List Rect) (d : BandDraft),
      (rects.foldl (fun d r => d.rect Opcode.fillRect r) d).state.known = d.state.known := by
    intro rects
    induction rects with
    | nil => exact fun d => rfl
    | cons rect rects ih => exact fun d => ih (d.rect Opcode.fillRect rect)
  rw [tellClip]
  split
  · next hknown =>
    refine FieldSet.ext_contains fun f => ?_
    rw [FieldSet.contains_insert]
    by_cases hf : StateField.clip = f
    · rw [← hf, hknown]
      rfl
    · simp [hf]
  · show (FieldSet.insert _ _) = _
    rw [hrects]
    rfl

/-- A band that draws with a clip knows it. -/
@[simp] theorem contains_useClip (clip : Option ClipPath) (f : StateField) :
    (d.useClip area clip).state.known.contains f =
      (d.state.known.contains f || (clip.isSome && decide (f = .clip))) := by
  cases clip with
  | none =>
    show (d.switchClip false).state.known.contains f = _
    simp
  | some clip =>
    show ((d.tellClip area clip).switchClip true).state.known.contains f = _
    rw [switchClip_state, tellClip_known, FieldSet.contains_insert]
    simp [eq_comm (a := f)]

/-- A band is told what is required but for a clip. -/
@[simp] theorem contains_tellFields (required : FieldSet) (f : StateField) :
    (d.tellFields required imager space).state.known.contains f =
      (d.state.known.contains f || (required.contains f && decide (f ≠ .clip))) := by
  show (d.state.known ∪ (d.state.missing required \ .singleton .clip)).contains f = _
  cases hf : d.state.known.contains f with
  | true => simp [hf]
  | false => simp [BandState.missing, hf, eq_comm (a := f)]

@[simp] theorem forPath_band : (d.forPath area p imager space).band = d.band := by
  simp [forPath]

/-- What a band knows before a path is drawn. -/
theorem forPath_state :
    (∀ f, p.use.required.contains f = true → f ≠ .clip →
      (d.forPath area p imager space).state.known.contains f = true) ∧
      (p.clip.isSome = true →
        (d.forPath area p imager space).state.known.contains .clip = true) ∧
      (d.forPath area p imager space).state.clipEnabled = p.clip.isSome ∧
      (d.forPath area p imager space).state.lop = imager.logOp := by
  rw [forPath, useLop_state]
  refine ⟨fun f hf hne => ?_, ?_, ?_, rfl⟩
  · simp [hf, hne]
  · exact (useClip_state (d.tellFields p.use.required imager space) area p.clip).2
  · exact (useClip_state (d.tellFields p.use.required imager space) area p.clip).1

end BandDraft

/-- The call that draws a path in a band when `imager` is current. Its color is the one that was
given, and so are the clip and the fields that the path depends on. -/
structure PathDrawing.DrawnBy (p : PathDrawing) (q : Terms) (config : Config) (imager : ImagerState)
    (band : Nat) (rows : RowRange) (more : List TargetCall) : Prop where
  exists_call : ∃ origin source shown color clip,
    more = [pathCall (p.op source) shown (BandWalk.sentPath origin rows p.use p.path) color clip] ∧
      shown.logOp = imager.logOp ∧
      (q.exactImager → ∀ f, p.use.required.contains f = true → f ≠ .clip →
        shown.withField imager.sent f = shown) ∧
      p.color.ShownAs q config color ∧ (p.clip = none → clip = none) ∧
      (p.clip.isSome = true → q.clip = p.clip →
        clip = p.clip.bind (·.regionIn (config.bandRect band)))

/-- A path is drawn with what is current. -/
theorem drafts_path {p : PathDrawing} (himager : s.imager.Sendable)
    (hspace : s.colorSpace.Sendable) (hq : q.Fine) (hpath : p.path.Within (q.fixedRange hq))
    (hop : ∀ source, (p.op source).source = source) (hwithin : ∀ c ∈ p.clip, c.Within q)
    (hclip : ∀ c ∈ p.clip, ∀ c' ∈ q.clip, c' = c) (band : Nat) (rows : RowRange) {d : BandDraft}
    {source : ColorSource}
    (hcolor : Colors q s p.color (BandDraft.forPath { band, state := s.band band }
      (s.config.bandRect band) p s.imager s.colorSpace) d source) :
    Drafts q s (d.drawPath p rows source)
      (p.DrawnBy q s.config s.imager band rows) := by
  intro r₀ hm ht
  obtain ⟨d₀, hd₀⟩ : ∃ d₀, d₀ = BandDraft.forPath { band, state := s.band band }
    (s.config.bandRect band) p s.imager s.colorSpace := ⟨_, rfl⟩
  obtain ⟨hfields, hknown, henabled, hlop⟩ := BandDraft.forPath_state
    { band, state := s.band band } (s.config.bandRect band) p s.imager s.colorSpace
  have hband₀ := BandDraft.forPath_band { band, state := s.band band } (s.config.bandRect band) p
    s.imager s.colorSpace
  rw [← hd₀] at hfields hknown henabled hlop hband₀ hcolor
  have hband : (d.drawPath p rows source).band = band := hcolor.continues.band.trans hband₀
  rw [hband] at hm ht
  obtain ⟨r₁, h₁⟩ := (Drafted.start hm).tellFields himager hspace p.use.required
  obtain ⟨r₂, h₂⟩ := h₁.useClip hwithin hclip
  obtain ⟨r₃, h₃⟩ := h₂.useLop s.imager.logOp false
  have h₃' : Drafted q s r₀ d₀ [] r₃ := hd₀ ▸ h₃
  obtain ⟨r₄, shown, h₄, hshown, hsame⟩ := hcolor.drafted (hband₀.symm ▸ ht) h₃'
  have hm₄ := h₄.mirrors
  obtain ⟨hband₄, hknown₄, henabled₄, hlop₄⟩ := hcolor.continues
  have hdrawn : r₄.pathColor? (p.op source).source = .ok shown := by
    rw [hop]
    exact hshown
  obtain ⟨r₅, h₅⟩ := h₄.drawPath (Terms.fixedRange_suits hq hm₄.within) hpath rows hdrawn
  refine ⟨_, r₅, ⟨_, source, r₄.pathImager, shown, r₄.activeClip, rfl, ?_, ?_, hsame, ?_, ?_⟩, h₅⟩
  · show r₄.band.lop = _
    rw [hm₄.lop, hlop₄, hlop]
  · intro hexact f hf hne
    exact ImagerState.withField_withLogOp (hm₄.imager hexact f (hknown₄ ▸ hfields f hf hne)) _
  · intro hnone
    rw [ReplayState.activeClip, hm₄.clipEnabled, henabled₄, henabled, hnone]
    rfl
  · intro hsome hcurrent
    obtain ⟨c, hc⟩ := Option.isSome_iff_exists.mp hsome
    rw [ReplayState.activeClip, hm₄.clipEnabled, henabled₄, henabled, hsome, if_pos rfl,
      hm₄.clip (hknown₄ ▸ hknown hsome) c (hcurrent.trans hc), hc]
    rw [hband₄, hband₀]
    rfl

namespace Synced

variable [Medium μ] [LawfulMedium μ] [MemoryPolicy μ ν]

/-- The color to draw with is made ready. -/
theorem useDrawingColor (h : Synced q s calls) (d : BandDraft) {color : DrawingColor}
    (hcolor : color.Fits q s.config) :
    Meets (WriterState.useDrawingColor d color) s
      (fun a s' => s.Kept s' ∧ Synced q s' calls ∧ Colors q s' color d a.2 a.1)
      fun _ s' => s.Kept s' ∧ Synced q s' calls := by
  cases color with
  | pure color =>
    refine .get_bind (.pure ⟨.refl s, h, d.continues_useColor .., fun {r₀ r drawn} _ hd => ?_⟩)
    obtain ⟨r', hr'⟩ := hd.useColor h.valid.depth .one hcolor
    refine ⟨r', .pure r'.band.colors.one, hr', rfl, fun hq => ?_⟩
    rw [hr'.mirrors.colors hq, BandDraft.useColor_state]
    rfl
  | halftone tile colors phase =>
    obtain ⟨htile, hcolors, hphase⟩ := hcolor
    refine (h.useTile d htile colors phase).bind fun d' s' hd' => ?_
    obtain ⟨hkept, hs, index, entry, hholds, rfl⟩ := hd'
    refine .pure ⟨hkept, hs, d.continues_tiled .., fun {r₀ r drawn} ht hd => ?_⟩
    have hcolors' : colors.Fits q s'.config := by
      rw [hkept.alike.config]
      exact hcolors
    obtain ⟨r', shown, hr', htile', hshows, hcolors', hphase'⟩ :=
      hd.tiled hs.cache hs.valid ht hholds hcolors' hphase
    refine ⟨r', .halftone shown r'.band.tileColors r'.band.tilePhase, hr', ?_, hshows, hcolors',
      hphase'⟩
    simp [ReplayState.pathColor?, ReplayState.halftoneColor, htile', bind, Except.bind, pure,
      Except.pure]
  | colored bases levels =>
    obtain ⟨hbases, hlevels⟩ := hcolor
    refine Meets.bind (P := fun d' s' => s' = s ∧ levels.length = s.config.components ∧
      d' = d.emit (Command.colored bases levels)) ?_ ?_
    · refine .get_bind ?_
      dsimp only
      split
      · exact .throw ⟨.refl s, h⟩
      · next hlength => exact .pure ⟨rfl, not_not.mp hlength, rfl⟩
    · rintro d' s' ⟨rfl, hlength, rfl⟩
      refine .pure ⟨.refl s', h, ⟨rfl, rfl, rfl, rfl⟩, fun {r₀ r drawn} _ hd => ?_⟩
      obtain ⟨r', bases', hr', hshown, hsame⟩ := hd.tellColored hbases hlevels hlength
      exact ⟨r', .colored bases' levels, hr', by rw [ReplayState.pathColor?, hshown], rfl, hsame⟩

/-- A path is drawn in a band. -/
theorem pathBand (h : Synced q s calls) {band : Nat} (hband : band < s.config.nbands)
    {p : PathDrawing} (himager : s.imager.Sendable) (hspace : s.colorSpace.Sendable) (hq : q.Fine)
    (hpath : p.path.Within (q.fixedRange hq)) (hop : ∀ source, (p.op source).source = source)
    (hcolor : p.color.Fits q s.config) (hwithin : ∀ c ∈ p.clip, c.Within q)
    (hclip : ∀ c ∈ p.clip, ∀ c' ∈ q.clip, c' = c) (rows : RowRange) :
    Tells q s calls band (WriterState.pathBand band p rows)
      (p.DrawnBy q s.config s.imager band rows) := by
  refine .get_bind (.get_bind (.get_bind ?_))
  refine (Meets.mono (h.useDrawingColor (BandDraft.forPath { band, state := s.band band }
    (s.config.bandRect band) p s.imager s.colorSpace) hcolor) (fun _ _ h => h)
    fun e s' hs' => ⟨hs'.1.alike, hs'.2⟩).bind fun a s' hs' => ?_
  obtain ⟨hkept, hs, hcolors⟩ := hs'
  have hband' : (a.2.drawPath p rows a.1).band = band :=
    hcolors.continues.band.trans (BandDraft.forPath_band ..)
  have hsame := hkept.alike
  rw [← hkept.band_eq, ← hsame.config, ← hsame.imager, ← hsame.colorSpace] at hcolors
  have hd := drafts_path (hsame.imager ▸ himager) (hsame.colorSpace ▸ hspace) hq hpath
    hop hwithin hclip band rows hcolors
  have htells := hs.tells_commit hd (by rw [hband', hsame.config]; exact hband)
  rw [hband', hsame.config, hsame.imager] at htells
  exact htells.after hsame

end Synced

end BandedPage
