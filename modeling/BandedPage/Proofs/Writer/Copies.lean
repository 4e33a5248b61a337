import Mathlib
import BandedPage.Proofs.Bits.Basic
import BandedPage.Proofs.Replay.Copies
import BandedPage.Proofs.Writer.Operations
import BandedPage.Proofs.Writer.Pieces
import BandedPage.Proofs.Writer.Resumed

/-!
# Copies in step with replay

A copy is drawn from the cache as a whole, or piece by piece. Either way replay paints the bits of
the bitmap with what the band was told to paint with.
-/

namespace BandedPage

/-- What a copy is painted with, as far as its kind depends on it. -/
structure PaintSettings where
  colors : ColorPair
  tile : Tile
  tileColors : ColorPair
  tilePhase : Phase
  lop : LogicalOp
  clip : Option ClipRegion

namespace PaintSettings

def visible (v : PaintSettings) (box r : Rect) : List Rect :=
  match r.intersect box with
  | none => []
  | some r =>
    match v.clip with
    | some clip => clip.intersections r
    | none => [r]

def copyCalls (v : PaintSettings) (box : Rect) (paint : CopyPaint) (bits : Bitmap) (rect : Rect) :
    List TargetCall :=
  match paint with
  | .mono _ => (v.visible box rect).map fun piece =>
    .copyMono (Replay.subBitmap bits rect piece) piece v.colors
  | .deep => (v.visible box rect).map fun piece =>
    .copyColor (Replay.subBitmap bits rect piece) piece
  | .coverage _ depth => (v.visible box rect).map fun piece =>
    .copyAlpha (Replay.subBitmap bits rect piece) piece v.colors.one (UInt8.ofNat depth)
  | .halftone _ _ _ =>
    [.fillMask bits rect (.halftone v.tile v.tileColors v.tilePhase) 1 v.lop v.clip]

end PaintSettings

namespace ReplayState

def paintSettings (r : ReplayState) (tile : Tile) : PaintSettings where
  colors := r.band.colors
  tile := tile
  tileColors := r.band.tileColors
  tilePhase := r.band.tilePhase
  lop := r.band.lop
  clip := r.activeClip

theorem copyCalls_eq (r : ReplayState) (box : Rect) (paint : CopyPaint) (tile : Tile)
    (bits : Bitmap) (rect : Rect) :
    r.copyCalls box paint tile bits rect = (r.paintSettings tile).copyCalls box paint bits rect := by
  cases paint <;> rfl

end ReplayState

/-- Tell the band where in their first byte the rows of the next copy begin. -/
def BandDraft.shiftRows (d : BandDraft) (shift : Nat) : BandDraft :=
  if shift = 0 then d else d.emit (Command.dataX shift)

theorem BandDraft.shiftRows_keeps (d : BandDraft) (shift : Nat) :
    (d.shiftRows shift).band = d.band ∧ (d.shiftRows shift).sent = d.sent ∧
      (d.shiftRows shift).state = d.state := by
  rw [shiftRows]
  split <;> exact ⟨rfl, rfl, rfl⟩

namespace BitmapCopy

variable {c : BitmapCopy} {config : Config} {columns rows : Span} {d d' : BandDraft}

/-- The bits of a piece, with what is sent in front of them. -/
def pieceBitmap (c : BitmapCopy) (config : Config) (columns rows : Span) : Bitmap :=
  let depth := c.paint.depth config.depth
  { data := (c.pieceRows depth columns rows).toOption.getD #[]
    dataX := c.shift depth columns.start
    raster := Bits.shortRaster (c.rowBits depth columns) }

/-- What is sent for a piece, if it can be sent. -/
theorem sendPiece_eq_ok (h : c.sendPiece config d columns rows = .ok d') :
    ∃ payload : Payload,
      (c.pieceBitmap config columns rows).data.size =
        (c.pieceBitmap config columns rows).raster * Word.pattern 64 rows.length ∧
      Payload.choose (c.pieceBitmap config columns rows).data
        (c.pieceBitmap config columns rows).raster (Word.pattern 64 rows.length)
        (c.paint.methods config.compression) config.readerSize = .ok payload ∧
      d' = { (d.shiftRows (c.pieceBitmap config columns rows).dataX).emit
          (Command.copyInline c.paint (pieceRect columns rows) payload) with
        state := { d.state with rect := pieceRect columns rows } } := by
  cases hrows : c.pieceRows (c.paint.depth config.depth) columns rows with
  | error e => simp [sendPiece, hrows, bind, Except.bind] at h
  | ok bits =>
    have hdata : (c.pieceBitmap config columns rows).data = bits := by
      simp [pieceBitmap, hrows, Except.toOption]
    simp only [sendPiece, hrows, bind, Except.bind] at h
    split at h
    · cases h
    · next payload hpayload =>
      refine ⟨payload, ?_, ?_, ?_⟩
      · rw [hdata]
        exact Bits.size_of_extract hrows
      · rw [hdata]
        exact hpayload
      · have hstate := (d.shiftRows_keeps (c.shift (c.paint.depth config.depth)
          columns.start)).2.2
        cases h
        rw [← hstate]
        rfl

theorem continues_of_sendPiece (h : c.sendPiece config d columns rows = .ok d') : d.Continues d' := by
  obtain ⟨payload, -, -, rfl⟩ := sendPiece_eq_ok h
  exact ⟨(d.shiftRows_keeps _).1, rfl, rfl, rfl⟩

theorem continues_of_foldlM_sendPiece {pieces : List (Span × Span)}
    (h : pieces.foldlM (fun d p => c.sendPiece config d p.1 p.2) d = .ok d') : d.Continues d' := by
  induction pieces generalizing d with
  | nil =>
    cases h
    exact ⟨rfl, rfl, rfl, rfl⟩
  | cons p pieces ih =>
    rw [List.foldlM_cons] at h
    cases hfirst : c.sendPiece config d p.1 p.2 with
    | error e =>
      rw [hfirst] at h
      cases h
    | ok d₁ =>
      rw [hfirst] at h
      exact (continues_of_sendPiece hfirst).trans (ih h)

theorem continues_of_sendCached {index : Nat} {entry : TileEntry} {bits : Bytes}
    (h : c.sendCached config d index entry bits = some d') : d.Continues d' := by
  simp only [sendCached] at h
  split at h
  · cases h
    constructor <;> simp [BandDraft.emit]
  · obtain ⟨payload, -, h⟩ := Option.bind_eq_some_iff.mp h
    cases h
    exact ⟨rfl, rfl, rfl, rfl⟩

end BitmapCopy

variable {μ ν : Type} {q : Terms} {s : WriterState μ ν}

namespace Drafted

variable {r₀ r : ReplayState} {d d' : BandDraft} {drawn : List TargetCall} {c : BitmapCopy}
variable {columns rows : Span} {tile : Tile}

open BitmapCopy in
/-- A piece is copied, and the next one can be. -/
theorem sendPiece (h : Drafted q s r₀ d drawn r)
    (hpiece : c.Piece q s.config columns rows) (hready : r.ReadyFor tile c.paint)
    (hsend : c.sendPiece s.config d columns rows = .ok d') :
    ∃ r', Drafted q s r₀ d' (drawn ++ (r.paintSettings tile).copyCalls (s.config.bandRect d.band)
        c.paint (c.pieceBitmap s.config columns rows) (pieceRect columns rows).toRect) r' ∧
      r'.paintSettings tile = r.paintSettings tile ∧ r'.ReadyFor tile c.paint := by
  obtain ⟨payload, hsize, hpayload, rfl⟩ := sendPiece_eq_ok hsend
  have hm := h.mirrors
  rw [hpiece.rows_eq] at hsize hpayload
  obtain ⟨bits, hbits⟩ : ∃ bits, bits = c.pieceBitmap s.config columns rows := ⟨_, rfl⟩
  have hshift : bits.dataX < 8 := by
    rw [hbits]
    exact c.shift_lt ..
  have hraster : bits.raster = Bits.shortRaster
      ((bits.dataX + (pieceRect columns rows).width.toNat) * c.paint.depth r.config.depth) := by
    rw [hbits, hm.config]
    exact congrArg Bits.shortRaster hpiece.rowBits
  have hroom : bits.raster * rows.length.toNat ≤ r.config.readerSize := by
    rw [hbits, hm.config]
    exact hpiece.fits.trans (Nat.sub_le ..)
  rw [← hbits] at hsize hpayload ⊢
  obtain ⟨hband, hsent, -⟩ := d.shiftRows_keeps bits.dataX
  -- The reader has been told where in its first byte the rows begin.
  obtain ⟨r₁, hr₁⟩ : ∃ r₁ : ReplayState, r₁ = { r with dataX := bits.dataX } := ⟨_, rfl⟩
  have hfirst : ReplaysAll (s.config.bandRect d.band)
      (d.shiftRows bits.dataX).commands.toList r₀ drawn r₁ := by
    rw [BandDraft.shiftRows]
    split
    · next hzero =>
      have hsame : r₁ = r := by
        rw [hr₁, hzero, ← hm.dataX]
      rw [hsame]
      exact h.replays
    · have hshift : bits.dataX < 32 := by omega
      have := h.replays.append (.single (replays_dataX hshift))
      rw [hr₁]
      simpa [BandDraft.emit] using this
  have hready₁ : r₁.ReadyFor tile c.paint := by
    rw [hr₁]
    cases hpaint : c.paint <;> (rw [hpaint] at hready; exact hready)
  have hcopy : Replays (s.config.bandRect d.band) _ r₁ _ _ := replays_copyInline
    (hpiece.within.fits : (pieceRect columns rows).Fits) hpiece.width.le
    (Int.toNat_of_nonneg hpiece.height.le).symm (by rw [hr₁]; exact hraster) hpayload hsize
    (by rw [hr₁]; exact hroom) hready₁
  have hcalls : r₁.copyCalls (s.config.bandRect d.band) c.paint tile
      { data := bits.data, dataX := r₁.dataX, raster := bits.raster }
      (pieceRect columns rows).toRect =
      (r.paintSettings tile).copyCalls (s.config.bandRect d.band) c.paint bits
        (pieceRect columns rows).toRect := by
    rw [ReplayState.copyCalls_eq, hr₁]
    rfl
  rw [hcalls] at hcopy
  refine ⟨({ r₁ with dataX := 0 } : ReplayState).withRect (pieceRect columns rows), ⟨?_, ?_, ?_, ?_⟩,
    ?_, ?_⟩
  · have := hfirst.append (.single hcopy)
    show ReplaysAll (s.config.bandRect (d.shiftRows bits.dataX).band) _ _ _ _
    rw [hband]
    simpa [BandDraft.emit] using this
  · show Mirrors q s (d.shiftRows bits.dataX).band _ _
    rw [hband, hr₁]
    exact { hm with rect := rfl, within := hpiece.within, dataX := rfl }
  · rw [hr₁]
    exact h.tileSize
  · show s.tiles.Reaches q.exactTiles (d.shiftRows bits.dataX).band [] r₀.tiles →
      s.tiles.Reaches q.exactTiles (d.shiftRows bits.dataX).band (d.shiftRows bits.dataX).sent _
    rw [hband, hsent, hr₁]
    exact h.tiles
  · rw [hr₁]
    rfl
  · rw [hr₁] at hready₁ ⊢
    cases hpaint : c.paint <;> (rw [hpaint] at hready₁; exact hready₁)

open BitmapCopy in
/-- All pieces are copied. -/
theorem sendPieces (h : Drafted q s r₀ d drawn r) {pieces : List (Span × Span)}
    (hpieces : ∀ p ∈ pieces, c.Piece q s.config p.1 p.2) (hready : r.ReadyFor tile c.paint)
    (hsend : pieces.foldlM (fun d p => c.sendPiece s.config d p.1 p.2) d = .ok d') :
    d'.band = d.band ∧ ∃ r', Drafted q s r₀ d' (drawn ++ pieces.flatMap fun p =>
      (r.paintSettings tile).copyCalls (s.config.bandRect d.band) c.paint
        (c.pieceBitmap s.config p.1 p.2) (pieceRect p.1 p.2).toRect) r' := by
  induction pieces generalizing d r drawn with
  | nil =>
    cases hsend
    exact ⟨rfl, r, by simpa using h⟩
  | cons p pieces ih =>
    rw [List.foldlM_cons] at hsend
    cases hfirst : c.sendPiece s.config d p.1 p.2 with
    | error e =>
      rw [hfirst] at hsend
      cases hsend
    | ok d₁ =>
      rw [hfirst] at hsend
      obtain ⟨r₁, h₁, hsettings, hready₁⟩ := h.sendPiece (hpieces p List.mem_cons_self) hready hfirst
      obtain ⟨hband, r', h'⟩ := ih h₁ (fun p hp => hpieces p (List.mem_cons_of_mem _ hp)) hready₁
        hsend
      have hband₁ := (continues_of_sendPiece hfirst).band
      rw [hsettings, hband₁] at h'
      refine ⟨hband.trans hband₁, r', ?_⟩
      rw [List.flatMap_cons, ← List.append_assoc]
      exact h'

end Drafted

/-! ### What is painted with -/

namespace CopyPaint

def Fits (q : Terms) (config : Config) : CopyPaint → Prop
  | mono colors => colors.Fits q config
  | deep => True
  | coverage color depth => (q.exactColors → color.IsOf config.depth) ∧ depth ∈ [1, 2, 4, 8]
  | halftone tile colors phase => tile.Fits q ∧ colors.Fits q config ∧ phase.Fits

/-- No tile is painted with. -/
def Plain (paint : CopyPaint) : Prop := ∀ tile colors phase, paint ≠ halftone tile colors phase

/-- What is painted with is what was given. -/
def ShownAs (q : Terms) (config : Config) (v : PaintSettings) : CopyPaint → Prop
  | mono colors => q.exactColors → v.colors = colors
  | deep => True
  | coverage color _ => q.exactColors → v.colors.one = color
  | halftone tile colors phase => q.ShowsTile config tile.id v.tile ∧
    (q.exactColors → v.tileColors = colors) ∧ v.tilePhase = phase

end CopyPaint

/-- The draft goes on to one after which a copy can be painted. -/
structure Paints (q : Terms) (s : WriterState μ ν) (paint : CopyPaint) (d d' : BandDraft) :
    Prop where
  continues : d.Continues d'
  drafted : ∀ {r₀ r drawn}, s.TilesReach q d.band r₀ → Drafted q s r₀ d drawn r →
    ∃ r' tile, Drafted q s r₀ d' drawn r' ∧ r'.ReadyFor tile paint ∧
      paint.ShownAs q s.config (r'.paintSettings tile)
  /-- Unless a tile is painted with, another one may be selected. -/
  independent : paint.Plain →
    ∀ {b : BandState} {r : ReplayState} {tile : Tile}, b.colors = d'.state.colors →
      b.copiesAlpha = d'.state.copiesAlpha → Mirrors q s d'.band b r →
      r.ReadyFor tile paint ∧ paint.ShownAs q s.config (r.paintSettings tile)

/-- The draft with what a copy is painted with, unless that is a tile. -/
def BandDraft.usePlain (d : BandDraft) (depth : Nat) : CopyPaint → BandDraft
  | .mono colors => d.useColors depth colors
  | .deep => d.useCopyMode false
  | .coverage color _ => (d.useCopyMode true).useColor depth .one color
  | .halftone _ _ _ => d

theorem CopyPaint.Fits.paints (hdepth : s.config.depth ∈ Config.depths) (d : BandDraft)
    {paint : CopyPaint} (hplain : paint.Plain) (hpaint : paint.Fits q s.config) :
    Paints q s paint d (d.usePlain s.config.depth paint) := by
  cases paint with
  | mono colors =>
    refine ⟨?_, ?_, ?_⟩
    · exact (d.continues_useColor ..).trans (BandDraft.continues_useColor ..)
    · intro r₀ r drawn _ hd
      obtain ⟨r', hr'⟩ := hd.useColors hdepth hpaint
      refine ⟨r', ⟨0, {}, #[]⟩, hr', trivial, fun hq => ?_⟩
      show r'.band.colors = colors
      rw [hr'.mirrors.colors hq, BandDraft.useColors, BandDraft.useColor_state,
        BandDraft.useColor_state]
      rfl
    · intro _ b r tile hcolors _ hm
      refine ⟨trivial, fun hq => ?_⟩
      show r.band.colors = colors
      rw [hm.colors hq, hcolors, BandDraft.usePlain, BandDraft.useColors, BandDraft.useColor_state,
        BandDraft.useColor_state]
      rfl
  | deep =>
    refine ⟨d.continues_useCopyMode false, ?_, ?_⟩
    · intro r₀ r drawn _ hd
      obtain ⟨r', hr'⟩ := hd.useCopyMode false
      refine ⟨r', ⟨0, {}, #[]⟩, hr', ⟨?_, ?_⟩, trivial⟩
      · simp [hr'.mirrors.copiesAlpha]
      · rw [hr'.mirrors.config]
        exact hdepth
    · intro _ b r tile _ hcopies hm
      refine ⟨⟨?_, ?_⟩, trivial⟩
      · simp [hm.copiesAlpha, hcopies, BandDraft.usePlain]
      · rw [hm.config]
        exact hdepth
  | coverage color depth =>
    obtain ⟨hcolor, hmem⟩ := hpaint
    refine ⟨?_, ?_, ?_⟩
    · exact (d.continues_useCopyMode true).trans (BandDraft.continues_useColor ..)
    · intro r₀ r drawn _ hd
      obtain ⟨r₁, h₁⟩ := hd.useCopyMode true
      obtain ⟨r', hr'⟩ := h₁.useColor hdepth .one hcolor
      refine ⟨r', ⟨0, {}, #[]⟩, hr', ⟨?_, hmem⟩, fun hq => ?_⟩
      · simp [hr'.mirrors.copiesAlpha]
      · show r'.band.colors.one = color
        rw [hr'.mirrors.colors hq, BandDraft.useColor_state]
        rfl
    · intro _ b r tile hcolors hcopies hm
      refine ⟨⟨?_, hmem⟩, fun hq => ?_⟩
      · simp [hm.copiesAlpha, hcopies, BandDraft.usePlain]
      · show r.band.colors.one = color
        rw [hm.colors hq, hcolors, BandDraft.usePlain, BandDraft.useColor_state]
        rfl
  | halftone tile colors phase => exact absurd rfl (hplain tile colors phase)

namespace Synced

variable [Medium μ] [LawfulMedium μ] [MemoryPolicy μ ν] {calls : Nat → List TargetCall}

/-- What a copy is painted with is made ready. -/
theorem usePaint (h : Synced q s calls) (d : BandDraft) {paint : CopyPaint}
    (hpaint : paint.Fits q s.config) :
    Meets (WriterState.usePaint d paint) s
      (fun d' s' => s.Kept s' ∧ Synced q s' calls ∧ Paints q s' paint d d' ∧
        (paint.Plain → d' = d.usePlain s.config.depth paint))
      fun _ s' => s.Kept s' ∧ Synced q s' calls := by
  refine .get_bind ?_
  cases paint with
  | mono colors =>
    exact .pure ⟨.refl s, h, hpaint.paints h.valid.depth d (by simp [CopyPaint.Plain]), fun _ => rfl⟩
  | deep =>
    exact .pure ⟨.refl s, h, hpaint.paints h.valid.depth d (by simp [CopyPaint.Plain]), fun _ => rfl⟩
  | coverage color depth =>
    exact .pure ⟨.refl s, h, hpaint.paints h.valid.depth d (by simp [CopyPaint.Plain]), fun _ => rfl⟩
  | halftone tile colors phase =>
    obtain ⟨htile, hcolors, hphase⟩ := hpaint
    refine (h.useTile d htile colors phase).mono (fun d' s' hd' => ?_) fun _ _ h => h
    obtain ⟨hkept, hs, index, entry, hholds, rfl⟩ := hd'
    refine ⟨hkept, hs, ⟨d.continues_tiled .., fun {r₀ r drawn} ht hd => ?_, fun hplain => ?_⟩,
      fun hplain => absurd rfl (hplain tile colors phase)⟩
    · have hcolors' : colors.Fits q s'.config := by
        rw [hkept.alike.config]
        exact hcolors
      obtain ⟨r', shown, hr', htile', hshows, hsame, hphase'⟩ :=
        hd.tiled hs.cache hs.valid ht hholds hcolors' hphase
      exact ⟨r', shown, hr', htile', hshows, hsame, hphase'⟩
    · exact absurd rfl (hplain tile colors phase)

end Synced

/-! ### Cached bitmaps -/

namespace BitmapCopy

/-- The geometry under which a bitmap is cached. -/
def cachedSize (c : BitmapCopy) (config : Config) : TileSize :=
  .single c.rect.width.toNat c.rect.height.toNat (c.paint.depth config.depth)

def cachedRows (c : BitmapCopy) (config : Config) : Except Error Bytes :=
  Bits.extract c.bitmap.data c.bitmap.raster (c.bitmap.dataX * c.paint.depth config.depth)
    (c.cachedSize config).patternBits (c.cachedSize config).repHeight

theorem size_of_cachedRows {c : BitmapCopy} {config : Config} {rows : Bytes}
    (h : c.cachedRows config = .ok rows) : rows.size = (c.cachedSize config).dataSize := by
  rw [Bits.size_of_extract h, TileSize.dataSize, TileSize.raster, TileSize.width, TileSize.height]
  simp [cachedSize, TileSize.single, TileSize.patternBits]

theorem cachedSize_sendable {c : BitmapCopy} {q : Terms} {config : Config} (hrect : c.rect.OnPage q)
    (hdepth : 1 ≤ c.paint.depth config.depth ∧ c.paint.depth config.depth ≤ 32) :
    (c.cachedSize config).Sendable := by
  have hwidth := hrect.within.fits.width
  have hheight := hrect.within.fits.height
  have hw : (SizedRect.ofRect c.rect).width = c.rect.width := rfl
  have hh : (SizedRect.ofRect c.rect).height = c.rect.height := rfl
  rw [Word.fits32_iff] at hwidth hheight
  have hone : 1 ≤ 1 ∧ 1 < 4294967296 := by norm_num
  refine ⟨?_, ?_, hone, hone, Nat.zero_lt_succ _, hdepth⟩
  · show c.rect.width.toNat < 4294967296
    omega
  · show c.rect.height.toNat < 4294967296
    omega

end BitmapCopy

/-- Bitmaps of this name and geometry may have these bits, and no others as far as bits matter. -/
def Terms.Names (q : Terms) (id : BitmapId) (size : TileSize) (bits : Bytes) : Prop :=
  q.named id size bits ∧ (q.exactTiles → ∀ bits', q.named id size bits' → bits' = bits)

/-- An entry of the cache, and the rows that were to be cached there. -/
structure WriterState.CachesCopy (q : Terms) (s : WriterState μ ν) (c : BitmapCopy) (id : BitmapId)
    (index : Nat) (entry : TileEntry) (rows : Bytes) : Prop where
  entryAt : s.tiles.entryAt index = some entry
  id_eq : entry.id = id
  size : entry.slot.size = c.cachedSize s.config
  rows_eq : c.cachedRows s.config = .ok rows
  named : q.Names id (c.cachedSize s.config) rows

/-- What commands carry of a copy. -/
structure BitmapCopy.Fits (c : BitmapCopy) (q : Terms) (config : Config) : Prop where
  onPage : c.rect.OnPage q
  depth : 1 ≤ c.paint.depth config.depth ∧ c.paint.depth config.depth ≤ 32
  paint : c.paint.Fits q config
  /-- Only bitmaps that are not painted with a tile have names. -/
  plain : c.name.isSome = true → c.paint.Plain
  named : ∀ id ∈ c.name, ∀ rows, c.cachedRows config = .ok rows →
    q.Names id (c.cachedSize config) rows
  clip : ∀ clip ∈ c.clip, clip.Within q ∧ ∀ c' ∈ q.clip, c' = clip

/-- What commands carry can be cut into pieces. -/
theorem BitmapCopy.Fits.canCut {c : BitmapCopy} {q : Terms} {config : Config} (h : c.Fits q config)
    (hvalid : config.Valid) (hsmall : config.payloadRoom * 8 < 2147483648) : c.CanCut q config where
  onPage := h.onPage
  depth := h.depth
  room := by
    have hreader := hvalid.readerSize
    have hlookahead : Buffered.lookahead = 128 := rfl
    rw [Config.payloadRoom]
    omega
  small := hsmall

namespace Drafted

variable {r₀ r : ReplayState} {d d' : BandDraft} {drawn : List TargetCall} {c : BitmapCopy}
variable {id : BitmapId} {index : Nat} {entry : TileEntry} {rows : Bytes}

open BitmapCopy in
/-- The bits of a bitmap are sent to a band that does not have them. -/
theorem sendBitmap (h : Drafted q s r₀ d drawn r) (hcache : s.CacheSound q)
    (ht : s.TilesReach q d.band r₀) (hfits : c.Fits q s.config)
    (hcached : s.CachesCopy q c id index entry rows) (hindex : index < 4096)
    {methods : CompressionSet} {payload : Payload}
    (hpayload : Payload.choose rows entry.slot.size.raster entry.slot.size.height methods
      s.config.readerSize = .ok payload) :
    ∃ r', Drafted q s r₀ (d.sendTile index (Command.bitmapBits entry.slot index payload)) drawn
      r' := by
  have hsendable := cachedSize_sendable hfits.onPage hfits.depth
  have hrows := size_of_cachedRows hcached.rows_eq
  have hall : rows.extract 0 (c.cachedSize s.config).dataSize = rows := by
    rw [← hrows, Array.extract_size]
  have hreach := h.tiles ht.tiles
  have hsize : rows.size = entry.slot.size.dataSize := by
    rw [hcached.size]
    exact hrows
  have hbits : q.exactTiles → rows = s.tiles.bytesIn entry.slot := by
    intro hexact
    refine (hcached.named.2 hexact _ ?_).symm
    rw [← hcached.id_eq, ← hcached.size]
    exact hcache.named index entry hcached.entryAt
  have hstore := hcache.layout.store_eq hcached.entryAt hreach.heapSize hreach.tableSize hsize
  have hstore' : r.tiles.store index (entry.slot.offset % 4294967296) (c.cachedSize s.config)
      (rows.extract 0 (c.cachedSize s.config).dataSize) =
      .ok (r.tiles.receive index entry.slot rows) := by
    rw [hall]
    rw [hcached.size] at hstore
    exact hstore
  have hpayload' : Payload.choose rows (c.cachedSize s.config).raster c.rect.height.toNat methods
      s.config.readerSize = .ok payload := by
    have hheight : (c.cachedSize s.config).height = c.rect.height.toNat := by
      simp [cachedSize, TileSize.single, TileSize.height]
    rw [hcached.size, hheight] at hpayload
    exact hpayload
  have hreplays : Replays (s.config.bandRect d.band) (Command.bitmapBits ⟨entry.slot.offset, _⟩ _ _)
      r _ _ := replays_bitmapBits (hindex.trans (by norm_num))
    hsendable.repWidth hsendable.repHeight (lt_of_le_of_lt hfits.depth.2 (by norm_num)) hpayload'
    hrows.ge hstore'
  have hslot : entry.slot = ⟨entry.slot.offset, c.cachedSize s.config⟩ := by
    rw [← hcached.size]
  have hreplays' : Replays (s.config.bandRect d.band)
      (Command.bitmapBits entry.slot index payload) r []
      (r.withTile (r.tiles.receive index entry.slot rows) index) := by
    rw [hslot] at hreplays ⊢
    exact hreplays
  exact ⟨_, h.receive hcache.layout hcached.entryAt hindex hsize hbits hreplays'⟩

/-- A cached bitmap is selected, and its bits are sent to a band that does not have them. -/
theorem selectCached (h : Drafted q s r₀ d drawn r) (hcache : s.CacheSound q)
    (hvalid : s.config.Valid) (ht : s.TilesReach q d.band r₀)
    (hfits : c.Fits q s.config) (hcached : s.CachesCopy q c id index entry rows)
    (hsend : c.sendCached s.config d index entry rows = some d') :
    ∃ d₁ r₁, Drafted q s r₀ d₁ drawn r₁ ∧ d₁.HasTile index entry ∧ d₁.band = d.band ∧
      d₁.state = { d.state with tileIndex := index } ∧
      d' = { d₁.emit (Command.copyCached c.paint c.rect.x1 c.rect.y1) with
        state := { d₁.state with rect := .ofRect c.rect } } := by
  have hlt : index < s.tiles.table.size :=
    (Array.getElem?_eq_some_iff.mp (TileCache.used_of_entryAt hcached.entryAt)).1
  have hindex : index < 4096 := by
    rw [hcache.tableSize] at hlt
    exact hlt.trans_le hvalid.tileSlots.2
  simp only [BitmapCopy.sendCached] at hsend
  split at hsend
  · next hhas =>
    cases hsend
    obtain ⟨r₁, h₁⟩ := h.useTileIndex hindex
    refine ⟨d.useTileIndex index, r₁, h₁, ⟨by simp, ?_⟩, by simp, by simp, rfl⟩
    rw [BandDraft.useTileIndex_band]
    exact .inl hhas
  · obtain ⟨payload, hchosen, hsend⟩ := Option.bind_eq_some_iff.mp hsend
    cases hsend
    obtain ⟨r₁, h₁⟩ := h.sendBitmap hcache ht hfits hcached hindex (Payload.choose_of_toOption hchosen)
    exact ⟨_, r₁, h₁, ⟨rfl, .inr List.mem_cons_self⟩, rfl, rfl, rfl⟩

open BitmapCopy in
/-- A bitmap is copied from the cache. -/
theorem sendCached (h : Drafted q s r₀ d drawn r) (hcache : s.CacheSound q)
    (hvalid : s.config.Valid) (ht : s.TilesReach q d.band r₀)
    (hfits : c.Fits q s.config) (hplain : c.paint.Plain)
    (hcached : s.CachesCopy q c id index entry rows) {before : BandDraft}
    (hpaints : Paints q s c.paint before d)
    (hsend : c.sendCached s.config d index entry rows = some d') :
    d'.band = d.band ∧ ∃ r' r₁ b stored tile,
      Mirrors q s d.band b r₁ ∧ b.known = d.state.known ∧ b.clipEnabled = d.state.clipEnabled ∧
      b.lop = d.state.lop ∧ c.paint.ShownAs q s.config (r₁.paintSettings tile) ∧
      stored.size = c.cachedSize s.config ∧ q.ShowsTile s.config id stored ∧
      Drafted q s r₀ d' (drawn ++ (r₁.paintSettings tile).copyCalls (s.config.bandRect d.band)
        c.paint { data := stored.data, raster := stored.raster } c.rect) r' := by
  obtain ⟨d₁, r₁, h₁, htile, hband, hstate, rfl⟩ :=
    h.selectCached hcache hvalid ht hfits hcached hsend
  have hm := h₁.mirrors
  have ht₁ : s.TilesReach q d₁.band r₀ := hband.symm ▸ ht
  obtain ⟨stored, hstored, hgives⟩ := h₁.tile_eq hcache ht₁ hcached.entryAt htile
  rw [hband] at hm
  obtain ⟨hready, hshown⟩ := @Paints.independent _ _ _ _ _ _ _ hpaints hplain d₁.state r₁
    ⟨0, {}, #[]⟩ (by rw [hstate]) (by rw [hstate]) hm
  have hwithin := hfits.onPage.within
  have hcopy : Replays (s.config.bandRect d.band) (Command.copyCached _ c.rect.x1 c.rect.y1) _ _ _ :=
    replays_copyCached hwithin.fits.x hwithin.fits.y hstored hready
  have hstoredSize : stored.size = c.cachedSize s.config := hgives.size.trans hcached.size
  have hplace : Rect.ofSize c.rect.x1 c.rect.y1 (Word.wrap32 stored.width)
      (Word.wrap32 stored.height) = c.rect := by
    have hwidth : stored.width = c.rect.width.toNat := by
      simp [Tile.width, hstoredSize, cachedSize, TileSize.single, TileSize.width]
    have hheight : stored.height = c.rect.height.toNat := by
      simp [Tile.height, hstoredSize, cachedSize, TileSize.single, TileSize.height]
    have hw : 0 ≤ c.rect.width := by
      have := hfits.onPage.x
      rw [Rect.width]
      omega
    have hh : 0 ≤ c.rect.height := by
      have := hfits.onPage.y
      rw [Rect.height]
      omega
    have hfitsWidth : Word.fits32 c.rect.width = true := hwithin.fits.width
    have hfitsHeight : Word.fits32 c.rect.height = true := hwithin.fits.height
    rw [hwidth, hheight, Int.toNat_of_nonneg hw, Int.toNat_of_nonneg hh,
      Word.wrap32_of_fits32 hfitsWidth, Word.wrap32_of_fits32 hfitsHeight]
    exact SizedRect.toRect_ofRect c.rect
  rw [hplace, ReplayState.copyCalls_eq] at hcopy
  refine ⟨hband, r₁.withRect (.ofRect c.rect), r₁, d₁.state, stored, ⟨0, {}, #[]⟩, hm,
    by rw [hstate], by rw [hstate], by rw [hstate], hshown, hstoredSize, ?_,
    h₁.emit (hband.symm ▸ hcopy) ?_ rfl rfl⟩
  · rw [← hcached.id_eq]
    exact hgives.showsTile hcache hcached.entryAt
  · rw [hband]
    exact { hm with rect := rfl, within := hwithin }

end Drafted

namespace Synced

variable [Medium μ] [LawfulMedium μ] {calls : Nat → List TargetCall}
variable {c : BitmapCopy} {id : BitmapId}

/-- The cache is asked for a bitmap, which it need not take. -/
theorem cachePlace (h : Synced q s calls) (id : BitmapId) {size : TileSize} (hsize : size.Sendable)
    {bits : Bytes} (hnamed : q.named id size (bits.extract 0 size.dataSize)) :
    Meets (WriterState.cachePlace id size bits) s
      (fun a s' => s.Kept s' ∧ Synced q s' calls ∧ ∀ index ∈ a, s'.tiles.find? id = some index)
      fun _ s' => s.Kept s' ∧ Synced q s' calls := by
  have hasked := h.askTiles id hsize hnamed
  rw [Meets, WriterState.cachePlace, tryCatch_run]
  cases hanswer : WriterState.onTiles (TileCache.lookupOrAdd id size bits) s with
  | ok l s' =>
    obtain ⟨hkept, hs, hfound⟩ := hasked.ok hanswer
    rw [bind_of_ok hanswer]
    refine ⟨hkept, hs, fun index hindex => ?_⟩
    cases hindex
    exact hfound
  | error e s' =>
    obtain ⟨hkept, hs⟩ := hasked.error hanswer
    rw [bind_of_error hanswer]
    cases e
    case bitmapTooLarge => exact ⟨hkept, hs, by simp⟩
    all_goals exact ⟨hkept, hs⟩

/-- A named bitmap has its place in the cache, or none. -/
theorem cacheCopy (h : Synced q s calls) (hfits : c.Fits q s.config) (hid : id ∈ c.name) :
    Meets (WriterState.cacheCopy c id) s
      (fun a s' => s.Kept s' ∧ Synced q s' calls ∧
        ∀ place ∈ a, s'.CachesCopy q c id place.1 place.2.1 place.2.2)
      fun _ s' => s.Kept s' ∧ Synced q s' calls := by
  have hnone : s.Kept s ∧ Synced q s calls ∧
      ∀ place ∈ (none : Option (Nat × TileEntry × Bytes)),
        s.CachesCopy q c id place.1 place.2.1 place.2.2 :=
    ⟨.refl s, h, by simp⟩
  refine .get_bind ?_
  dsimp only
  split
  · exact hnone
  · cases hrows : c.cachedRows s.config with
    | error e =>
      rw [BitmapCopy.cachedRows, BitmapCopy.cachedSize] at hrows
      rw [hrows]
      exact ⟨.refl s, h⟩
    | ok rows =>
      have hrows' := hrows
      rw [BitmapCopy.cachedRows, BitmapCopy.cachedSize] at hrows'
      rw [hrows']
      have hnamed := hfits.named id hid rows hrows
      have hall : rows.extract 0 (c.cachedSize s.config).dataSize = rows := by
        rw [← BitmapCopy.size_of_cachedRows hrows, Array.extract_size]
      have hplace := h.cachePlace id (BitmapCopy.cachedSize_sendable hfits.onPage hfits.depth)
        (show q.named id _ (rows.extract 0 _) from hall.symm ▸ hnamed.1)
      refine Meets.bind (m := WriterState.cachePlace id (c.cachedSize s.config) rows) hplace ?_
      rintro a s' ⟨hkept, hs, hfound⟩
      cases a with
      | none => exact ⟨hkept, hs, fun place hplace => nomatch hplace⟩
      | some index =>
        refine .get_bind (.pure ⟨hkept, hs, ?_⟩)
        intro place hplace
        obtain ⟨entry, hentry, rfl⟩ := Option.map_eq_some_iff.mp hplace
        obtain ⟨hentry, hsize⟩ := Option.filter_eq_some_iff.mp hentry
        obtain ⟨entry', hentry', hid'⟩ := TileCache.entryAt_of_findFrom (hfound index rfl)
        rw [hentry] at hentry'
        cases hentry'
        have hsize' : entry.slot.size = c.cachedSize s.config := of_decide_eq_true hsize
        rw [← hkept.alike.config] at hsize' hrows hnamed
        exact ⟨hentry, hid', hsize', hrows, hnamed⟩

end Synced

namespace WriterState

variable (s) in
@[simp]
theorem copyDraft_band (band : Nat) (c : BitmapCopy) : (s.copyDraft band c).band = band := by
  simp only [copyDraft]
  split
  · simp
  · rw [BandDraft.useClip_band]

variable (s) in
/-- What a band knows before a copy is painted. -/
theorem copyDraft_state (band : Nat) (c : BitmapCopy) :
    (c.clip.isSome = true → (s.copyDraft band c).state.known.contains .clip = true) ∧
      (s.copyDraft band c).state.clipEnabled = c.clip.isSome ∧
      (c.isMask = true → (s.copyDraft band c).state.lop = s.imager.logOp) := by
  obtain ⟨henabled, hknown⟩ :=
    BandDraft.useClip_state { band, state := s.band band } (s.config.bandRect band) c.clip
  simp only [copyDraft]
  split
  · rw [BandDraft.useLop_state]
    exact ⟨hknown, henabled, fun _ => rfl⟩
  · next hmask => exact ⟨hknown, henabled, fun h => absurd h hmask⟩

theorem Kept.copyDraft_eq {s' : WriterState μ ν} (h : s.Kept s') (band : Nat) (c : BitmapCopy) :
    s'.copyDraft band c = s.copyDraft band c := by
  simp only [copyDraft, h.band_eq, h.alike.config, h.alike.imager]

end WriterState

/-- A replay paints a copy in a band with the copy's clip, and a mask with `lop`. -/
structure PaintSettings.For (v : PaintSettings) (q : Terms) (config : Config) (lop : LogicalOp)
    (band : Nat) (c : BitmapCopy) : Prop where
  shown : c.paint.ShownAs q config v
  lop_eq : c.isMask = true → v.lop = lop
  clip_none : c.clip = none → v.clip = none
  clip_some : c.clip.isSome = true → q.clip = c.clip →
    v.clip = c.clip.bind (·.regionIn (config.bandRect band))

/-- The calls that draw a copy in a band when `lop` is current. They draw its pieces, if these can be
sent, or its bits from the cache. -/
inductive BitmapCopy.DrawnBy (c : BitmapCopy) (q : Terms) (config : Config) (lop : LogicalOp)
    (band : Nat) : List TargetCall → Prop
  | pieces {v : PaintSettings} (hv : v.For q config lop band c) {d d' : BandDraft}
    (hsend : c.sendPieces config d = .ok d') :
    DrawnBy c q config lop band ((c.pieces config).flatMap fun p =>
      v.copyCalls (config.bandRect band) c.paint (c.pieceBitmap config p.1 p.2)
        (pieceRect p.1 p.2).toRect)
  | cached {v : PaintSettings} (hv : v.For q config lop band c) {id : BitmapId} (hid : id ∈ c.name)
    {stored : Tile} (hsize : stored.size = c.cachedSize config)
    (hshows : q.ShowsTile config id stored) :
    DrawnBy c q config lop band (v.copyCalls (config.bandRect band) c.paint
      { data := stored.data, raster := stored.raster } c.rect)

section

variable {r₀ r : ReplayState} {c : BitmapCopy} {band : Nat}

/-- A band that was told what comes before a copy paints with the copy's clip. -/
theorem Mirrors.paintSettings_for {b : BandState} (hm : Mirrors q s band b r)
    (hknown : b.known = (s.copyDraft band c).state.known)
    (henabled : b.clipEnabled = (s.copyDraft band c).state.clipEnabled)
    (hlop : b.lop = (s.copyDraft band c).state.lop) {tile : Tile}
    (hshown : c.paint.ShownAs q s.config (r.paintSettings tile)) :
    (r.paintSettings tile).For q s.config s.imager.logOp band c := by
  obtain ⟨hclip, hon, hmask⟩ := s.copyDraft_state band c
  have henabled' : r.band.clipEnabled = c.clip.isSome := by
    rw [hm.clipEnabled, henabled]
    exact hon
  refine ⟨hshown, fun h => ?_, fun hnone => ?_, fun hsome hcurrent => ?_⟩
  · show r.band.lop = _
    rw [hm.lop, hlop]
    exact hmask h
  · show r.activeClip = none
    rw [ReplayState.activeClip, henabled', hnone]
    rfl
  · obtain ⟨clip, hclip'⟩ := Option.isSome_iff_exists.mp hsome
    show r.activeClip = _
    rw [ReplayState.activeClip, henabled', hsome, if_pos rfl,
      hm.clip (hknown ▸ hclip hsome) clip (hcurrent.trans hclip'), hclip']
    rfl

theorem Mirrors.drafted_copyDraft (hm : Mirrors q s band (s.band band) r₀)
    (hfits : c.Fits q s.config) : ∃ r, Drafted q s r₀ (s.copyDraft band c) [] r := by
  obtain ⟨r₁, h₁⟩ := (Drafted.start hm).useClip
    (fun clip (hclip : clip ∈ c.clip) => (hfits.clip clip hclip).1)
    fun clip hclip => (hfits.clip clip hclip).2
  simp only [WriterState.copyDraft]
  split
  · exact h₁.useLop s.imager.logOp false
  · exact ⟨r₁, h₁⟩

/-- The pieces of a copy are drafted. -/
theorem drafts_pieces {d d' : BandDraft} (hvalid : s.config.Valid) (hfits : c.Fits q s.config)
    (hsmall : s.config.payloadRoom * 8 < 2147483648)
    (hpaints : Paints q s c.paint (s.copyDraft band c) d)
    (hsend : c.sendPieces s.config d = .ok d') :
    d'.band = band ∧ Drafts q s d' (c.DrawnBy q s.config s.imager.logOp band) := by
  have hsendable := hsend
  rw [BitmapCopy.sendPieces_eq] at hsend
  have hpieces := fun p (hp : p ∈ c.pieces s.config) => (hfits.canCut hvalid hsmall).piece_of_mem hp
  obtain ⟨hband, hknown, henabled, hlop⟩ := hpaints.continues
  have hband' := s.copyDraft_band band c
  have hsent : d'.band = d.band := (BitmapCopy.continues_of_foldlM_sendPiece hsend).band
  have hband₁ : d'.band = band := hsent.trans (hband.trans hband')
  refine ⟨hband₁, fun r₀ hm ht => ?_⟩
  rw [hband₁] at hm ht
  obtain ⟨r₁, h₁⟩ := hm.drafted_copyDraft hfits
  obtain ⟨r₂, tile, h₂, hready, hshown⟩ := hpaints.drafted (hband'.symm ▸ ht) h₁
  obtain ⟨-, r₃, h₃⟩ := h₂.sendPieces hpieces hready hsend
  have hm₂ := h₂.mirrors
  rw [hband, hband'] at hm₂ h₃
  exact ⟨_, r₃, .pieces (hm₂.paintSettings_for hknown henabled hlop hshown) hsendable, h₃⟩

/-- A copy is drafted through the cache. -/
theorem drafts_cached {d d' : BandDraft} (hcache : s.CacheSound q) (hvalid : s.config.Valid)
    (hfits : c.Fits q s.config)
    (hpaints : Paints q s c.paint (s.copyDraft band c) d) {id : BitmapId} (hid : id ∈ c.name)
    {index : Nat} {entry : TileEntry} {rows : Bytes}
    (hcached : s.CachesCopy q c id index entry rows)
    (hsend : c.sendCached s.config d index entry rows = some d') :
    d'.band = band ∧ Drafts q s d' (c.DrawnBy q s.config s.imager.logOp band) := by
  obtain ⟨hband, hknown, henabled, hlop⟩ := hpaints.continues
  have hband' := s.copyDraft_band band c
  have hplain := hfits.plain (Option.isSome_of_mem hid)
  have hsent : d'.band = d.band := (BitmapCopy.continues_of_sendCached hsend).band
  have hband₁ : d'.band = band := hsent.trans (hband.trans hband')
  refine ⟨hband₁, fun r₀ hm ht => ?_⟩
  rw [hband₁] at hm ht
  obtain ⟨r₁, h₁⟩ := hm.drafted_copyDraft hfits
  obtain ⟨r₂, -, h₂, -, -⟩ := hpaints.drafted (hband'.symm ▸ ht) h₁
  have ht' : s.TilesReach q d.band r₀ := by
    rw [hband, hband']
    exact ht
  obtain ⟨-, r₃, r₄, b, stored, tile, hm₄, hknown₄, henabled₄, hlop₄, hshown, hsize, hshows, h₃⟩ :=
    h₂.sendCached hcache hvalid ht' hfits hplain hcached hpaints hsend
  rw [hband, hband'] at hm₄ h₃
  exact ⟨_, r₃, .cached (hm₄.paintSettings_for (hknown₄.trans hknown) (henabled₄.trans henabled)
    (hlop₄.trans hlop) hshown) hid hsize hshows, h₃⟩

end

namespace Synced

variable [Medium μ] [LawfulMedium μ] {calls : Nat → List TargetCall}
variable {c : BitmapCopy}

/-- A copy is drafted through the cache, or as pieces if the cache does not help. -/
theorem sendCopy (h : Synced q s calls) (hfits : c.Fits q s.config)
    (hsmall : s.config.payloadRoom * 8 < 2147483648) {band : Nat} {d : BandDraft}
    (hpaints : Paints q s c.paint (s.copyDraft band c) d)
    (hplain : c.paint.Plain → d = (s.copyDraft band c).usePlain s.config.depth c.paint) :
    Meets (WriterState.sendCopy d c) s
      (fun d' s' => s.Kept s' ∧ Synced q s' calls ∧ d'.band = band ∧
        Drafts q s' d' (c.DrawnBy q s.config s.imager.logOp band))
      fun _ s' => s.Kept s' ∧ Synced q s' calls := by
  -- What the cache does changes nothing that the draft depends on.
  have hpaints' : ∀ s', s.Kept s' → c.name.isSome = true →
      Paints q s' c.paint (s'.copyDraft band c) d := by
    intro s' hk hname
    have hp := hfits.plain hname
    rw [hk.copyDraft_eq, hplain hp, ← hk.alike.config]
    refine CopyPaint.Fits.paints ?_ _ hp ?_
    · rw [hk.alike.config]
      exact h.valid.depth
    · rw [hk.alike.config]
      exact hfits.paint
  have hpieces : ∀ s', s.Kept s' → Synced q s' calls →
      Paints q s' c.paint (s'.copyDraft band c) d →
      Meets (liftM (c.sendPieces s.config d) : WriteM μ ν BandDraft) s'
        (fun d' s' => s.Kept s' ∧ Synced q s' calls ∧ d'.band = band ∧
          Drafts q s' d' (c.DrawnBy q s.config s.imager.logOp band))
        fun _ s' => s.Kept s' ∧ Synced q s' calls := by
    intro s' hk hs' hpaints'
    cases hsend : c.sendPieces s.config d with
    | error e => exact ⟨hk, hs'⟩
    | ok d' =>
      rw [← hk.alike.config] at hsend hfits hsmall
      obtain ⟨hband, hd⟩ := drafts_pieces hs'.valid hfits hsmall hpaints' hsend
      rw [hk.alike.config, hk.alike.imager] at hd
      exact ⟨hk, hs', hband, hd⟩
  refine .get_bind ?_
  dsimp only
  cases hname : c.name with
  | none => exact hpieces s (.refl s) h hpaints
  | some id =>
    have hid : id ∈ c.name := hname
    refine (h.cacheCopy hfits hid).bind fun place s' hplace => ?_
    obtain ⟨hk, hs', hcached⟩ := hplace
    have hpaints₁ := hpaints' s' hk (by rw [hname]; rfl)
    have hinline := hpieces s' hk hs' hpaints₁
    cases place with
    | none => exact hinline
    | some found =>
      cases hsend : c.sendCached s.config d found.1 found.2.1 found.2.2 with
      | none =>
        simp only [Option.bind_some, hsend]
        exact hinline
      | some d' =>
        have hcopy := hcached found rfl
        have hsend' := hsend
        rw [← hk.alike.config] at hsend' hfits
        obtain ⟨hband, hd⟩ := drafts_cached hs'.cache hs'.valid hfits hpaints₁ hid hcopy
          hsend'
        rw [hk.alike.config, hk.alike.imager] at hd
        simp only [Option.bind_some, hsend]
        exact ⟨hk, hs', hband, hd⟩

variable [MemoryPolicy μ ν]

/-- A bitmap is copied to a band. -/
theorem copyBand (h : Synced q s calls) (hfits : c.Fits q s.config)
    (hsmall : s.config.payloadRoom * 8 < 2147483648) {band : Nat} (hband : band < s.config.nbands) :
    Tells q s calls band (WriterState.copyBand band c)
      (c.DrawnBy q s.config s.imager.logOp band) := by
  refine .get_bind (.get_bind (.get_bind ?_))
  have hpaint := h.usePaint (s.copyDraft band c) hfits.paint
  refine (Meets.mono hpaint (fun _ _ h => h) fun e s' hs' => ⟨hs'.1.alike, hs'.2⟩).bind
    fun d s' hd => ?_
  obtain ⟨hk, hs', hpaints, hplain⟩ := hd
  have hsame := hk.alike
  rw [← hsame.config] at hfits hsmall hplain
  rw [← hk.copyDraft_eq] at hpaints hplain
  have hcopy := hs'.sendCopy hfits hsmall hpaints hplain
  refine (Meets.mono hcopy (fun _ _ h => h) fun e s'' hs'' =>
    ⟨hsame.trans hs''.1.alike, hs''.2⟩).bind fun d' s'' hd' => ?_
  obtain ⟨hk', hs'', hband', hdrafts⟩ := hd'
  have hsame' := hsame.trans hk'.alike
  have htells := hs''.tells_commit hdrafts (by rw [hband', hsame'.config]; exact hband)
  rw [hband', hsame.config, hsame.imager] at htells
  exact htells.after hsame'

end Synced

end BandedPage
