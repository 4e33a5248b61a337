import Mathlib
import BandedPage.Proofs.Bits.Payload
import BandedPage.Proofs.Replay.Fields
import BandedPage.Proofs.Tile.Vacancy
import BandedPage.Proofs.Writer.Copies
import BandedPage.Proofs.Writer.Lengths
import BandedPage.Proofs.Writer.Samples

/-!
# Drawings that are granted

Apart from the rows of a bitmap no command of a drawing takes more than a few bytes, and the rows are
cut to the reader's buffer, which a command buffer has room for. So where memory is never refused, an
operation on a band fails only over a bitmap that cannot be sent at all.
-/

namespace BandedPage

/-! ### Commands -/

@[simp]
theorem Single.length_toBytes (a : Single) : a.toBytes.length = 4 := Word.length_littleEndian ..

theorem Matrix.length_encode_le (m : Matrix) : m.encode.length ≤ 25 := by
  have hpair : ∀ u v : Single, (encodePair u v).2.length ≤ 8 := by
    intro u v
    rw [encodePair]
    split
    · simp
    split
    · simp
    split <;> simp
  have hoffset : ∀ v : Single, (encodeOffset v).2.length ≤ 4 := by
    intro v
    rw [encodeOffset]
    split <;> simp
  have := hpair m.xx m.yy
  have := hpair m.yx m.xy
  have := hoffset m.tx
  have := hoffset m.ty
  simp only [encode, List.length_cons, List.length_append]
  omega

theorem Offset.length_encode_le (offsets : List Fixed) :
    (encode offsets).length ≤ 5 * offsets.length := by
  have halone : ∀ d : Fixed, (encodeAlone d).length ≤ 5 := by
    intro d
    rw [encodeAlone]
    split
    · simp
    split <;> simp
  induction offsets using encode.induct with
  | case1 => simp [encode]
  | case2 d hquarter =>
    rw [encode, if_pos hquarter]
    simp [encodeQuarter]
  | case3 d hquarter =>
    rw [encode, if_neg hquarter]
    simpa using halone d
  | case4 d e rest hquarter ih =>
    rw [encode, if_pos hquarter]
    simp only [encodeQuarter, List.length_append, Word.length_bigEndian, List.length_cons] at ih ⊢
    omega
  | case5 d e rest hquarter hpair ih =>
    rw [encode, if_neg hquarter, if_pos hpair]
    simp only [encodePair, List.length_append, Word.length_bigEndian, List.length_cons]
    omega
  | case6 d e rest hquarter hpair ih =>
    have := halone d
    rw [encode, if_neg hquarter, if_neg hpair]
    simp only [List.length_append, List.length_cons] at ih ⊢
    omega

namespace Command

theorem length_ofField_le {s : ImagerState} {cs : ColorSpace} (hs : s.Sendable) (hcs : cs.Sendable)
    (f : StateField) : (ofField s cs f).length ≤ 54 := by
  cases f with
  | ctm =>
    have := s.ctm.length_encode_le
    simp only [ofField, List.length_cons]
    omega
  | dash =>
    have hpattern := hs.dash
    have hbytes : (s.dash.pattern.flatMap Single.toBytes).length = 4 * s.dash.pattern.length := by
      simp [List.length_flatMap, mul_comm]
    simp only [Dash.maxLength] at hpattern
    simp only [ofField, dash, List.length_cons, List.length_append, Single.length_toBytes, hbytes]
    omega
  | colorSpace =>
    simp only [ofField, colorSpace, List.length_cons]
    cases hindexing : cs.indexing with
    | none => simp
    | some ix =>
      have := Varint.length_encode_le_five (hcs ix hindexing)
      simp only
      omega
  | _ => simp [ofField, option, Operand.ofInteger]

theorem length_segment_le (op : SegmentOp) (offsets : List Fixed) :
    (segment op offsets).length ≤ 1 + 5 * offsets.length := by
  have := Offset.length_encode_le offsets
  rw [segment, List.length_cons]
  omega

theorem length_copyHead_le (paint : CopyPaint) (flags : UInt8) : (copyHead paint flags).length ≤ 2 := by
  cases paint <;> simp [copyHead]

theorem length_copyInline_le (paint : CopyPaint) (r : SizedRect) (payload : Payload) :
    (copyInline paint r payload).length ≤ 22 + payload.data.length := by
  have := length_copyHead_le paint payload.compression.code
  have := Varint.length_encodeInt_le r.x
  have := Varint.length_encodeInt_le r.y
  have := Varint.length_encodeInt_le r.width
  have := Varint.length_encodeInt_le r.height
  simp only [copyInline, List.length_append]
  omega

end Command

/-! ### Paths -/

/-- All segment commands are as short as six offsets allow. -/
def SegmentStream.Short (s : SegmentStream) : Prop := ∀ c ∈ s.commands.toList, c.length ≤ 31

namespace SegmentStream.Short

variable {s : SegmentStream} {notes : SegmentNotes}

theorem push (h : s.Short) {c : Command} (hc : c.length ≤ 31) : (s.push c).Short := by
  intro c' hc'
  have hmem : c' ∈ s.commands.toList ++ [c] := by simpa [SegmentStream.push] using hc'
  rcases List.mem_append.mp hmem with hmem | hmem
  · exact h c' hmem
  · rwa [List.mem_singleton.mp hmem]

theorem segment (h : s.Short) (op : SegmentOp) {offsets : List Fixed} (hlen : offsets.length ≤ 6) :
    (s.push (Command.segment op offsets)).Short := by
  have := Command.length_segment_le op offsets
  exact h.push (by omega)

theorem add (h : s.Short) (op : SegmentOp) {offsets : List Fixed} (hlen : offsets.length ≤ 6)
    (notes : SegmentNotes) : (s.add op offsets notes).Short := by
  refine segment (s := s.mark notes) ?_ op hlen
  rw [mark]
  split
  · exact h
  · exact h.push (c := Command.notes notes) (by simp [Command.notes, Command.option])

theorem flush (h : s.Short) : s.flush.Short := by
  have hrest : Short { s with waiting := .none } := h
  simp only [SegmentStream.flush]
  split
  · exact hrest
  · exact hrest.segment _ (by simp)
  · exact hrest.add _ (by simp) _
  · exact hrest.add _ (by simp) _

theorem move (h : s.Short) (dx dy : Fixed) : (s.move dx dy).Short := h.flush

theorem lineAlone (h : s.Short) (dx dy : Fixed) : (s.lineAlone dx dy notes).Short := by
  simp only [SegmentStream.lineAlone]
  split
  · exact h.flush.add _ (by simp) _
  · split
    · exact h.flush.add _ (by simp) _
    · exact h.flush.add _ (by simp) _

theorem line (h : s.Short) (dx dy : Fixed) (notes : SegmentNotes) : (s.line dx dy notes).Short := by
  rw [SegmentStream.line]
  split
  · exact h.lineAlone dx dy
  · split
    · exact h
    · exact h.lineAlone dx dy
  · split
    · exact h
    · exact h.lineAlone dx dy
  · split
    · exact add (s := { s with waiting := .none }) h _ (by simp) _
    · exact h.lineAlone dx dy

theorem length_curveForm (a b c d e f : Fixed) : (curveForm a b c d e f).2.length ≤ 6 := by
  simp only [curveForm]
  split_ifs <;> simp

theorem curve (h : s.Short) (p c1 c2 stop : Point) (notes : SegmentNotes) :
    (s.curve p c1 c2 stop notes).Short :=
  h.flush.add _ (length_curveForm ..) notes

theorem close (h : s.Short) : s.close.Short := h.flush.segment _ (by simp)

end SegmentStream.Short

namespace BandWalk

variable {w : BandWalk}

theorem short_catchUp (h : w.stream.Short) : w.catchUp.stream.Short := by
  rw [catchUp]
  split
  · split
    · exact h.move _ _
    · exact h.line _ _ _
  · exact h

theorem short_close (h : w.stream.Short) : w.close.stream.Short := by
  have hreturned : w.returnToStart.stream.Short := by
    rw [returnToStart]
    split
    · exact h
    · have hbehind : (if w.isBehind then
          { w.drawLine w.outside w.outsideNotes with unsent := false } else w).stream.Short := by
        split
        · exact h.line _ _ _
        · exact h
      generalize (if w.isBehind then
        { w.drawLine w.outside w.outsideNotes with unsent := false } else w) = v at hbehind ⊢
      dsimp only
      split
      · exact hbehind.line _ _ _
      · exact hbehind
  rw [close]
  generalize w.returnToStart = v at hreturned ⊢
  split
  · exact hreturned.flush
  · exact hreturned.close

theorem short_closeIfImplicit (h : w.stream.Short) : w.closeIfImplicit.stream.Short := by
  rw [closeIfImplicit]
  split
  · exact short_close h
  · exact h

theorem short_step (h : w.stream.Short) (s : Segment) : (w.step s).stream.Short := by
  cases s with
  | move p =>
    have hclosed := short_closeIfImplicit h
    simp only [step, moveTo]
    split
    · exact hclosed.move _ _
    · exact hclosed
  | line p notes =>
    simp only [step, lineTo]
    split
    · exact h
    · exact (short_catchUp h).line _ _ _
  | curve c1 c2 p notes =>
    simp only [step, curveTo]
    split
    · exact h
    · exact (short_catchUp h).curve _ _ _ _ _
  | close => exact short_close h

theorem short_ofPath (origin : Point) (rows : RowRange) (use : PathUse) (path : Path) :
    (ofPath origin rows use path).stream.Short := by
  have hall : ∀ (segments : List Segment) (w : BandWalk), w.stream.Short →
      (segments.foldl step w).stream.Short := by
    intro segments
    induction segments with
    | nil => exact fun _ h => h
    | cons s segments ih => exact fun w h => ih _ (short_step h s)
  rw [ofPath, ← Array.foldl_toList]
  exact (short_closeIfImplicit (hall _ _ fun c hc => absurd hc List.not_mem_nil)).flush

end BandWalk

/-! ### Drafts -/

@[simp] theorem BandDraft.usePlain_band (d : BandDraft) (depth : Nat) (paint : CopyPaint) :
    (d.usePlain depth paint).band = d.band := by
  cases paint <;> simp [usePlain, useColors]

namespace BandDraft.Short

variable {n : Nat} {d : BandDraft}

theorem tellFields (h : d.Short n) (hn : 54 ≤ n) {s : ImagerState} {cs : ColorSpace}
    (hs : s.Sendable) (hcs : cs.Sendable) (required : FieldSet) :
    (d.tellFields required s cs).Short n := by
  intro c hc
  simp only [BandDraft.tellFields, Array.toList_appendList, List.mem_append] at hc
  rcases hc with hc | hc
  · exact h c hc
  · obtain ⟨f, -, rfl⟩ := List.mem_map.mp hc
    exact (Command.length_ofField_le hs hcs f).trans hn

theorem useClip (h : d.Short n) (hn : 21 ≤ n) (area : Rect) (clip : Option ClipPath) :
    (d.useClip area clip).Short n := by
  cases clip with
  | none => exact h.switchClip (by omega) false
  | some clip =>
    refine switchClip ?_ (by omega) true
    rw [tellClip]
    split
    · exact h
    · have hrects : ∀ (rects : List Rect) (d : BandDraft), d.Short n →
          (rects.foldl (fun d r => d.rect Opcode.fillRect r) d).Short n := by
        intro rects
        induction rects with
        | nil => exact fun _ h => h
        | cons r rects ih => exact fun d h => ih _ (h.rect hn _ _)
      have hbegun : (d.emit Command.beginClip).Short n :=
        h.emit (c := Command.beginClip) (by simp only [Command.beginClip, List.length_singleton]; omega) _
      refine (hrects _ _ hbegun).emit (c := Command.endClip clip.outside) ?_ _
      simp only [Command.endClip, List.length_cons, List.length_nil]
      omega

theorem drawPath (h : d.Short n) (hn : 31 ≤ n) (p : PathDrawing) (rows : RowRange)
    (source : ColorSource) : (d.drawPath p rows source).Short n := by
  intro c hc
  simp only [BandDraft.drawPath, Array.toList_push, Array.toList_append, List.mem_append,
    List.mem_singleton] at hc
  rcases hc with (hc | hc) | rfl
  · exact h c hc
  · exact (BandWalk.short_ofPath _ _ _ _ c hc).trans hn
  · simp only [Command.path, List.length_singleton]
    omega

/-- What a copy is painted with, unless that is a tile. -/
theorem usePlain (h : d.Short n) (hn : 5 ≤ n) {depth : Nat} (hdepth : depth ∈ Config.depths)
    (paint : CopyPaint) : (d.usePlain depth paint).Short n := by
  have hmode : ∀ alpha, (d.useCopyMode alpha).Short n := by
    intro alpha
    rw [useCopyMode]
    split
    · exact h
    · exact h.emit (c := Command.copyMode alpha)
        (by simp only [Command.copyMode, List.length_singleton]; omega) _
  cases paint with
  | mono colors => exact (h.useColor hn hdepth _ _).useColor hn hdepth _ _
  | deep => exact hmode false
  | coverage color depth => exact (hmode true).useColor hn hdepth _ _
  | halftone tile colors phase => exact h

open BitmapCopy in
/-- The rows of a piece fit the buffer of the reader. -/
theorem sendPiece (h : d.Short n) {config : Config} (hn : config.readerSize + 22 ≤ n)
    {c : BitmapCopy} {columns rows : Span} {d' : BandDraft}
    (hsend : c.sendPiece config d columns rows = .ok d') : d'.Short n := by
  obtain ⟨payload, -, hpayload, rfl⟩ := sendPiece_eq_ok hsend
  have hdata := Payload.length_data_le_readerSize hpayload
  have hshifted : ∀ shift, (d.shiftRows shift).Short n := by
    intro shift
    rw [shiftRows]
    split
    · exact h
    · exact h.emit (c := Command.dataX shift)
        (by simp only [Command.dataX, List.length_cons, List.length_nil]; omega) _
  refine (hshifted _).emit (c := Command.copyInline c.paint (pieceRect columns rows) payload) ?_ _
  exact (Command.length_copyInline_le ..).trans (by omega)

end BandDraft.Short

namespace BitmapCopy

variable {c : BitmapCopy} {config : Config} {d d' : BandDraft}

/-- Whether a piece can be sent does not depend on what was sent before. -/
theorem sendPiece_ok {columns rows : Span} (h : c.sendPiece config d columns rows = .ok d')
    (e : BandDraft) : ∃ e', c.sendPiece config e columns rows = .ok e' := by
  simp only [BitmapCopy.sendPiece] at h ⊢
  cases hrows : c.pieceRows (c.paint.depth config.depth) columns rows with
  | error _ =>
    rw [hrows] at h
    cases h
  | ok bits =>
    rw [hrows] at h
    simp only [bind, Except.bind] at h ⊢
    split at h
    · cases h
    · exact ⟨_, rfl⟩

/-- A copy that can be sent at all can be sent after any draft of short commands, which it leaves
short. -/
theorem sendPieces_ok {n : Nat} (hn : config.readerSize + 22 ≤ n) {d₀ d₀' : BandDraft}
    (hsend : c.sendPieces config d₀ = .ok d₀') (hd : d.Short n) :
    ∃ d', c.sendPieces config d = .ok d' ∧ d'.Short n ∧ d'.band = d.band := by
  rw [sendPieces_eq] at hsend ⊢
  generalize c.pieces config = pieces at hsend ⊢
  induction pieces generalizing d d₀ with
  | nil => exact ⟨d, rfl, hd, rfl⟩
  | cons p pieces ih =>
    rw [List.foldlM_cons] at hsend ⊢
    cases hfirst : c.sendPiece config d₀ p.1 p.2 with
    | error _ =>
      rw [hfirst] at hsend
      cases hsend
    | ok d₁ =>
      rw [hfirst] at hsend
      obtain ⟨e₁, he₁⟩ := sendPiece_ok hfirst d
      obtain ⟨d', hrest, hshort, hband⟩ := ih (hd.sendPiece hn he₁) hsend
      refine ⟨d', ?_, hshort, hband.trans (continues_of_sendPiece he₁).band⟩
      rw [he₁]
      exact hrest

end BitmapCopy

/-! ### Operations -/

/-- Memory that is there whenever it is asked for. -/
def MemoryPolicy.Grants (μ ν : Type) [MemoryPolicy μ ν] : Prop :=
  ∀ (n : Nat) (memory : ν), ∃ memory', MemoryPolicy.reserve μ n memory = .ok () memory'

namespace Synced

variable {μ ν : Type} [Medium μ] [LawfulMedium μ] [MemoryPolicy μ ν]
variable {q : Terms} {s : WriterState μ ν} {calls : Nat → List TargetCall} {band : Nat}

theorem commit_ok (h : Synced q s calls) (hgrants : MemoryPolicy.Grants μ ν) {d : BandDraft}
    (hband : d.band < s.config.nbands) (hd : d.Short s.config.bufferSize) :
    ∃ s', WriterState.commit d s = .ok () s' := by
  obtain ⟨memory, hreserve⟩ := hgrants d.commands.toList.flatten.length s.memory
  exact h.commit_of_fit hband hd hreserve

omit [MemoryPolicy μ ν] in
/-- Every command buffer has room for the commands that are not rows of a bitmap. -/
theorem room (h : Synced q s calls) :
    s.config.readerSize + 128 ≤ s.config.bufferSize ∧ 256 ≤ s.config.readerSize :=
  ⟨h.valid.bufferSize, h.valid.readerSize⟩

theorem fillBand_ok (h : Synced q s calls) (hgrants : MemoryPolicy.Grants μ ν)
    (hband : band < s.config.nbands) (rect : Rect) (color : Color) :
    ∃ s', WriterState.fillBand band rect color s = .ok () s' := by
  obtain ⟨hroom, hreader⟩ := h.room
  have hstart := BandDraft.Short.start s.config.bufferSize band (s.band band)
  have hlop := (hstart.switchClip (by omega) false).useLop (by omega) s.imager.logOp true
  have hfill := (hlop.useColor (by omega) h.valid.depth .one color).rect (by omega)
    Opcode.fillRect rect
  refine h.commit_ok hgrants (lt_of_eq_of_lt ?_ hband) hfill
  exact BandDraft.fill_band { band, state := s.band band } ..

omit [MemoryPolicy μ ν] in
/-- A bitmap without a name can be sent if its pieces can. -/
theorem sendCopy_ok_of_unnamed (h : Synced q s calls) {c : BitmapCopy} (hname : c.name = none)
    {d₀ d₀' : BandDraft} (hsend : c.sendPieces s.config d₀ = .ok d₀') {d : BandDraft}
    (hd : d.Short s.config.bufferSize) :
    ∃ d', WriterState.sendCopy d c s = .ok d' s ∧ d'.Short s.config.bufferSize ∧ d'.band = d.band := by
  obtain ⟨hroom, hreader⟩ := h.room
  obtain ⟨d', hd', hshort, hband⟩ := BitmapCopy.sendPieces_ok (by omega) hsend hd
  refine ⟨d', ?_, hshort, hband⟩
  simp only [WriterState.sendCopy, hname, get_bind_run]
  show (liftM (c.sendPieces s.config _) : WriteM μ ν BandDraft) s = _
  rw [hd']
  rfl

/-- A bitmap that can be sent after any draft of short commands is copied. -/
theorem copyBand_ok (h : Synced q s calls) (hgrants : MemoryPolicy.Grants μ ν)
    (hband : band < s.config.nbands) {c : BitmapCopy} (hplain : c.paint.Plain)
    (hsend : ∀ d : BandDraft, d.Short s.config.bufferSize → ∃ d' s',
      WriterState.sendCopy d c s = .ok d' s' ∧ Synced q s' calls ∧ s'.config = s.config ∧
        d'.Short s.config.bufferSize ∧ d'.band = d.band) :
    ∃ s', WriterState.copyBand band c s = .ok () s' := by
  obtain ⟨hroom, hreader⟩ := h.room
  have hclip : (s.copyDraft band c).Short s.config.bufferSize := by
    have := (BandDraft.Short.start s.config.bufferSize band (s.band band)).useClip (by omega)
      (s.config.bandRect band) c.clip
    simp only [WriterState.copyDraft]
    split
    · exact this.useLop (by omega) _ _
    · exact this
  obtain ⟨d', s', hsent, hs', hconfig, hshort, hband'⟩ :=
    hsend _ (hclip.usePlain (by omega) h.valid.depth c.paint)
  have hused : (WriterState.usePaint (s.copyDraft band c) c.paint : WriteM μ ν BandDraft) s =
      .ok ((s.copyDraft band c).usePlain s.config.depth c.paint) s := by
    cases hpaint : c.paint with
    | halftone tile colors phase => exact absurd hpaint (hplain tile colors phase)
    | _ => rfl
  have hrun : WriterState.copyBand band c s = WriterState.commit d' s' := by
    show (WriterState.usePaint (s.copyDraft band c) c.paint >>= fun d =>
      WriterState.sendCopy d c >>= WriterState.commit) s = _
    rw [bind_of_ok hused, bind_of_ok hsent]
  rw [hrun]
  refine hs'.commit_ok hgrants ?_ (hconfig ▸ hshort)
  rw [hband', BandDraft.usePlain_band, s.copyDraft_band, hconfig]
  exact hband

theorem pathBand_ok (h : Synced q s calls) (hgrants : MemoryPolicy.Grants μ ν)
    (hband : band < s.config.nbands) (himager : s.imager.Sendable)
    (hspace : s.colorSpace.Sendable) {p : PathDrawing} {color : Color}
    (hcolor : p.color = .pure color) (rows : RowRange) :
    ∃ s', WriterState.pathBand band p rows s = .ok () s' := by
  obtain ⟨hroom, hreader⟩ := h.room
  have htold := (BandDraft.Short.start s.config.bufferSize band (s.band band)).tellFields (by omega)
    himager hspace p.use.required
  have hready := (htold.useClip (by omega) (s.config.bandRect band) p.clip).useLop (by omega)
    s.imager.logOp false
  have hdrawn := (hready.useColor (by omega) h.valid.depth .one color).drawPath (by omega) p rows
    .pure
  have hrun : WriterState.pathBand band p rows s = WriterState.commit
      (((BandDraft.forPath { band, state := s.band band } (s.config.bandRect band) p s.imager
        s.colorSpace).useColor s.config.depth .one color).drawPath p rows .pure) s := by
    simp only [WriterState.pathBand, hcolor]
    rfl
  rw [hrun]
  refine h.commit_ok hgrants (lt_of_eq_of_lt ?_ hband) hdrawn
  show (BandDraft.useColor _ _ _ _).band = band
  simp

end Synced

end BandedPage

/-!
## Bitmaps that can always be sent

The cache refuses a bitmap only because it is too large, and a bitmap that does not go through the
cache is cut into pieces, which can be sent if the bitmap has all its rows. So where memory is granted
such a bitmap is copied, whatever its name.
-/

namespace BandedPage

namespace Command

theorem length_tileIndex_le (index last : Nat) : (tileIndex index last).length ≤ 2 := by
  simp only [tileIndex]
  split <;> simp

theorem length_copyCached_le (paint : CopyPaint) (x y : Int) :
    (copyCached paint x y).length ≤ 12 := by
  have := length_copyHead_le paint Opcode.copyFromTile
  have := Varint.length_encodeInt_le x
  have := Varint.length_encodeInt_le y
  simp only [copyCached, List.length_append]
  omega

theorem length_bitmapBits_le {slot : TileSlot} (hslot : slot.size.Sendable) {index : Nat}
    (hindex : index < 4294967296) (payload : Payload) :
    (bitmapBits slot index payload).length ≤ 22 + payload.data.length := by
  have := Varint.length_encode_le_five hslot.repWidth
  have := Varint.length_encode_le_five hslot.repHeight
  have := Varint.length_encode_le_five hindex
  have := Varint.length_encode_le_five (Nat.mod_lt slot.offset (by norm_num : 4294967296 > 0))
  simp only [bitmapBits, List.length_cons, List.length_append]
  omega

end Command

namespace BandDraft.Short

variable {n : Nat} {d d' : BandDraft}

theorem useTileIndex (h : d.Short n) (hn : 2 ≤ n) (index : Nat) : (d.useTileIndex index).Short n := by
  rw [BandDraft.useTileIndex]
  split
  · exact h
  · exact h.emit ((Command.length_tileIndex_le ..).trans hn) _

theorem sendTile (h : d.Short n) (index : Nat) {bits : Command} (hbits : bits.length ≤ n) :
    (d.sendTile index bits).Short n :=
  h.emit hbits { d.state with tileIndex := index }

/-- A copy through the cache leaves a draft short. -/
theorem sendCached (h : d.Short n) {config : Config} (hn : config.readerSize + 22 ≤ n)
    {c : BitmapCopy} {index : Nat} (hindex : index < 4294967296) {entry : TileEntry}
    (hsize : entry.slot.size.Sendable) {rows : Bytes}
    (hsend : c.sendCached config d index entry rows = some d') : d'.Short n := by
  have hcopy : (Command.copyCached c.paint c.rect.x1 c.rect.y1).length ≤ n :=
    (Command.length_copyCached_le ..).trans (by omega)
  simp only [BitmapCopy.sendCached] at hsend
  split at hsend
  · cases hsend
    exact (h.useTileIndex (by omega) index).emit hcopy _
  · obtain ⟨payload, hchosen, hsend⟩ := Option.bind_eq_some_iff.mp hsend
    cases hsend
    have hdata := Payload.length_data_le_readerSize (Payload.choose_of_toOption hchosen)
    have hbits := Command.length_bitmapBits_le hsize hindex payload
    exact (h.sendTile index (hbits.trans (by omega))).emit hcopy _

end BandDraft.Short

variable {μ ν : Type}

/-- A bitmap finds its place in the cache, or is too large. -/
theorem WriterState.cachePlace_ok {s : WriterState μ ν} (h : s.tiles.Counted)
    (hsize : Config.isPowerOfTwo s.tiles.table.size = true) (id : BitmapId) (size : TileSize)
    (rows : Bytes) : ∃ place s', cachePlace id size rows s = .ok place s' := by
  rw [cachePlace, tryCatch_run]
  cases hrun : TileCache.lookupOrAdd id size rows s.tiles with
  | ok l tiles =>
    rw [bind_of_ok (onTiles_of_ok hrun)]
    exact ⟨_, _, rfl⟩
  | error e tiles =>
    obtain ⟨n, limit, rfl⟩ := h.lookupOrAdd_error hsize hrun
    rw [bind_of_error (onTiles_of_error hrun)]
    exact ⟨_, _, rfl⟩

namespace Synced

variable [Medium μ] [LawfulMedium μ]
variable {q : Terms} {s : WriterState μ ν} {calls : Nat → List TargetCall} {c : BitmapCopy}

theorem cacheCopy_ok (h : Synced q s calls) (hcounted : s.tiles.Counted)
    (hcovers : c.bitmap.Covers c.rect (c.paint.depth s.config.depth)) (id : BitmapId) :
    ∃ place s', WriterState.cacheCopy c id s = .ok place s' := by
  have hsize : Config.isPowerOfTwo s.tiles.table.size = true :=
    h.cache.tableSize.symm ▸ h.valid.tileSlots.1
  simp only [WriterState.cacheCopy, get_bind_run]
  split
  · exact ⟨_, _, rfl⟩
  · obtain ⟨rows, hrows⟩ := BitmapCopy.exists_cachedRows hcovers
    rw [BitmapCopy.cachedRows, BitmapCopy.cachedSize] at hrows
    obtain ⟨place, s', hplace⟩ := WriterState.cachePlace_ok hcounted hsize id
      (c.cachedSize s.config) rows
    rw [hrows, lift_ok_bind_run]
    rw [BitmapCopy.cachedSize] at hplace
    rw [bind_of_ok hplace]
    cases place <;> exact ⟨_, _, rfl⟩

/-- A bitmap that has all its rows can be sent after any draft of short commands. -/
theorem sendCopy_ok (h : Synced q s calls) (hfits : c.Fits q s.config)
    (hsmall : s.config.payloadRoom * 8 < 2147483648) (hcounted : s.tiles.Counted)
    (hcovers : c.bitmap.Covers c.rect (c.paint.depth s.config.depth)) {d : BandDraft}
    (hd : d.Short s.config.bufferSize) : ∃ d' s', WriterState.sendCopy d c s = .ok d' s' ∧
      Synced q s' calls ∧ s'.config = s.config ∧ d'.Short s.config.bufferSize ∧ d'.band = d.band := by
  obtain ⟨hroom, hreader⟩ := h.room
  obtain ⟨d₀, hd₀⟩ := (hfits.canCut h.valid hsmall).sendPieces_ok hcovers d
  obtain ⟨d', hd', hshort, hband⟩ := BitmapCopy.sendPieces_ok (by omega) hd₀ hd
  cases hname : c.name with
  | none =>
    obtain ⟨d', hrun, hd'⟩ := h.sendCopy_ok_of_unnamed hname hd₀ hd
    exact ⟨d', s, hrun, h, rfl, hd'⟩
  | some id =>
    obtain ⟨place, s', hplace⟩ := h.cacheCopy_ok hcounted hcovers id
    obtain ⟨hkept, hs', hcached⟩ := (h.cacheCopy hfits hname).ok hplace
    have hconfig := hkept.alike.config
    simp only [WriterState.sendCopy, hname, get_bind_run]
    rw [bind_of_ok hplace, pure_bind_run]
    cases hsent : place.bind fun p => c.sendCached s.config d p.1 p.2.1 p.2.2 with
    | none => exact ⟨d', s', by rw [hd']; rfl, hs', hconfig, hshort, hband⟩
    | some d₁ =>
      obtain ⟨⟨index, entry, rows⟩, hp, hsend⟩ := Option.bind_eq_some_iff.mp hsent
      have hentry := (hcached _ hp).entryAt
      have hindex : index < s'.tiles.table.size :=
        (Array.getElem?_eq_some_iff.mp (TileCache.used_of_entryAt hentry)).1
      have hslots := hs'.valid.tileSlots.2
      rw [hs'.cache.tableSize] at hindex
      exact ⟨d₁, s', rfl, hs', hconfig, hd.sendCached (by omega) (by omega)
        (hs'.cache.sendable index entry hentry) hsend,
        (BitmapCopy.continues_of_sendCached hsend).band⟩

end Synced

end BandedPage
