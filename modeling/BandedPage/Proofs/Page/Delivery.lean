import Mathlib
import BandedPage.Proofs.Page.Reached
import BandedPage.Proofs.Page.Strokes

/-!
# Image rows arrive once

The rows of an image are cut again to fit the reader's buffer, and they come to its bands one after
another. Over the partial pages that were rendered on the way and the page that is left, each band is
given every row of every plane once and in order. Each time the image begins in the band, its header
leaves out just the rows that the band has had.
-/

namespace BandedPage

/-! ### Rows of bits -/

namespace Bits

variable {data out : Bytes} {raster x width first count : Nat}

/-- `count` rows of `width` bits from bit `x` of each row on, from row `first` on. -/
def rows (data : Bytes) (raster x width first count : Nat) : List (List Bool) :=
  (List.range' first count).map fun y =>
    (List.range width).map fun i => get data (y * raster * 8 + (x + i))

theorem rows_append (data : Bytes) (raster x width first count more : Nat) :
    rows data raster x width first count ++ rows data raster x width (first + count) more =
      rows data raster x width first (count + more) := by
  rw [rows, rows, rows, ← List.map_append, List.range'_append_1]

/-- Rows may be counted from any of them. -/
@[simp] theorem rows_extract_size (data : Bytes) (raster x width first count : Nat) :
    rows (data.extract (first * raster) data.size) raster x width 0 count =
      rows data raster x width first count := by
  rw [rows, rows, List.range'_eq_map_range, List.range'_eq_map_range, List.map_map, List.map_map]
  refine List.map_congr_left fun y _ => List.map_congr_left fun i _ => ?_
  rw [get_extract_size]
  refine congrArg (get data) ?_
  dsimp only [Function.comp_apply]
  ring

/-- Extracted rows are the rows that they were taken from. -/
theorem rows_extract (h : extract data raster x width count = .ok out) :
    rows out (shortRaster width) 0 width 0 count = rows data raster x width 0 count := by
  refine List.map_congr_left fun y hy => List.map_congr_left fun i hi => ?_
  have hrow : y < count := by simpa using List.mem_range'.mp hy
  rw [Nat.zero_add]
  exact get_extract h hrow (List.mem_range.mp hi)

end Bits

/-- Rows of a plane, whose pixels have `depth` bits. -/
def Bitmap.rows (plane : Bitmap) (depth width first count : Nat) : List (List Bool) :=
  Bits.rows plane.data plane.raster (plane.dataX * depth) width first count

/-- Planes of equal size are found again in one block of bytes. -/
theorem extract_flatten {parts : List Bytes} {size : Nat} (h : ∀ part ∈ parts, part.size = size)
    {n : Nat} (hn : n < parts.length) :
    (parts.map (·.toList)).flatten.toArray.extract (n * size) ((n + 1) * size) = parts[n] := by
  induction parts generalizing n with
  | nil => cases hn
  | cons part parts ih =>
    have hsize : part.toList.length = size := h part List.mem_cons_self
    apply Array.ext'
    cases n with
    | zero => simp [List.extract_eq_take_drop, List.take_left' hsize]
    | succ n =>
      have hrest := congrArg Array.toList (ih (fun p hp => h p (List.mem_cons_of_mem _ hp))
        (Nat.lt_of_succ_lt_succ hn))
      have hfrom : (n + 1) * size = size + n * size := by ring
      have hcount : ∀ k : Nat, (k + 1) * size - k * size = size := fun k => by
        rw [Nat.add_mul, Nat.one_mul, Nat.add_sub_cancel_left]
      simp only [Array.toList_extract, List.extract_eq_take_drop, List.map_cons, List.flatten_cons,
        hcount] at hrest ⊢
      rw [hfrom, ← List.drop_drop, List.drop_left' hsize]
      exact hrest

/-! ### Calls that bring an image -/

namespace TargetCall

/-- The call belongs to an image. -/
def ofImage : TargetCall → Bool
  | beginImage .. | imageData .. | endImage => true
  | _ => false

/-- Rows of every plane that the call brings. -/
def rowCount : TargetCall → Nat
  | imageData _ _ _ height => height
  | _ => 0

/-- The rows of plane `n` that the call brings. -/
def planeRows (n depth width : Nat) : TargetCall → List (List Bool)
  | imageData planes x raster height =>
    Bits.rows (planes.getD n #[]) raster (x * depth) width 0 height
  | _ => []

def received (calls : List TargetCall) : Nat := (calls.map rowCount).sum

@[simp] theorem received_append (calls more : List TargetCall) :
    received (calls ++ more) = received calls + received more := by
  rw [received, List.map_append, List.sum_append]
  rfl

/-- Calls of images are drawing. -/
theorem drawing_of_image {calls : List TargetCall} (h : ∀ call ∈ calls, call.ofImage = true) :
    drawing calls = calls := by
  refine List.filter_eq_self.mpr fun call hcall => ?_
  have himage := h call hcall
  cases call <;> first | rfl | cases himage

end TargetCall

namespace ImageHeader

def firstRow (h : ImageHeader) : Int := h.rect.elim 0 (·.y1)

/-- Rows of the part that is supplied. -/
def suppliedHeight (h : ImageHeader) : Nat := h.rect.elim h.height (·.height.toNat)

def rowBits (h : ImageHeader) (space : ColorSpace) : Nat := h.suppliedWidth * h.planeDepth space

/-- 32 bits count the supplied rows. -/
def CountsRows (h : ImageHeader) : Prop :=
  match h.rect with
  | some r => Word.fits32 r.y1 = true ∧ Word.fits32 r.y2 = true
  | none => h.height < 2147483648

/-- The calls bring some rows of each plane after `sent` others. -/
structure Arrives (h : ImageHeader) (space : ColorSpace) (sent : Nat)
    (rows : Nat → List (List Bool)) (calls : List TargetCall) : Prop where
  image : ∀ call ∈ calls, call.ofImage = true
  /-- Each row arrives once and in order, bit for bit. -/
  planeRows : ∀ n < h.planes space,
    calls.flatMap (·.planeRows n (h.planeDepth space) (h.rowBits space)) = rows n
  /-- Rows begin with a byte, and have no more bytes than they need. -/
  packed : ∀ planes x raster height, .imageData planes x raster height ∈ calls →
    x = 0 ∧ raster = Bits.shortRaster (h.rowBits space) ∧ planes.length = h.planes space ∧
      ∀ plane ∈ planes, plane.size = raster * height
  /-- The image begins without the rows that were brought before. -/
  resumed : ∀ before state h' space' color clip after,
    calls = before ++ .beginImage state h' space' color clip :: after →
      space' = space ∧ h'.firstRow = h.firstRow + (sent + TargetCall.received before : Nat)

namespace Arrives

variable {h : ImageHeader} {space : ColorSpace} {sent : Nat}
variable {rows more : Nat → List (List Bool)} {calls calls' : List TargetCall}

theorem nil (h : ImageHeader) (space : ColorSpace) (sent : Nat) :
    h.Arrives space sent (fun _ => []) [] where
  image _ hcall := absurd hcall List.not_mem_nil
  planeRows _ _ := rfl
  packed _ _ _ _ hcall := absurd hcall List.not_mem_nil
  resumed before _ _ _ _ _ after heq := absurd heq (by simp)

theorem append (hfirst : h.Arrives space sent rows calls)
    (hmore : h.Arrives space (sent + TargetCall.received calls) more calls') :
    h.Arrives space sent (fun n => rows n ++ more n) (calls ++ calls') where
  image call hcall := (List.mem_append.mp hcall).elim (hfirst.image call) (hmore.image call)
  planeRows n hn := by rw [List.flatMap_append, hfirst.planeRows n hn, hmore.planeRows n hn]
  packed planes x raster height hcall := (List.mem_append.mp hcall).elim
    (hfirst.packed planes x raster height) (hmore.packed planes x raster height)
  resumed before state h' space' color clip after heq := by
    rcases List.append_eq_append_iff.mp heq with ⟨rest, rfl, hrest⟩ | ⟨rest, hbefore, hrest⟩
    · have := hmore.resumed rest state h' space' color clip after hrest
      rwa [TargetCall.received_append, ← Nat.add_assoc]
    · cases rest with
      | nil =>
        rw [List.append_nil] at hbefore
        have := hmore.resumed [] state h' space' color clip after hrest.symm
        rwa [hbefore] at this
      | cons call rest =>
        obtain ⟨rfl, -⟩ := List.cons.inj hrest
        exact hfirst.resumed before state h' space' color clip rest hbefore

/-- A call with which no image begins. -/
theorem single {call : TargetCall} (himage : call.ofImage = true)
    (hbegin : ∀ state h' space' color clip, call ≠ .beginImage state h' space' color clip)
    (hrows : ∀ n < h.planes space,
      call.planeRows n (h.planeDepth space) (h.rowBits space) = rows n)
    (hpacked : ∀ planes x raster height, call = .imageData planes x raster height →
      x = 0 ∧ raster = Bits.shortRaster (h.rowBits space) ∧ planes.length = h.planes space ∧
        ∀ plane ∈ planes, plane.size = raster * height) (sent : Nat) :
    h.Arrives space sent rows [call] where
  image c hc := List.mem_singleton.mp hc ▸ himage
  planeRows n hn := by rw [List.flatMap_singleton, hrows n hn]
  packed planes x raster height hcall :=
    hpacked planes x raster height (List.mem_singleton.mp hcall).symm
  resumed before state h' space' color clip after heq := by
    rcases List.cons_eq_append_iff.mp heq with ⟨-, hcall⟩ | ⟨rest, -, hcall⟩
    · exact absurd (List.cons.inj hcall).1.symm (hbegin state h' space' color clip)
    · exact absurd hcall (by simp)

/-- The end of an image brings nothing. -/
theorem endImage (h : ImageHeader) (space : ColorSpace) (sent : Nat) :
    h.Arrives space sent (fun _ => []) [.endImage] := by
  refine single rfl (fun _ _ _ _ _ heq => ?_) (fun n _ => ?_) (fun _ _ _ _ heq => ?_) sent
  · cases heq
  · rfl
  · cases heq

/-- Nothing but the end of the image may follow. -/
theorem ended (hrows : h.Arrives space sent rows calls) {ends : List TargetCall}
    (hends : ends = [] ∨ ends = [.endImage]) : h.Arrives space sent rows (calls ++ ends) := by
  have hend : h.Arrives space (sent + TargetCall.received calls) (fun _ => []) ends := by
    rcases hends with rfl | rfl
    · exact .nil h space _
    · exact .endImage h space _
  simpa only [List.append_nil] using hrows.append hend

end Arrives

/-- 32 bits count the rows of a part with 32-bit coordinates. -/
theorem CountsRows.suppliedHeight_lt {h : ImageHeader} (hcounts : h.CountsRows) :
    h.suppliedHeight < 4294967296 := by
  rw [CountsRows] at hcounts
  rw [suppliedHeight]
  cases hrect : h.rect with
  | none =>
    rw [hrect] at hcounts
    exact lt_trans hcounts (by decide)
  | some r =>
    rw [hrect] at hcounts
    have hy1 := Word.fits32_iff.mp hcounts.1
    have hy2 := Word.fits32_iff.mp hcounts.2
    simp only [Option.elim_some, Rect.height]
    omega

/-- The first supplied row as it is read back. -/
theorem firstRow_sent {h : ImageHeader} {r : Rect} (hr : h.rect = some r) (cs : ColorSpace) :
    (h.sent cs).firstRow = min (Word.wrap32 r.y1) (Word.wrap32 r.y2) := by
  have hsent : (h.sent cs).rect = some (h.sentRect r) := congrArg (Option.map h.sentRect) hr
  rw [firstRow, hsent]
  show min _ (Word.wrap32 (h.height - Word.wrap32 (h.height - r.y2))) = _
  rw [Word.wrap32_sub_wrap32]

end ImageHeader

/-- Rows of all planes are planes of those rows. -/
theorem ImageRows.exists_parts {planes : List Bitmap} {depth width : Nat} {span : Span}
    {rows : ImageRows} (h : ofSpan planes depth width span = .ok rows) :
    ∃ parts : List Bytes,
      Replay.planesOf rows.data.toArray planes.length (rows.raster * rows.count) = parts ∧
      parts.length = planes.length ∧ (∀ part ∈ parts, part.size = rows.raster * rows.count) ∧
      ∀ n < planes.length, Bits.rows (parts.getD n #[]) rows.raster 0 width 0 rows.count =
        (planes.getD n default).rows depth width span.start.toNat span.length.toNat := by
  obtain ⟨hcount, hraster, hdata⟩ := of_ofSpan h
  rw [Bitmap.rowsOfAll] at hdata
  cases hparts : planes.mapM (fun plane => Bits.extract (plane.drop 0 span.start).data plane.raster
      (plane.dataX * depth) width span.length.toNat) with
  | error e =>
    rw [hparts] at hdata
    cases hdata
  | ok parts =>
    rw [hparts] at hdata
    have hbytes : rows.data = (parts.map (·.toList)).flatten := (Except.ok.inj hdata).symm
    have hall := forall₂_of_mapM_eq_ok hparts
    have hlength := hall.length_eq
    have hsize : ∀ part ∈ parts, part.size = rows.raster * rows.count := by
      intro part hpart
      obtain ⟨n, hn, rfl⟩ := List.getElem_of_mem hpart
      rw [hraster, hcount]
      exact Bits.size_of_extract (hall.get (hlength ▸ hn) hn)
    refine ⟨parts, ?_, hlength.symm, hsize, fun n hn => ?_⟩
    · rw [Replay.planesOf, hbytes, hlength]
      refine List.ext_getElem (by simp) fun n hn hn' => ?_
      rw [List.getElem_map, List.getElem_range]
      exact extract_flatten hsize hn'
    · have hpart := hall.get hn (hlength ▸ hn)
      have hgetD : parts.getD n #[] = parts.get ⟨n, hlength ▸ hn⟩ :=
        List.getD_eq_getElem _ _ (hlength ▸ hn)
      have hgetD' : planes.getD n default = planes.get ⟨n, hn⟩ := List.getD_eq_getElem _ _ hn
      rw [hgetD, hgetD', hraster, hcount]
      exact (Bits.rows_extract hpart).trans (Bits.rows_extract_size _ _ _ _ _ _)

namespace OpenImage

variable {im : OpenImage}

/-- What is left of an image begins with the first row that is not sent yet. -/
theorem firstRow_remaining (hcounts : im.header.CountsRows)
    (hsent : im.rowsSent < im.header.suppliedHeight) :
    (im.remaining.sent im.space).firstRow = im.header.firstRow + im.rowsSent := by
  obtain ⟨n, hn⟩ : ∃ n, n = im.rowsSent := ⟨_, rfl⟩
  rw [← hn] at hsent ⊢
  rw [ImageHeader.CountsRows] at hcounts
  rw [ImageHeader.suppliedHeight] at hsent
  have hwrap : ∀ v : Int, Word.fits32 (v + n) = true → Word.wrap32 (v + Word.wrap32 n) = v + n := by
    intro v hv
    rw [Word.fits32_iff] at hv
    simp only [Word.wrap32_eq_bmod, Int.bmod_def]
    omega
  cases hrect : im.header.rect with
  | none =>
    rw [hrect] at hcounts hsent
    simp only [Option.elim_none] at hcounts hsent
    by_cases hzero : im.rowsSent = 0
    · rw [remaining, if_pos hzero, ImageHeader.firstRow, ImageHeader.firstRow, hrect, hn, hzero]
      have hnone : (im.header.sent im.space).rect = none := congrArg (Option.map _) hrect
      rw [hnone]
      rfl
    · rw [remaining, if_neg hzero, ImageHeader.firstRow_sent rfl, ImageHeader.firstRow, hrect, ← hn]
      have hheight : Word.wrap32 im.header.height = im.header.height := Word.wrap32_natCast hcounts
      simp only [Option.getD_none, Rect.ofCorners, hheight, Option.elim_none]
      have hleast : min (0 : Int) im.header.height = 0 := by omega
      have hgreatest : max (0 : Int) im.header.height = im.header.height := by omega
      rw [hleast, hgreatest, hwrap 0 (by rw [Word.fits32_iff]; omega), hheight]
      omega
  | some r =>
    rw [hrect] at hcounts hsent
    simp only [Option.elim_some, Rect.height] at hcounts hsent
    have hy1 := Word.wrap32_of_fits32 hcounts.1
    have hy2 := Word.wrap32_of_fits32 hcounts.2
    rw [Word.fits32_iff, Word.fits32_iff] at hcounts
    have hfirst : im.header.firstRow = r.y1 := by rw [ImageHeader.firstRow, hrect]; rfl
    by_cases hzero : im.rowsSent = 0
    · rw [remaining, if_pos hzero, ImageHeader.firstRow_sent hrect, hfirst, hy1, hy2, hn, hzero]
      omega
    · rw [remaining, if_neg hzero, ImageHeader.firstRow_sent rfl, hfirst, hrect, ← hn]
      simp only [Option.getD_some]
      rw [hwrap r.y1 (by rw [Word.fits32_iff]; omega), hy2]
      omega

/-- Each begin leaves out the rows that all bands have had. -/
theorem arrives_begins {begins : List TargetCall} (hbegins : ∀ call ∈ begins, im.BegunBy call)
    (hcounts : im.header.CountsRows) (hsent : im.rowsSent < im.header.suppliedHeight) :
    im.header.Arrives im.space im.rowsSent (fun _ => []) begins ∧
      TargetCall.received begins = 0 := by
  have hreceived : ∀ calls : List TargetCall, (∀ call ∈ calls, im.BegunBy call) →
      TargetCall.received calls = 0 := by
    intro calls hcalls
    refine List.sum_eq_zero fun n hn => ?_
    obtain ⟨call, hcall, rfl⟩ := List.mem_map.mp hn
    obtain ⟨state, color, clip, rfl⟩ := hcalls call hcall
    rfl
  refine ⟨⟨?_, ?_, ?_, ?_⟩, hreceived begins hbegins⟩
  · intro call hcall
    obtain ⟨state, color, clip, rfl⟩ := hbegins call hcall
    rfl
  · intro n _
    refine List.flatMap_eq_nil_iff.mpr fun call hcall => ?_
    obtain ⟨state, color, clip, rfl⟩ := hbegins call hcall
    rfl
  · intro planes x raster height hcall
    obtain ⟨state, color, clip, heq⟩ := hbegins _ hcall
    cases heq
  · intro before state h' space' color clip after heq
    have hbefore := hreceived before fun call hcall =>
      hbegins call (heq ▸ List.mem_append_left _ hcall)
    obtain ⟨state', color', clip', hbegin⟩ := hbegins (.beginImage state h' space' color clip)
      (heq ▸ List.mem_append_right _ List.mem_cons_self)
    cases hbegin
    rw [hbefore, Nat.add_zero]
    exact ⟨rfl, firstRow_remaining hcounts hsent⟩

/-- Rows that were cut from the planes bring them. -/
theorem arrives_rows {planes : List Bitmap} {span : Span} {rows : ImageRows}
    (hplanes : planes.length = im.header.planes im.space)
    (hrows : ImageRows.ofSpan planes (im.header.planeDepth im.space)
      (im.header.rowBits im.space) span = .ok rows) (sent : Nat) :
    im.header.Arrives im.space sent (fun n => (planes.getD n default).rows
        (im.header.planeDepth im.space) (im.header.rowBits im.space) span.start.toNat
        span.length.toNat)
      [rows.call (im.header.planes im.space)] := by
  obtain ⟨parts, hparts, hlength, hsize, hbits⟩ := ImageRows.exists_parts hrows
  obtain ⟨-, hraster, -⟩ := ImageRows.of_ofSpan hrows
  rw [hplanes] at hparts hlength hbits
  have hcall : rows.call (im.header.planes im.space) = .imageData parts 0 rows.raster rows.count :=
    hparts ▸ rfl
  rw [hcall]
  refine .single rfl (fun _ _ _ _ _ heq => ?_) (fun n hn => ?_) (fun _ _ _ _ heq => ?_) sent
  · cases heq
  · rw [TargetCall.planeRows, Nat.zero_mul]
    exact hbits n hn
  · cases heq
    exact ⟨rfl, hraster, hlength, hsize⟩

/-- A band begins the image if it has to, and has some rows then. -/
theorem Brings.arrives {planes : List Bitmap} {span : Span} {rows : ImageRows}
    {calls : List TargetCall} (h : im.Brings rows calls)
    (hplanes : planes.length = im.header.planes im.space)
    (hrows : ImageRows.ofSpan planes (im.header.planeDepth im.space)
      (im.header.rowBits im.space) span = .ok rows)
    (hcounts : im.header.CountsRows) (hsent : im.rowsSent < im.header.suppliedHeight) :
    im.header.Arrives im.space im.rowsSent (fun n => (planes.getD n default).rows
        (im.header.planeDepth im.space) (im.header.rowBits im.space) span.start.toNat
        span.length.toNat) calls ∧
      TargetCall.received calls = span.length.toNat := by
  obtain ⟨begins, rfl, hbegins⟩ := h
  obtain ⟨hfirst, hreceived⟩ := arrives_begins hbegins hcounts hsent
  have hall := hfirst.append (arrives_rows hplanes hrows _)
  simp only [List.nil_append] at hall
  refine ⟨hall, ?_⟩
  rw [TargetCall.received_append, hreceived, ← (ImageRows.of_ofSpan hrows).1]
  exact (Nat.zero_add _).trans (Nat.add_zero _)

/-- What is brought portion by portion are the rows from which the portions were cut. -/
theorem Brought.arrives {portions : List ImageRows} {calls : List TargetCall}
    (h : im.Brought portions calls) {planes : List Bitmap} {lo hi : Int} {spans : List Span}
    (hplanes : planes.length = im.header.planes im.space) (hcounts : im.header.CountsRows)
    (hchain : Span.Chain lo hi spans) (hlo : 0 ≤ lo)
    (hportions : List.Forall₂ (fun s rows => ImageRows.ofSpan planes
      (im.header.planeDepth im.space) (im.header.rowBits im.space) s = .ok rows) spans portions)
    (hsent : im.rowsSent + (hi - lo).toNat ≤ im.header.suppliedHeight) :
    im.header.Arrives im.space im.rowsSent (fun n => (planes.getD n default).rows
        (im.header.planeDepth im.space) (im.header.rowBits im.space) lo.toNat (hi - lo).toNat)
        calls ∧
      TargetCall.received calls = (hi - lo).toNat := by
  induction h generalizing lo spans with
  | nil im =>
    cases hportions
    cases hchain
    simp only [sub_self, Int.toNat_zero]
    exact ⟨.nil im.header im.space im.rowsSent, rfl⟩
  | @cons im rows more first rest hfirst hrest ih =>
    cases hportions with
    | @cons span _ spans _ hrows hportions =>
    cases hchain with
    | @cons _ n _ _ hn hchain =>
    have hle := hchain.le
    obtain ⟨harrives, hreceived⟩ := hfirst.arrives hplanes hrows hcounts (by omega)
    have hcount : rows.count = n.toNat := (ImageRows.of_ofSpan hrows).1
    have hadvanced : (im.advanced rows.count).rowsSent = im.rowsSent + TargetCall.received first := by
      rw [hreceived, advanced, hcount]
    obtain ⟨harrives', hreceived'⟩ := @ih (lo + n) spans hplanes hcounts hchain (by omega)
      hportions (by rw [hadvanced, hreceived]; dsimp only [advanced]; omega)
    have hstart : (lo + n).toNat = lo.toNat + n.toNat := by omega
    have htotal : n.toNat + (hi - (lo + n)).toNat = (hi - lo).toNat := by omega
    rw [hadvanced, hstart] at harrives'
    have hall := harrives.append harrives'
    simp only [Bitmap.rows, advanced, Bits.rows_append, htotal] at hall
    refine ⟨hall, ?_⟩
    simp [hreceived, hreceived', htotal]

/-- A band of the image is brought all rows of a request. -/
theorem Delivers.arrives {planes : List Bitmap} {height band : Nat} {calls : List TargetCall}
    (h : im.Delivers planes height band calls) (hband : band ∈ im.bandList)
    (hplanes : planes.length = im.header.planes im.space) (hcounts : im.header.CountsRows)
    (hsent : im.rowsSent + height ≤ im.header.suppliedHeight) :
    im.header.Arrives im.space im.rowsSent (fun n => (planes.getD n default).rows
        (im.header.planeDepth im.space) (im.header.rowBits im.space) 0 height) calls ∧
      TargetCall.received calls = height := by
  rw [Delivers, if_pos hband] at h
  obtain ⟨spans, portions, hchain, hportions, hbrought⟩ := h
  have hall := hbrought.arrives hplanes hcounts hchain le_rfl hportions (by simpa using hsent)
  simpa using hall

end OpenImage

/-- The rows of plane `n` that several requests have for an image, one after the other. -/
def ImageHeader.requested (h : ImageHeader) (space : ColorSpace)
    (requests : List (List Bitmap × Nat)) (n : Nat) : List (List Bool) :=
  requests.flatMap fun r =>
    (r.1.getD n default).rows (h.planeDepth space) (h.rowBits space) 0 r.2

variable {μ ν : Type} [Medium μ] [LawfulMedium μ] [MemoryPolicy μ ν]

/-- An image from its begin to its end, some rows of every plane with each request. -/
def Writer.image (ps : ImagerState) (header : ImageHeader) (space : ColorSpace)
    (color : DrawingColor) (clip : Option ClipPath) (requests : List (List Bitmap × Nat)) :
    WriterM μ ν Unit := do
  beginImage ps header space color clip
  requests.forM fun r => imageData r.1 r.2
  endImage

namespace Writer.Showing

variable {S : Session} {im : OpenImage} {w : Writer μ (Watched μ ν)}
variable {drawn : Nat → List TargetCall}

/-- One request after the other is delivered to the bands of the image. -/
theorem forM_imageData (hS : S.Sound) (hended : ∀ band, ¬ S.terms.ended band)
    (hroom : S.config.payloadRoom < 4294967296) {requests : List (List Bitmap × Nat)}
    (hcounts : im.header.CountsRows)
    (hsent : im.rowsSent + (requests.map (·.2)).sum ≤ im.header.suppliedHeight)
    (hheight : im.header.suppliedHeight < 4294967296) (h : w.Showing S im drawn) :
    Meets (requests.forM fun r => Writer.imageData r.1 r.2) w
      (fun _ w' => ∃ more : Nat → List TargetCall,
        (∀ band, if band ∈ im.bandList then
            im.header.Arrives im.space im.rowsSent (im.header.requested im.space requests)
              (more band)
          else more band = []) ∧
        w'.Showing S (im.advanced (requests.map (·.2)).sum)
          fun band => drawn band ++ drawing (more band))
      fun _ _ => True := by
  induction requests generalizing im w drawn with
  | nil =>
    refine Meets.pure ⟨fun _ => [], fun band => ?_, ?_⟩
    · split
      · exact .nil im.header im.space im.rowsSent
      · rfl
    · simpa [drawing, OpenImage.advanced] using h
  | cons request requests ih =>
    obtain ⟨planes, height⟩ := request
    rw [List.map_cons, List.sum_cons] at hsent
    show Meets (Writer.imageData planes height >>= fun _ =>
      requests.forM fun r => Writer.imageData r.1 r.2) w _ _
    have hone : height < 4294967296 := by omega
    refine Meets.bind ((h.imageData hS hended hroom planes hone).mono
      (fun _ _ h => h) fun _ _ _ => trivial) fun _ w' h' => ?_
    obtain ⟨first, hplanes, hfirst, hw'⟩ := h'
    refine (@ih (im.advanced height) w' _ hcounts (by dsimp only [OpenImage.advanced]; omega)
      hheight hw').mono (fun _ w'' h'' => ?_) fun _ _ h => h
    obtain ⟨rest, hrest, hw''⟩ := h''
    refine ⟨fun band => first band ++ rest band, fun band => ?_, ?_⟩
    · have hrest := hrest band
      split
      · next hband =>
        obtain ⟨harrives, hreceived⟩ :=
          (hfirst band).arrives hband hplanes hcounts (by omega)
        rw [if_pos (show band ∈ (im.advanced height).bandList from hband)] at hrest
        have hadvanced : (im.advanced height).rowsSent =
            im.rowsSent + TargetCall.received (first band) := by rw [hreceived]; rfl
        rw [hadvanced] at hrest
        exact harrives.append hrest
      · next hband =>
        rw [if_neg (show band ∉ (im.advanced height).bandList from hband)] at hrest
        have hfirst := hfirst band
        rw [OpenImage.Delivers, if_neg hband] at hfirst
        show first band ++ rest band = []
        rw [hfirst, hrest, List.append_nil]
    · simpa only [OpenImage.advanced, List.map_cons, List.sum_cons, Nat.add_assoc, drawing_append,
        List.append_assoc] using hw''

end Writer.Showing

/-- Wherever a session has come to, an image whose requests are all granted arrives in each of its
bands row by row: replay of a band calls, beyond what it called before, what brings every row of every
plane once, and nothing in the other bands. Each time the image begins there, it begins after the rows
that the band has had. -/
theorem image_rows_arrive_once {config : Config} {q : Terms} (hended : ∀ band, ¬ q.ended band)
    (hvalid : config.validate = .ok ()) (hheight : config.height < 2147483648)
    (hroom : config.payloadRoom < 4294967296) (hlack : MemoryPolicy.RefusesForLack μ ν)
    {w w' : Writer μ (Watched μ ν)} (hw : (Session.forgiving config q).Reached w)
    {ps : ImagerState} {header : ImageHeader} {space : ColorSpace} {color : DrawingColor}
    {clip : Option ClipPath}
    (hadmits : (Session.forgiving config q).AdmitsImage ps header space color clip)
    (hcounts : header.CountsRows) {requests : List (List Bitmap × Nat)}
    (hsupplied : (requests.map (·.2)).sum ≤ header.suppliedHeight)
    (hrun : Writer.image ps header space color clip requests w = .ok () w')
    (hlen : ∀ store ∈ w.stores ++ w'.stores, store.commandLength < 9223372036854775808) :
    ∃ calls : Nat → List TargetCall,
      (∀ band < config.nbands, ∃ before after, w.replayed band = .ok before ∧
        w'.replayed band = .ok after ∧ drawing after = drawing before ++ calls band) ∧
      ∀ band, if band ∈ (config.imageBands ps header).elim [] BandRange.toList then
          header.Arrives space 0 (header.requested space requests) (calls band)
        else calls band = [] := by
  have hS := Session.forgiving_sequel (q := q) hvalid hheight hroom hended
  obtain ⟨_, w₁, hbegin, hrun⟩ := bind_eq_ok_iff.mp hrun
  obtain ⟨_, w₂, hdata, hend⟩ := bind_eq_ok_iff.mp hrun
  have henabled := (Writer.of_check_bind_eq_ok hbegin).1
  obtain ⟨current, drawn, hsession⟩ := hw.inSession hS hlack henabled
  have hopened := (hsession.beginImage hS.toSound hadmits).ok hbegin
  obtain ⟨rows, hrows, hsent⟩ := (hopened.forM_imageData hS.toSound hended hroom hcounts
    ((Nat.zero_add _).trans_le hsupplied) hcounts.suppliedHeight_lt).ok hdata
  obtain ⟨-, ends, hends, hw'⟩ := (hsent.endImage hS.toSound hended hlack).ok hend
  have harrives : ∀ band, if band ∈ (config.imageBands ps header).elim [] BandRange.toList then
      header.Arrives space 0 (header.requested space requests) (rows band ++ ends band)
      else rows band ++ ends band = [] := by
    intro band
    have hrows := hrows band
    obtain ⟨hlast, hout⟩ := hends band
    split at hrows
    · next hband =>
      rw [if_pos (show band ∈ (config.imageBands ps header).elim [] BandRange.toList from hband)]
      exact hrows.ended hlast
    · next hband =>
      rw [if_neg (show band ∉ (config.imageBands ps header).elim [] BandRange.toList from hband),
        hrows, hout hband, List.append_nil]
  have hdrawing : ∀ band, drawing (rows band ++ ends band) = rows band ++ ends band := by
    intro band
    have harrives := harrives band
    split at harrives
    · exact TargetCall.drawing_of_image harrives.image
    · rw [harrives]
      rfl
  refine ⟨fun band => rows band ++ ends band, fun band hband => ?_, harrives⟩
  obtain ⟨before, hbefore, hdrawn⟩ := hsession.replayed hS.toSound
    (fun store hstore => hlen store (List.mem_append_left _ hstore)) hband
  obtain ⟨after, hafter, hdrawn'⟩ := hw'.replayed hS.toSound
    (fun store hstore => hlen store (List.mem_append_right _ hstore)) hband
  refine ⟨before, after, hbefore, hafter, ?_⟩
  show drawing after = drawing before ++ (rows band ++ ends band)
  rw [hdrawn', hdrawn, ← hdrawing, drawing_append, List.append_assoc]

/-- Twenty rows of eight bits, at the origin. -/
def stripes : ImageHeader :=
  { ImageHeader.ofSize 8 20 1 with
    matrix := { xx := .one, xy := .zero, yx := .zero, yy := .one, tx := .zero, ty := .zero } }

def stripeRows : List (List Bitmap × Nat) :=
  [([{ data := #[0x81, 0x42], raster := 1 }], 2), ([{ data := #[0x24, 0x18, 0x24], raster := 1 }], 3)]

/-- A small page whose fourth request for memory is refused. -/
def refusedOnce : Writer MemoryMedium (Watched MemoryMedium RationedMemory) :=
  .onEmptyPage smallPage { commands := {}, index := {} } { config := smallPage, refused := [(4, 4)] }

/-- A partial page is rendered when the first band has two rows and the second has none yet. -/
theorem interrupted_stripes_arrive :
    ∃ w', Writer.image {} stripes {} (.pure 0) none stripeRows refusedOnce = .ok () w' ∧
      w'.pages.length = 1 ∧
      ∃ calls : Nat → List TargetCall,
        (∀ band < smallPage.nbands, ∃ before after, refusedOnce.replayed band = .ok before ∧
          w'.replayed band = .ok after ∧ drawing after = drawing before ++ calls band) ∧
        ∀ band, if band ∈ (smallPage.imageBands {} stripes).elim [] BandRange.toList then
            stripes.Arrives {} 0 (stripes.requested {} stripeRows) (calls band)
          else calls band = [] := by
  let S := Session.forgiving smallPage smallPixels.terms
  have hadmits : S.AdmitsImage {} stripes {} (.pure 0) none := {
    imprecise := fun h => h
    clips := fun _ => rfl
    width := by decide
    height := by decide
    mask := fun h => by cases h
    space := fun _ h => by cases h
    fillAdjust := by decide
    color := fun _ _ h => h.elim
    clip := fun _ h => by cases h }
  have hopened : S.Reached refusedOnce :=
    .opened _ ⟨MemoryMedium.sound_empty, MemoryMedium.sound_empty, rfl, rfl⟩
  have hgranted : ∃ w', Writer.image {} stripes {} (.pure 0) none stripeRows refusedOnce = .ok () w' ∧
      w'.pages.length = 1 ∧
      ∀ store ∈ refusedOnce.stores ++ w'.stores, store.commandLength < 9223372036854775808 := by
    let run := Writer.image {} stripes {} (.pure 0) none stripeRows refusedOnce
    have hok : run = .ok () (stateOf run) := eq_ok_of_isOk (by decide +kernel)
    exact ⟨stateOf run, hok, by decide +kernel, by decide +kernel⟩
  obtain ⟨w', hrun, hpages, hlen⟩ := hgranted
  exact ⟨w', hrun, hpages, image_rows_arrive_once (fun _ h => h) rfl (by decide) (by decide)
    RationedMemory.refusesForLack hopened hadmits (show _ < _ by decide) (by decide) hrun hlen⟩

/-- Stripes of more rows than 31 bits count. -/
def endlessStripes : ImageHeader := { stripes with height := 2147483648 }

/-- A stencil whose samples have two bits, each in a plane of its own. -/
def deepStencil : ImageHeader :=
  { stripes with bitsPerComponent := 2, mask := true, format := .bitPlanar }

/-- The part of the source that begins with a call. -/
def TargetCall.firstRow? : TargetCall → Option Int
  | beginImage _ header _ _ _ => some header.firstRow
  | _ => none

/-- The endless stripes begin again at a negative row. The deep stencil is written, but cannot be
replayed: the stream has one plane for each stencil. -/
theorem endless_stripes_resume_below_zero :
    (∃ w', Writer.image {} endlessStripes {} (.pure 0) none stripeRows refusedOnce = .ok () w' ∧
      ¬ ∃ calls : Nat → List TargetCall,
        (∀ band < smallPage.nbands, ∃ before after, refusedOnce.replayed band = .ok before ∧
          w'.replayed band = .ok after ∧ drawing after = drawing before ++ calls band) ∧
        ∀ band, if band ∈ (smallPage.imageBands {} endlessStripes).elim [] BandRange.toList then
            endlessStripes.Arrives {} 0 (endlessStripes.requested {} stripeRows) (calls band)
          else calls band = []) ∧
    ∃ w', Writer.image {} deepStencil {} (.pure 0) none (stripeRows.map fun r => (r.1 ++ r.1, r.2))
        (.onEmptyPage smallPage ({ commands := {}, index := {} } : BandStore MemoryMedium)
          Unlimited.mk) = .ok () w' ∧
      (w'.replayed 0).isOk = false := by
  refine ⟨⟨_, eq_ok_of_isOk (by decide +kernel), ?_⟩, _, eq_ok_of_isOk (by decide +kernel),
    by decide +kernel⟩
  rintro ⟨calls, hbands, harrives⟩
  obtain ⟨before, after, hbefore, hafter, hdrawing⟩ := hbands 0 (by decide)
  have hnothing : (refusedOnce.replayed 0).map List.length = .ok 0 := by decide +kernel
  have hresumed : ((stateOf (Writer.image {} endlessStripes {} (.pure 0) none stripeRows
      refusedOnce)).replayed 0).map (fun after => (drawing after).map TargetCall.firstRow?) =
      .ok [some 0, none, some (-2147483646), none, none] := by decide +kernel
  rw [hbefore] at hnothing
  rw [hafter] at hresumed
  have hcalls : drawing after = calls 0 := by
    rw [hdrawing, List.length_eq_zero_iff.mp (Except.ok.inj hnothing)]
    rfl
  have hmem : some (-2147483646) ∈ (calls 0).map TargetCall.firstRow? := by
    have hrows : (drawing after).map TargetCall.firstRow? = _ := Except.ok.inj hresumed
    rw [← hcalls, hrows]
    decide
  obtain ⟨call, hcall, hrow⟩ := List.mem_map.mp hmem
  have hband : 0 ∈ (smallPage.imageBands {} endlessStripes).elim [] BandRange.toList := by
    decide +kernel
  generalize (smallPage.imageBands {} endlessStripes).elim [] BandRange.toList = bands
    at harrives hband
  have hall := harrives 0
  rw [if_pos hband] at hall
  obtain ⟨first, rest, hsplit⟩ := List.append_of_mem hcall
  cases call with
  | beginImage state header space color clip =>
    obtain ⟨-, hfirst⟩ := hall.resumed first state header space color clip rest hsplit
    have hrow : header.firstRow = -2147483646 := Option.some.inj hrow
    have hstart : endlessStripes.firstRow = 0 := rfl
    omega
  | _ => cases hrow

end BandedPage
