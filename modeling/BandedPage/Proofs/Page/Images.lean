import Mathlib
import BandedPage.Proofs.Page.Paths
import BandedPage.Proofs.Page.PathCalls
import BandedPage.Proofs.Page.Settings
import BandedPage.Proofs.Span
import BandedPage.Proofs.Writer.ResumedImages

/-!
# Images in a session

Rows of an image come to its bands one after another, and whatever is done to get memory for them may
strike between two of the bands. Some then have the rows in the partial page that was rendered, and
the others get them on the next one, where the image begins anew. The rows that it begins without are
those that all bands have had, for they are counted only when the last band has got them. When an
image ends, it ends in each band in which it has begun.
-/

namespace BandedPage

/-! ### Rows on their way -/

/-- What is done for all items is done for each. -/
theorem forall₂_of_mapM_eq_ok {ε α β : Type} {f : α → Except ε β} {items : List α} {done : List β}
    (h : items.mapM f = .ok done) : List.Forall₂ (fun a b => f a = .ok b) items done := by
  induction items generalizing done with
  | nil =>
    cases h
    exact .nil
  | cons a items ih =>
    rw [List.mapM_cons] at h
    cases ha : f a with
    | error e =>
      rw [ha] at h
      cases h
    | ok b =>
      cases hrest : items.mapM f with
      | error e =>
        rw [ha, hrest] at h
        cases h
      | ok rest =>
        rw [ha, hrest] at h
        cases h
        exact .cons ha (ih hrest)

/-- Rows of all planes of an image as they are sent. -/
structure ImageRows where
  count : Nat
  raster : Nat
  data : List UInt8

namespace ImageRows

def command (rows : ImageRows) : Command := Command.imageData rows.count rows.raster rows.data

def call (rows : ImageRows) (planes : Nat) : TargetCall :=
  .imageData (Replay.planesOf rows.data.toArray planes (rows.raster * rows.count)) 0 rows.raster
    rows.count

/-- Some rows, `width` bits each, of the planes that were given. -/
def ofSpan (planes : List Bitmap) (depth width : Nat) (rows : Span) : Except Error ImageRows := do
  let data ← Bitmap.rowsOfAll planes depth width rows
  return { count := rows.length.toNat, raster := Bits.shortRaster width, data }

/-- Rows of an image of so many planes that replay can read. -/
structure Fits (rows : ImageRows) (planes : Nat) (config : Config) : Prop where
  count : 0 < rows.count ∧ rows.count < 4294967296
  raster : rows.raster < 4294967296
  length : rows.data.length = rows.raster * planes * rows.count
  size : rows.raster * planes * rows.count ≤ config.readerSize

variable {planes : List Bitmap} {depth width : Nat} {span : Span} {rows : ImageRows}

theorem of_ofSpan (h : ofSpan planes depth width span = .ok rows) :
    rows.count = span.length.toNat ∧ rows.raster = Bits.shortRaster width ∧
      Bitmap.rowsOfAll planes depth width span = .ok rows.data := by
  rw [ofSpan] at h
  cases hdata : Bitmap.rowsOfAll planes depth width span with
  | error e =>
    rw [hdata] at h
    cases h
  | ok data =>
    rw [hdata] at h
    cases h
    exact ⟨rfl, rfl, rfl⟩

/-- Portions have as many rows as they were cut to. -/
theorem map_count {spans : List Span} {portions : List ImageRows}
    (h : List.Forall₂ (fun s rows => ofSpan planes depth width s = .ok rows) spans portions) :
    portions.map (·.count) = spans.map (·.length.toNat) := by
  induction h with
  | nil => rfl
  | cons hrows _ ih => rw [List.map_cons, List.map_cons, ih, (of_ofSpan hrows).1]

/-- The planes follow one another, each with all of the rows. -/
theorem length_rowsOfAll {data : List UInt8}
    (h : Bitmap.rowsOfAll planes depth width span = .ok data) :
    data.length = Bits.shortRaster width * planes.length * span.length.toNat := by
  rw [Bitmap.rowsOfAll] at h
  cases hparts : planes.mapM (fun plane => Bits.extract (plane.drop 0 span.start).data plane.raster
      (plane.dataX * depth) width span.length.toNat) with
  | error e =>
    rw [hparts] at h
    cases h
  | ok parts =>
    rw [hparts] at h
    cases h
    have hall := forall₂_of_mapM_eq_ok hparts
    clear hparts
    induction hall with
    | nil => simp
    | @cons plane part planes parts hpart _ ih =>
      have hsize := Bits.size_of_extract hpart
      simp only [List.map_cons, List.flatten_cons, List.length_append, Array.length_toList, hsize, ih,
        List.length_cons]
      ring

end ImageRows

namespace OpenImage

def advanced (im : OpenImage) (rows : Nat) : OpenImage := { im with rowsSent := im.rowsSent + rows }

/-- A band is told to begin the image, as often as it has to, and then of some rows. -/
def Brings (im : OpenImage) (rows : ImageRows) (calls : List TargetCall) : Prop :=
  ∃ begins, calls = begins ++ [rows.call (im.header.planes im.space)] ∧
    ∀ call ∈ begins, im.BegunBy call

/-- A band is told of some rows and then of others. -/
inductive Brought : OpenImage → List ImageRows → List TargetCall → Prop
  | nil (im : OpenImage) : Brought im [] []
  | cons {im : OpenImage} {rows : ImageRows} {more : List ImageRows} {first rest : List TargetCall}
    (hfirst : im.Brings rows first) (hrest : Brought (im.advanced rows.count) more rest) :
    Brought im (rows :: more) (first ++ rest)

def bandList (im : OpenImage) : List Nat := im.bands.elim [] BandRange.toList

/-- Each band of the image is told of so many rows of the planes, portion by portion. -/
def Delivers (im : OpenImage) (planes : List Bitmap) (height : Nat) (band : Nat)
    (calls : List TargetCall) : Prop :=
  if band ∈ im.bandList then
    ∃ (spans : List Span) (portions : List ImageRows), Span.Chain 0 height spans ∧
      List.Forall₂ (fun s rows => ImageRows.ofSpan planes (im.header.planeDepth im.space)
        (im.header.suppliedWidth * im.header.planeDepth im.space) s = .ok rows) spans portions ∧
      im.Brought portions calls
  else calls = []

theorem Fits.on {im : OpenImage} {S : Session} {clip : Option ClipPath}
    (h : im.Fits S.terms S.config) : im.Fits (S.on clip) S.config :=
  { h with clip := fun c hc => Session.on_clip (h.clip c hc) }

end OpenImage

/-- One call for a band. If it is not made for once, calls of which `P` holds may have been made
before. -/
def Adds.endingWith (band : Nat) (P : TargetCall → Prop) (last : TargetCall) : Adds where
  all more := (∃ first, more band = first ++ [last] ∧ ∀ call ∈ first, P call) ∧
    ∀ b, b ≠ band → more b = []
  some more := (∀ call ∈ more band, P call) ∧ ∀ b, b ≠ band → more b = []
  nothing := by
    constructor
    · intro call hcall
      exact absurd hcall List.not_mem_nil
    · exact fun _ _ => rfl
  again := by
    rintro a b ⟨ha, ha'⟩ ⟨hb, hb'⟩
    constructor
    · intro call hcall
      exact (List.mem_append.mp hcall).elim (ha call) (hb call)
    · intro other hother
      simp only [ha' other hother, hb' other hother, List.append_nil]
  after := by
    rintro a b ⟨ha, ha'⟩ ⟨⟨first, hfirst, hb⟩, hb'⟩
    constructor
    · refine ⟨a band ++ first, ?_, ?_⟩
      · simp only [hfirst, List.append_assoc]
      · intro call hcall
        exact (List.mem_append.mp hcall).elim (ha call) (hb call)
    · intro other hother
      simp only [ha' other hother, hb' other hother, List.append_nil]

variable {μ ν : Type}

namespace WriterState

variable {S : Session} {im : OpenImage} {s s' : WriterState μ ν} {band : Nat}

/-- Between two bands of an image the writer is as between requests, with the image open. No clip is
current that matters. -/
structure Shown (S : Session) (im : OpenImage) (s : WriterState μ ν) : Prop where
  ready : s.Ready S none
  image : ∃ started, s.image = some { im with started }

/-- Recovery leaves the image open. -/
theorem Shown.lasting (S : Session) (im : OpenImage) :
    Lasting S.config (Shown (μ := μ) (ν := ν) S im) where
  config_eq h := h.ready.config_eq
  sendable h := h.ready.page
  alike h hs := by
    obtain ⟨started, him⟩ := h.image
    exact ⟨h.ready.alike hs, started, hs.image.trans him⟩
  reset h := by
    obtain ⟨started, him⟩ := h.image
    refine ⟨h.ready.reset, started.clear, ?_⟩
    rw [resetPage, him]
    rfl

/-- The image has begun in a band, with its own state current. -/
theorem Shown.begun (h : s.Shown S im) {imager : ImagerState} (himager : imager.Sendable)
    (hs : ({ s with imager, colorSpace := im.space } : WriterState μ ν).Alike s') : s'.Shown S im := by
  obtain ⟨started, him⟩ := h.image
  have hshows := h.ready.image _ (Option.mem_def.mpr him)
  have hready : ({ s with imager, colorSpace := im.space } : WriterState μ ν).Ready S none :=
    { h.ready with
      imager := himager
      space := hshows.fits.space
      lop := fun hexact => absurd hexact hshows.imprecise
      page := { h.ready.page with } }
  exact ⟨hready.alike hs, started, hs.image.trans him⟩

theorem Shown.markStarted (h : s.Shown S im) (band : Nat) : (s.markStarted band).Shown S im := by
  obtain ⟨started, him⟩ := h.image
  have hshows := h.ready.image _ (Option.mem_def.mpr him)
  have hmarked : (s.markStarted band).image = some { im with started := started.insert band } := by
    rw [WriterState.markStarted, him]
    rfl
  refine ⟨{ h.ready with page := { h.ready.page with }, image := ?_ }, _, hmarked⟩
  intro im' him'
  rw [hmarked] at him'
  cases him'
  refine { hshows with fits := { hshows.fits with }, room := ?_ }
  rw [BandSet.capacity_insert]
  exact hshows.room

/-- All bands have been sent some more rows. -/
theorem Shown.advance (h : s.Shown S im) (rows : Nat) :
    (s.advanceImage rows).Shown S (im.advanced rows) := by
  obtain ⟨started, him⟩ := h.image
  have hshows := h.ready.image _ (Option.mem_def.mpr him)
  have hadvanced : (s.advanceImage rows).image = some { im.advanced rows with started } := by
    rw [WriterState.advanceImage, him]
    rfl
  refine ⟨{ h.ready with page := { h.ready.page with }, image := ?_ }, _, hadvanced⟩
  intro im' him'
  rw [hadvanced] at him'
  cases him'
  exact { hshows with fits := { hshows.fits with }, room := hshows.room }

end WriterState

variable [Medium μ] [LawfulMedium μ]

/-- What is counted of an image is nothing to replay. -/
theorem Synced.advanceImage {q : Terms} {s : WriterState μ ν} {calls : Nat → List TargetCall}
    (h : Synced q s calls) (rows : Nat) : Synced q (s.advanceImage rows) calls := by
  refine h.adapt rfl rfl rfl { h.cache with } fun _ _ _ hm ht => ⟨{ hm with image := ?_ }, { ht with }⟩
  intro im him hended hbegun
  obtain ⟨before, hbefore, rfl⟩ := Option.mem_map.mp him
  exact hm.image before hbefore hended hbegun

/-- A session that follows no clips is as if none were current. -/
theorem Writer.InSession.forgetClip {S : Session} {clip : Option ClipPath}
    {w : Writer μ (Watched μ ν)} {drawn : Nat → List TargetCall} (h : w.InSession S clip drawn)
    (hclips : ∀ id, S.clips id = none) : w.InSession S none drawn := by
  have hready : w.state.Ready S none := { h.ready with clip_eq := fun id _ => (hclips id).symm }
  obtain ⟨state, disabled⟩ := w
  have henabled : disabled = false := h.told.enabled
  subst henabled
  refine ⟨h.told.keep hready.config_eq rfl fun calls hcalls => ?_, hready⟩
  exact hcalls.adapt rfl rfl rfl { hcalls.cache with } fun _ _ _ hm ht =>
    ⟨{ hm with within := { hm.within with }, clip := fun _ c hc => nomatch hc }, { ht with }⟩

variable [MemoryPolicy μ ν]

/-- A band is told to begin the image unless it has begun there. -/
theorem Synced.ensureBegun {S : Session} {im : OpenImage} {s : WriterState μ (Watched μ ν)}
    {calls : Nat → List TargetCall} {band : Nat} (h : Synced (S.on none) s calls)
    (hs : s.Shown S im) (hband : band < S.config.nbands) :
    Meets (WriterState.ensureBegun band) s
      (fun _ s' => s'.Shown S im ∧ (∀ im' ∈ s'.image, im'.started.contains band = true) ∧
        ∃ begins, (∀ call ∈ begins, im.BegunBy call) ∧
          Synced (S.on none) s' (extendCalls calls band begins))
      fun _ s' => s'.Shown S im ∧ Synced (S.on none) s' calls := by
  obtain ⟨started, him⟩ := hs.image
  have hshows := hs.ready.image _ (Option.mem_def.mpr him)
  have hconfig := hs.ready.config_eq
  rw [WriterState.ensureBegun]
  apply Meets.get_bind
  rw [him]
  dsimp only
  by_cases hbegun : started.contains band = true
  · rw [if_neg (by simp [hbegun])]
    refine Meets.pure ⟨hs, ?_, [], fun call hcall => absurd hcall List.not_mem_nil, ?_⟩
    · intro im' him'
      rw [him] at him'
      cases him'
      exact hbegun
    · refine h.congr fun b _ => ?_
      simp [extendCalls]
  · rw [if_pos (by simpa using hbegun)]
    have hbegin := h.beginImageBand hshows.imprecise hs.ready.imager him
      (hconfig ▸ hshows.fits.on) rfl (hconfig ▸ hband)
    refine Meets.bind (hbegin.mono (fun _ _ h => h) fun _ s' h' => ?_) fun _ s' h' => ?_
    · obtain ⟨⟨imager, himager, halike⟩, hsynced⟩ := h'
      exact ⟨hs.begun himager halike, hsynced⟩
    · obtain ⟨⟨imager, himager, halike⟩, call, hcall, hsynced⟩ := h'
      have hs' := hs.begun himager halike
      refine Meets.modify ⟨hs'.markStarted band, ?_, [call], ?_, hsynced⟩
      · intro im' him'
        refine WriterState.contains_of_markStarted (fun im₀ him₀ => ?_) him'
        exact Nat.lt_of_lt_of_le hband (hs'.ready.image im₀ him₀).room
      · intro c hc
        rw [List.mem_singleton.mp hc]
        exact hcall

/-- An image is told to a band with the rows that the band is sent. -/
theorem carries_imageDataBand {S : Session} {im : OpenImage} {band : Nat}
    (hband : band < S.config.nbands) {rows : ImageRows}
    (hrows : rows.Fits (im.header.planes im.space) S.config) (hended : ¬ S.terms.ended band) :
    Carries (S.on none) (S.on none) (WriterState.Shown (μ := μ) (ν := Watched μ ν) S im)
      (WriterState.imageDataBand band rows.command)
      (.endingWith band im.BegunBy (rows.call (im.header.planes im.space))) where
  rendersNothing := WriterState.rendersNothing_imageDataBand band rows.command
  meets s calls hs hsynced := by
    rw [WriterState.imageDataBand_eq]
    refine Meets.bind ((hsynced.ensureBegun hs hband).mono (fun _ _ h => h) fun _ s' h' => ?_)
      fun _ s' h' => ?_
    · obtain ⟨hs', hsynced'⟩ := h'
      refine ⟨hs', fun _ => [], (Adds.endingWith band im.BegunBy _).nothing, hsynced'.congr ?_⟩
      exact fun _ _ => (List.append_nil _).symm
    · obtain ⟨hs', hstarted, begins, hbegins, hsynced'⟩ := h'
      have hconfig := hs'.ready.config_eq
      rcases hsynced'.putBatch (show (Addressee.band band).Within s'.config.nbands from
        hconfig ▸ hband) [rows.command] with ⟨memory, buffer, hput, hheld⟩ | ⟨e, memory, hput⟩
      · have halike : s'.Alike { s' with memory, buffer } := ⟨rfl, rfl, rfl, rfl, rfl, rfl, rfl, rfl⟩
        refine Meets.of_ok hput ⟨(WriterState.Shown.lasting S im).alike hs' halike, ?_⟩
        obtain ⟨more, hmore, hsynced''⟩ := @hheld (S.on none) { s' with memory, buffer }
          (fun b calls => calls = if b = band then [rows.call (im.header.planes im.space)] else [])
          rfl rfl rfl { hsynced'.cache with } fun b hb r hm ht => by
            refine ⟨_, r, rfl, ?_, { hm with }, { ht with }⟩
            by_cases heq : b = band
            · subst heq
              obtain ⟨started, him⟩ := hs'.image
              obtain ⟨header, space, hr, hplanes⟩ := hm.image _ (Option.mem_def.mpr him) hended
                (hstarted _ (Option.mem_def.mpr him))
              have hsame : header.planes space = im.header.planes im.space := hplanes
              have hreader : r.config = S.config := hm.config.trans hconfig
              rw [← hsame] at hrows
              rw [if_pos rfl, ← hsame]
              simp only [Addressee.includes, beq_self_eq_true, if_true]
              exact .single (replays_imageData hr hrows.count hrows.raster hrows.length
                (hreader ▸ hrows.size))
            · rw [if_neg heq]
              simpa [Addressee.includes, Ne.symm heq] using ReplaysAll.nil r
        refine ⟨extendCalls (fun _ => []) band (begins ++ [rows.call (im.header.planes im.space)]),
          ⟨⟨begins, ?_, hbegins⟩, fun b hb => ?_⟩, hsynced''.congr fun b hb => ?_⟩
        · rw [extendCalls, if_pos rfl, List.nil_append]
        · rw [extendCalls, if_neg hb, List.append_nil]
        · rw [hmore b hb, extendCalls, extendCalls, List.append_assoc]
          split <;> simp
      · refine Meets.of_error hput ⟨?_, extendCalls (fun _ => []) band begins, ⟨?_, ?_⟩, ?_⟩
        · exact (WriterState.Shown.lasting S im).alike hs' ⟨rfl, rfl, rfl, rfl, rfl, rfl, rfl, rfl⟩
        · intro call hcall
          rw [extendCalls, if_pos rfl, List.nil_append] at hcall
          exact hbegins call hcall
        · intro b hb
          rw [extendCalls, if_neg hb, List.append_nil]
        · refine (hsynced'.withMemory memory).congr fun b _ => ?_
          simp [extendCalls]

/-! ### Requests -/

/-- The writer is in step with replay, and this image is open. -/
structure Writer.Showing (S : Session) (im : OpenImage) (w : Writer μ (Watched μ ν))
    (drawn : Nat → List TargetCall) : Prop where
  told : w.Told (S.on none) S.config drawn
  shown : w.state.Shown S im

namespace Writer.Showing

variable {S : Session} {im : OpenImage} {w w' : Writer μ (Watched μ ν)}
variable {drawn more : Nat → List TargetCall}

omit [MemoryPolicy μ ν] in
theorem inSession (h : w.Showing S im drawn) : w.InSession S none drawn := ⟨h.told, h.shown.ready⟩

omit [MemoryPolicy μ ν] in
theorem of_inSession {clip : Option ClipPath} (h : w.InSession S clip drawn)
    (him : w.state.image = some im) : w.Showing S im drawn :=
  have hshows := h.ready.image im him
  have h' := h.forgetClip hshows.clips
  ⟨h'.told, h'.ready, im.started, him⟩

omit [MemoryPolicy μ ν] in
/-- All bands have been sent some more rows. -/
theorem advance (h : w.Showing S im drawn) (rows : Nat) :
    Writer.Showing S (im.advanced rows) ⟨w.state.advanceImage rows, false⟩ drawn :=
  ⟨h.told.keep h.shown.ready.config_eq rfl fun _ hcalls => hcalls.advanceImage rows,
    h.shown.advance rows⟩

end Writer.Showing

namespace Session

variable {S : Session} {im : OpenImage} {rows : ImageRows}

/-- A band is sent some rows. -/
theorem makes_imageDataBand (hS : S.Sound) (hended : ∀ band, ¬ S.terms.ended band) {band : Nat}
    (hband : band < S.config.nbands) (hrows : rows.Fits (im.header.planes im.space) S.config) :
    Makes (S.on none) S.config (WriterState.Shown (μ := μ) (ν := Watched μ ν) S im)
      (Writer.withRecovery (WriterState.imageDataBand band rows.command))
      (InBand band (im.Brings rows)) := by
  intro w drawn htold hw
  refine (htold.withRecovery (WriterState.Shown.lasting S im) hw (carries_imageDataBand hband hrows (hended band))
    hS.nbands_le).mono (fun _ _ h => ?_) fun _ _ h => ?_
  · obtain ⟨hw', more, ⟨⟨begins, hmore, hbegins⟩, hother⟩, htold'⟩ := h
    refine ⟨hw', more, fun b => ?_, htold'⟩
    rw [InBand]
    split
    · next heq => exact ⟨begins, heq ▸ hmore, hbegins⟩
    · next hne => exact hother b hne
  · refine h.imp_right ?_
    rintro ⟨hw', more, -, htold'⟩
    exact ⟨hw', more, trivial, htold'⟩

/-- All bands of an image are sent some rows. -/
theorem makes_rows (hS : S.Sound) (hended : ∀ band, ¬ S.terms.ended band) {bands : BandRange}
    (hbands : bands.max < S.config.nbands) (hrows : rows.Fits (im.header.planes im.space) S.config) :
    Makes (S.on none) S.config (WriterState.Shown (μ := μ) (ν := Watched μ ν) S im)
      (bands.toList.forM fun band =>
        Writer.withRecovery (WriterState.imageDataBand band rows.command))
      fun band calls => if band ∈ bands.toList then im.Brings rows calls else calls = [] := by
  refine Makes.mono (Makes.forM fun band hband => makes_imageDataBand hS hended ?_ hrows)
    fun band calls hcalls => hcalls.inBand bands.nodup_toList
  have hin := (BandRange.mem_toList bands band).mp hband
  simp only [BandRange.contains, Bool.and_eq_true, decide_eq_true_eq] at hin
  exact Nat.lt_of_le_of_lt hin.2 hbands

end Session

def Writer.sendRows (planes : List Bitmap) (depth width : Nat) (bands : BandRange) (rows : Span) :
    WriterM μ ν Unit := do
  let data ← Bitmap.rowsOfAll planes depth width rows
  bands.toList.forM fun band => withRecovery (WriterState.imageDataBand band
    (Command.imageData rows.length.toNat (Bits.shortRaster width) data))
  update (·.advanceImage rows.length.toNat)

/-- As many rows of all planes as are sent together have room. -/
theorem portion_fits {raster count room : Nat} (height : Nat) (hroom : raster * count ≤ room) :
    raster * count * max (if raster = 0 then height else room / (raster * count)) 1 ≤ room := by
  by_cases hzero : raster * count = 0
  · rw [hzero, Nat.zero_mul]
    exact Nat.zero_le room
  · have hwhole : 1 ≤ room / (raster * count) := by
      rw [Nat.le_div_iff_mul_le (Nat.pos_of_ne_zero hzero), Nat.one_mul]
      exact hroom
    rw [if_neg (left_ne_zero_of_mul hzero), max_eq_left hwhole]
    exact Nat.mul_div_le ..

namespace Writer.Showing

variable {S : Session} {im : OpenImage} {w w' : Writer μ (Watched μ ν)}
variable {drawn more : Nat → List TargetCall}

/-- Some rows come to all bands, and count from then on. -/
theorem sendRows (hS : S.Sound) (hended : ∀ band, ¬ S.terms.ended band) {planes : List Bitmap}
    {depth width : Nat} {bands : BandRange} (hbands : bands.max < S.config.nbands)
    (hplanes : planes.length = im.header.planes im.space)
    (hraster : Bits.shortRaster width < 4294967296) {span : Span} (hpos : 0 < span.length)
    (hlt : span.length < 4294967296)
    (hsize : Bits.shortRaster width * planes.length * span.length.toNat ≤ S.config.readerSize)
    (h : w.Showing S im drawn) :
    Meets (Writer.sendRows planes depth width bands span) w
      (fun _ w' => ∃ (rows : ImageRows) (more : Nat → List TargetCall),
        ImageRows.ofSpan planes depth width span = .ok rows ∧
        (∀ band, if band ∈ bands.toList then im.Brings rows (more band) else more band = []) ∧
        w'.Showing S (im.advanced rows.count) fun band => drawn band ++ drawing (more band))
      fun _ w' => w'.disabled = true ∨ ∃ im' drawn', w'.Showing S im' drawn' := by
  cases hdata : Bitmap.rowsOfAll planes depth width span with
  | error e =>
    have hfails : Writer.sendRows planes depth width bands span w = .error e w := by
      rw [Writer.sendRows, hdata]
      rfl
    exact .of_error hfails (.inr ⟨im, drawn, h⟩)
  | ok data =>
    obtain ⟨rows, hrows⟩ : ∃ rows, ImageRows.ofSpan planes depth width span = .ok rows := by
      rw [ImageRows.ofSpan, hdata]
      exact ⟨_, rfl⟩
    obtain ⟨hcount, hrowsRaster, hrowsData⟩ := ImageRows.of_ofSpan hrows
    have hfits : rows.Fits (im.header.planes im.space) S.config := by
      rw [← hplanes]
      refine ⟨?_, hrowsRaster ▸ hraster, ?_, ?_⟩
      · omega
      · rw [hcount, hrowsRaster]
        exact ImageRows.length_rowsOfAll hrowsData
      · rw [hcount, hrowsRaster]
        exact hsize
    have hcommand : Command.imageData span.length.toNat (Bits.shortRaster width) data =
        rows.command := by
      rw [hdata] at hrowsData
      cases hrowsData
      rw [ImageRows.command, hcount, hrowsRaster]
    have hsends : Writer.sendRows planes depth width bands span w =
        (bands.toList.forM (fun band =>
          withRecovery (WriterState.imageDataBand band rows.command)) >>= fun _ =>
            update (·.advanceImage rows.count)) w := by
      rw [Writer.sendRows, hdata, hcount, ← hcommand]
      rfl
    rw [Meets, hsends]
    have hmakes := Session.makes_rows (μ := μ) (ν := ν) hS hended hbands hfits w drawn h.told h.shown
    refine Meets.bind (hmakes.mono (fun _ _ h => h) fun _ w' h' => ?_) fun _ w' h' => ?_
    · refine h'.imp_right ?_
      rintro ⟨hw', more, -, htold⟩
      exact ⟨im, _, htold, hw'⟩
    · obtain ⟨hw', more, hmore, htold⟩ := h'
      have hshowing : w'.Showing S im fun band => drawn band ++ drawing (more band) := ⟨htold, hw'⟩
      have hrun : Writer.update (·.advanceImage rows.count) w' =
          .ok () ⟨w'.state.advanceImage rows.count, w'.disabled⟩ := rfl
      rw [htold.enabled] at hrun
      exact .of_ok hrun ⟨rows, more, hrows, hmore, hshowing.advance rows.count⟩

/-- Portions of rows come to all bands one after another. -/
theorem forM_sendRows (hS : S.Sound) (hended : ∀ band, ¬ S.terms.ended band) (planes : List Bitmap)
    (depth : Nat) {width : Nat} {bands : BandRange} (hbands : bands.max < S.config.nbands)
    (hplanes : planes.length = im.header.planes im.space)
    (hraster : Bits.shortRaster width < 4294967296) {spans : List Span}
    (hspans : ∀ s ∈ spans, 0 < s.length ∧ s.length < 4294967296 ∧
      Bits.shortRaster width * planes.length * s.length.toNat ≤ S.config.readerSize)
    (h : w.Showing S im drawn) :
    Meets (spans.forM (Writer.sendRows planes depth width bands)) w
      (fun _ w' => ∃ (portions : List ImageRows) (more : Nat → List TargetCall),
        List.Forall₂ (fun s rows => ImageRows.ofSpan planes depth width s = .ok rows) spans portions ∧
        (∀ band, if band ∈ bands.toList then im.Brought portions (more band) else more band = []) ∧
        w'.Showing S (im.advanced (portions.map (·.count)).sum) fun band =>
          drawn band ++ drawing (more band))
      fun _ w' => w'.disabled = true ∨ ∃ im' drawn', w'.Showing S im' drawn' := by
  induction spans generalizing im w drawn with
  | nil =>
    refine Meets.pure ⟨[], fun _ => [], .nil, fun band => ?_, ?_⟩
    · split
      · exact .nil im
      · rfl
    · simpa [drawing, OpenImage.advanced] using h
  | cons span spans ih =>
    show Meets (Writer.sendRows planes depth width bands span >>= fun _ =>
      spans.forM (Writer.sendRows planes depth width bands)) w _ _
    obtain ⟨hpos, hlt, hsize⟩ := hspans span List.mem_cons_self
    refine (h.sendRows hS hended hbands hplanes hraster hpos hlt hsize).bind fun _ w' h' => ?_
    obtain ⟨rows, first, hrows, hfirst, hw'⟩ := h'
    have hrest := @ih (im.advanced rows.count) w' _ hplanes
      (fun s hs => hspans s (List.mem_cons_of_mem _ hs)) hw'
    refine hrest.mono (fun _ w'' h'' => ?_) fun _ _ h'' => h''
    obtain ⟨portions, rest, hportions, hrest, hw''⟩ := h''
    refine ⟨rows :: portions, fun band => first band ++ rest band, .cons hrows hportions,
      fun band => ?_, ?_⟩
    · have hfirst := hfirst band
      have hrest := hrest band
      split at hfirst
      · next hin =>
        rw [if_pos hin] at hrest ⊢
        exact .cons hfirst hrest
      · next hout =>
        rw [if_neg hout] at hrest ⊢
        simp only [hfirst, hrest, List.append_nil]
    · simpa only [OpenImage.advanced, List.map_cons, List.sum_cons, Nat.add_assoc, drawing_append,
        List.append_assoc] using hw''

/-- Rows are sent to every band of the image, cut to fit the reader's buffer. -/
theorem imageData (hS : S.Sound) (hended : ∀ band, ¬ S.terms.ended band)
    (hroom : S.config.payloadRoom < 4294967296) (planes : List Bitmap) {height : Nat}
    (hheight : height < 4294967296) (h : w.Showing S im drawn) :
    Meets (Writer.imageData planes height) w
      (fun _ w' => ∃ more : Nat → List TargetCall, planes.length = im.header.planes im.space ∧
        (∀ band, im.Delivers planes height band (more band)) ∧
        w'.Showing S (im.advanced height) fun band => drawn band ++ drawing (more band))
      fun _ w' => w'.disabled = true ∨ ∃ im' drawn', w'.Showing S im' drawn' := by
  obtain ⟨started, him⟩ := h.shown.image
  have hshows := h.shown.ready.image _ (Option.mem_def.mpr him)
  have hplanes : 0 < im.header.planes im.space := hshows.planes
  have hfails : w.disabled = true ∨ ∃ im' drawn', w.Showing S im' drawn' := .inr ⟨im, drawn, h⟩
  rw [Meets, Writer.imageData, bind_of_ok (check_eq h.told.enabled), get_bind_run, him]
  dsimp only
  by_cases hcount : planes.length = im.header.planes im.space
  swap
  · rw [if_pos hcount]
    exact hfails
  rw [if_neg (not_not.mpr hcount)]
  cases hbands : im.bands with
  | none =>
    have hrun : Writer.update (·.advanceImage height) w =
        .ok () ⟨w.state.advanceImage height, w.disabled⟩ := rfl
    rw [h.told.enabled] at hrun
    dsimp only
    rw [hrun]
    refine ⟨fun _ => [], hcount, fun band => ?_, ?_⟩
    · rw [OpenImage.Delivers, OpenImage.bandList, hbands, Option.elim_none,
        if_neg List.not_mem_nil]
    · simpa [drawing] using h.advance height
  | some bands =>
    dsimp only
    obtain ⟨width, hwidth⟩ : ∃ width, width = im.header.suppliedWidth *
      im.header.planeDepth im.space := ⟨_, rfl⟩
    obtain ⟨raster, hraster⟩ : ∃ raster, raster = Bits.shortRaster width := ⟨_, rfl⟩
    obtain ⟨count, hcount'⟩ : ∃ count, count = im.header.planes im.space := ⟨_, rfl⟩
    rw [← hwidth, ← hraster, ← hcount', h.shown.ready.config_eq]
    rw [← hcount'] at hcount hplanes
    by_cases hlong : S.config.payloadRoom < raster * count
    · rw [if_pos hlong]
      exact hfails
    rw [if_neg hlong, Span.forM_eq_cut]
    obtain ⟨portion, hportion⟩ : ∃ portion, portion =
      max (if raster = 0 then height else S.config.payloadRoom / (raster * count)) 1 := ⟨_, rfl⟩
    rw [← hportion]
    have hpos : 0 < portion := by omega
    have hroom' : raster * count * portion ≤ S.config.payloadRoom :=
      hportion ▸ portion_fits height (not_lt.mp hlong)
    have hshort : raster < 4294967296 :=
      (Nat.le_mul_of_pos_right raster hplanes).trans_lt (by omega)
    have hchain : Span.Chain 0 height (Span.cut portion 0 0 height) :=
      Span.chain_cut (Int.natCast_pos.mpr hpos) (Int.natCast_nonneg height)
    have hspans : ∀ s ∈ Span.cut portion 0 0 height, 0 < s.length ∧ s.length < 4294967296 ∧
        Bits.shortRaster width * planes.length * s.length.toNat ≤ S.config.readerSize := by
      intro s hs
      obtain ⟨hstart, hlength, hmost, hend⟩ := Span.of_mem_cut (Int.natCast_pos.mpr hpos) hs
      have hle : s.length.toNat ≤ portion := by omega
      have hreader : S.config.payloadRoom ≤ S.config.readerSize := Nat.sub_le ..
      refine ⟨hlength, by omega, ?_⟩
      rw [← hraster, hcount]
      exact (Nat.mul_le_mul_left _ hle).trans (hroom'.trans hreader)
    have hall := h.forM_sendRows hS hended planes (im.header.planeDepth im.space)
      (hshows.bands bands hbands) (hcount.trans hcount') (hraster ▸ hshort) hspans
    rw [hraster]
    refine hall.mono (fun _ w' h' => ?_) fun _ _ h' => h'
    obtain ⟨portions, more, hportions, hmore, hw'⟩ := h'
    have htotal : (portions.map (·.count)).sum = height := by
      rw [ImageRows.map_count hportions, hchain.sum_length]
      simp
    refine ⟨more, hcount, fun band => ?_, htotal ▸ hw'⟩
    have hmore := hmore band
    rw [OpenImage.Delivers, OpenImage.bandList, hbands]
    split at hmore
    · next hin => 
      exact (if_pos hin).symm ▸ ⟨_, portions, hchain, hwidth ▸ hportions, hmore⟩
    · next hout => exact (if_neg hout).symm ▸ hmore

end Writer.Showing

/-- The bands that an image may touch. -/
def Config.imageBands (config : Config) (ps : ImagerState) (header : ImageHeader) : Option BandRange :=
  ((header.deviceBounds ps.ctm).bind (·.intersect config.pageRect)).bind fun r =>
    config.bandsFor r.y1 r.height

def Config.openedImage (config : Config) (ps : ImagerState) (header : ImageHeader)
    (space : ColorSpace) (color : DrawingColor) (clip : Option ClipPath) : OpenImage where
  header := header
  space := space
  color := color
  clip := clip
  state := ps
  bands := config.imageBands ps header
  started := .empty config.nbands
  rowsSent := 0

/-- Every pixel of an image that can be sent has a bit at least. -/
theorem ImageHeader.planes_pos {h : ImageHeader} {cs : ColorSpace} {bytes : List UInt8}
    (hbytes : h.encode cs = .ok bytes) (hmask : h.mask = true → h.bitsPerComponent = 1) :
    0 < h.planes cs := by
  have hcomponents : 0 < h.components cs := by
    rw [components, ColorSpace.components]
    split
    · decide
    · split
      · decide
      · cases cs.base <;> decide
  have hbits : 0 < h.bitsPerComponent := by
    cases hm : h.mask with
    | true => exact (hmask hm).symm ▸ Nat.one_pos
    | false =>
      by_contra hzero
      have hcode : ∃ e, h.sampleCode = .error e := by
        rw [sampleCode, hm, Nat.eq_zero_of_not_pos hzero]
        exact ⟨_, rfl⟩
      obtain ⟨e, hcode⟩ := hcode
      rw [encode, hcode] at hbytes
      cases hbytes
  rw [planes]
  split
  · exact Nat.one_pos
  · exact hcomponents
  · exact Nat.mul_pos hcomponents hbits

/-- An image that commands carry. -/
structure Session.AdmitsImage (S : Session) (ps : ImagerState) (header : ImageHeader)
    (space : ColorSpace) (color : DrawingColor) (clip : Option ClipPath) : Prop where
  imprecise : ¬ S.terms.exactImager
  clips : ∀ id, S.clips id = none
  width : header.width < 4294967296
  height : header.height < 4294967296
  mask : header.mask = true → header.bitsPerComponent = 1
  space : space.Sendable
  fillAdjust : Word.fits32 ps.fillAdjust.x = true ∧ Word.fits32 ps.fillAdjust.y = true
  color : ∀ c, color = .pure c → S.terms.exactColors → c.IsOf S.config.depth
  clip : ∀ c ∈ clip, c.Within S.terms

namespace Writer.InSession

variable {S : Session} {w : Writer μ (Watched μ ν)} {drawn : Nat → List TargetCall}
variable {current : Option ClipPath}

omit [MemoryPolicy μ ν] in
/-- A color space becomes current. -/
theorem useColorSpace (h : w.InSession S current drawn) {space : ColorSpace}
    (hspace : space.Sendable) :
    InSession S current ⟨w.state.useColorSpace space, false⟩ drawn := by
  have hready : (w.state.useColorSpace space).Ready S current ∧
      (w.state.useColorSpace space).memory = w.state.memory := by
    rw [WriterState.useColorSpace]
    split
    · exact ⟨h.ready, rfl⟩
    · exact ⟨{ h.ready with space := hspace, page := { h.ready.page with } }, rfl⟩
  exact ⟨h.told.keep hready.1.config_eq (congrArg Watched.rendered hready.2)
    fun _ hcalls => hcalls.useColorSpace space, hready.1⟩

omit [MemoryPolicy μ ν] in
/-- An image is open that has begun in no band. -/
theorem openImage (h : w.InSession S current drawn) {im : OpenImage} (him : S.Shows im)
    (hstarted : ∀ band, im.started.contains band = false) :
    Writer.Showing S im ⟨{ w.state with image := some im }, false⟩ drawn := by
  have h' := h.forgetClip him.clips
  have hready : ({ w.state with image := some im } : WriterState μ (Watched μ ν)).Ready S none :=
    { h'.ready with
      page := { h'.ready.page with }
      image := fun im' him' => by
        cases him'
        exact him }
  refine ⟨h'.told.keep hready.config_eq rfl fun calls hcalls => ?_, hready, im.started, rfl⟩
  refine hcalls.adapt rfl rfl rfl { hcalls.cache with } fun band _ r hm ht =>
    ⟨{ hm with image := fun im' him' _ hbegun => ?_ }, { ht with }⟩
  cases him'
  rw [hstarted band] at hbegun
  cases hbegun

omit [MemoryPolicy μ ν] in
/-- An image begins on the page, or all is as before. -/
theorem beginImage (h : w.InSession S current drawn) {ps : ImagerState} {header : ImageHeader}
    {space : ColorSpace} {color : DrawingColor} {clip : Option ClipPath} (hS : S.Sound)
    (hadmits : S.AdmitsImage ps header space color clip) :
    Meets (Writer.beginImage ps header space color clip) w
      (fun _ w' => w'.Showing S (S.config.openedImage ps header space color clip) drawn)
      fun _ w' => ∃ current', w'.InSession S current' drawn := by
  have hfails : ∃ current', w.InSession S current' drawn := ⟨current, h⟩
  refine Meets.bind (P := fun _ w' => w' = w) (.of_ok (check_eq h.told.enabled) rfl) fun _ w' hw' => ?_
  subst hw'
  refine .get_bind ?_
  simp only [h.ready.config_eq]
  split
  · exact hfails
  split
  · exact hfails
  split
  · exact hfails
  · exact hfails
  rename_i color _ _ _ _
  cases hencode : header.encode space with
  | error e => exact hfails
  | ok bytes =>
    refine Meets.bind (P := fun _ w'' => w'' = w') (Meets.pure rfl) fun _ w'' hw'' => ?_
    subst hw''
    cases hbounds : header.deviceBounds ps.ctm with
    | none => exact hfails
    | some bounds =>
      refine Meets.bind (P := fun _ w'' => w''.InSession S current drawn)
        ((h.updateImager (S := S) hadmits.fillAdjust fun h => absurd h hadmits.imprecise).mono
          (fun _ _ h => h.1) fun _ _ h => ⟨current, h hadmits.imprecise⟩) fun _ w₁ h₁ => ?_
      have h₂ := (h₁.useColorSpace hadmits.space).useClip clip
      have hshows : S.Shows (S.config.openedImage ps header space color clip) := {
        imprecise := hadmits.imprecise
        clips := hadmits.clips
        fits := {
          width := hadmits.width
          height := hadmits.height
          mask := hadmits.mask
          space := hadmits.space
          fillAdjust := hadmits.fillAdjust
          color := hadmits.color
          clip := hadmits.clip }
        planes := header.planes_pos hencode hadmits.mask
        bands := fun bands hbands => by
          obtain ⟨r, -, hr⟩ := Option.bind_eq_some_iff.mp hbands
          exact (hS.valid.bandsFor_lt hr).2
        room := by
          simp only [Config.openedImage, BandSet.empty]
          omega }
      have h₃ := h₂.openImage hshows fun band => BandSet.contains_empty _ _
      have hopened : S.config.openedImage ps header space color clip =
          { header, space, color, clip, state := ps
            bands := (bounds.intersect S.config.pageRect).bind fun r =>
              S.config.bandsFor r.y1 r.height
            started := .empty ((w₁.state.useColorSpace space).useClip clip).config.nbands } := by
        rw [h₂.ready.config_eq, Config.openedImage, Config.imageBands, hbounds]
        rfl
      rw [hopened] at h₃ ⊢
      obtain ⟨state, disabled⟩ := w₁
      have henabled : disabled = false := h₁.told.enabled
      subst henabled
      exact h₃

end Writer.InSession

/-! ### The end of an image -/

/-- The terms while the image has ended in some bands. -/
def Session.endedIn (S : Session) (ended : Nat → Prop) : Terms := { S.on none with ended }

/-- The image ends in a band in which it has begun. -/
theorem carries_endImageBand {S : Session} (im : OpenImage) {band : Nat} {ended : Nat → Prop}
    (hband : band < S.config.nbands) (hnot : ¬ ended band) :
    Carries (S.endedIn ended) (S.endedIn fun b => b = band ∨ ended b)
      (WriterState.Shown (μ := μ) (ν := Watched μ ν) S im) (WriterState.endImageBand band)
      (.onBand band fun calls => calls = [] ∨ calls = [.endImage]) where
  rendersNothing := WriterState.rendersNothing_endImageBand band
  meets s calls hs hsynced := by
    have hnone : ∀ b : Nat, calls b = calls b ++ [] := fun b => (List.append_nil _).symm
    have hweaken : ∀ {s' : WriterState μ (Watched μ ν)} {b : Nat} {r : ReplayState},
        Mirrors (S.endedIn ended) s' b (s'.band b) r →
          Mirrors (S.endedIn fun b => b = band ∨ ended b) s' b (s'.band b) r := fun hm =>
      { hm with
        within := { hm.within with }
        image := fun im' him' hopen hbegun => hm.image im' him' (fun h => hopen (.inr h)) hbegun }
    rw [WriterState.endImageBand]
    refine .get_bind ?_
    by_cases hbegun : s.image.any (·.started.contains band) = true
    · rw [if_pos hbegun]
      obtain ⟨im', him', hstarted⟩ := (Option.any_eq_true _ _).mp hbegun
      have hconfig := hs.ready.config_eq
      rcases hsynced.putBatch (show (Addressee.band band).Within s.config.nbands from
        hconfig ▸ hband) [Command.imageEnd] with ⟨memory, buffer, hput, hheld⟩ | ⟨e, memory, hput⟩
      · have halike : s.Alike { s with memory, buffer } := ⟨rfl, rfl, rfl, rfl, rfl, rfl, rfl, rfl⟩
        obtain ⟨more, hmore, hsynced'⟩ := @hheld (S.endedIn fun b => b = band ∨ ended b)
          { s with memory, buffer }
          (fun b calls => calls = if b = band then [.endImage] else [])
          rfl rfl rfl { hsynced.cache with } fun b hb r hm ht => by
            by_cases heq : b = band
            · subst heq
              obtain ⟨header, space, hr, -⟩ := hm.image im' him' hnot hstarted
              refine ⟨_, { r with image := none }, rfl, ?_,
                { hweaken hm with image := fun _ _ hopen => absurd (.inl rfl) hopen }, { ht with }⟩
              rw [if_pos rfl]
              simp only [Addressee.includes, beq_self_eq_true, if_true]
              exact .single (replays_imageEnd (by rw [hr]; rfl))
            · refine ⟨_, r, rfl, ?_, { hweaken hm with }, { ht with }⟩
              rw [if_neg heq]
              simpa [Addressee.includes, Ne.symm heq] using ReplaysAll.nil r
        refine Meets.of_ok hput ⟨(WriterState.Shown.lasting S im).alike hs halike,
          fun b => if b = band then [.endImage] else [], ⟨.inr (if_pos rfl), fun b hb => if_neg hb⟩,
          hsynced'.congr fun b hb => ?_⟩
        rw [hmore b hb]
      · refine Meets.of_error hput ⟨(WriterState.Shown.lasting S im).alike hs
          ⟨rfl, rfl, rfl, rfl, rfl, rfl, rfl, rfl⟩, fun _ => [], rfl, ?_⟩
        exact (hsynced.withMemory memory).congr fun b _ => hnone b
    · rw [if_neg hbegun]
      have hsame : Synced (S.endedIn fun b => b = band ∨ ended b) s calls :=
        hsynced.adapt rfl rfl rfl { hsynced.cache with } fun b _ r hm ht => ⟨hweaken hm, { ht with }⟩
      exact Meets.pure ⟨hs, fun _ => [], ⟨.inl rfl, fun _ _ => rfl⟩,
        hsame.congr fun b _ => hnone b⟩

omit [Medium μ] [LawfulMedium μ] in
/-- Watching memory changes nothing about why it is refused. -/
theorem MemoryPolicy.RefusesForLack.watched (h : MemoryPolicy.RefusesForLack μ ν) :
    MemoryPolicy.RefusesForLack μ (Watched μ ν) := by
  intro n memory memory' e hrefused
  cases hreserve : (MemoryPolicy.reserve μ n memory.memory : EStateM.Result Error ν Unit) with
  | ok u inner =>
    simp only [MemoryPolicy.reserve, Watched.onMemory] at hreserve hrefused
    rw [hreserve] at hrefused
    cases hrefused
  | error e' inner =>
    have hlack := h _ _ _ _ hreserve
    simp only [MemoryPolicy.reserve, Watched.onMemory] at hreserve hrefused
    rw [hreserve] at hrefused
    cases hrefused
    exact hlack

/-- The end of an image is refused for no other reason than that there is no memory. -/
theorem Synced.endImageBand_lacks {q : Terms} {s : WriterState μ (Watched μ ν)}
    {calls : Nat → List TargetCall} (h : Synced q s calls) (hlack : MemoryPolicy.RefusesForLack μ ν)
    {band : Nat} (hband : band < s.config.nbands) :
    Meets (WriterState.endImageBand band) s (fun _ _ => True) fun e _ => e.isRetryable = true := by
  rw [WriterState.endImageBand]
  refine .get_bind ?_
  split
  · obtain ⟨runs, sent, hk, -⟩ := h.replays
    cases hreserve : (MemoryPolicy.reserve μ [Command.imageEnd].flatten.length s.memory :
        EStateM.Result _ _ Unit) with
    | ok u memory =>
      have hshort : ∀ c ∈ [Command.imageEnd], c.length ≤ s.buffer.capacity := by
        intro c hc
        have hlength : Command.imageEnd.length = 2 := by decide +kernel
        have hreader := h.valid.readerSize
        have hbuffer := h.valid.bufferSize
        have hlookahead : Buffered.lookahead = 128 := rfl
        rw [List.mem_singleton.mp hc, h.capacity]
        omega
      obtain ⟨_, buffer, _, hput, -⟩ := WriterState.putBatch_of_fit hk
        (show (Addressee.band band).Within s.config.nbands from hband) hshort hreserve
      exact .of_ok hput trivial
    | error e memory =>
      have hput : WriterState.putBatch (.band band) [Command.imageEnd] s =
          .error e { s with memory } :=
        bind_of_error (WriterState.onMemory_of_error hreserve) _
      exact .of_error hput (hlack.watched _ _ _ _ hreserve)
  · exact Meets.pure trivial

omit [Medium μ] [LawfulMedium μ] in
/-- Attempts fail as the operation does. -/
theorem Writer.meets_attempt (op : WriteM μ (Watched μ ν) Unit)
    {I : WriterState μ (Watched μ ν) → Prop} {p : Error → Prop}
    (hop : ∀ s, I s → Meets op s (fun _ _ => True) fun e s' => p e ∧ I s')
    (hmemory : ∀ s memory, I s → I { s with memory }) {w : Writer μ (Watched μ ν)} (hw : I w.state)
    (n : Nat) : Meets (Writer.attempt op n) w (fun _ _ => True) fun e _ => p e := by
  induction n generalizing w with
  | zero =>
    cases hrun : op w.state with
    | ok u s => exact .of_ok (attempt_of_ok hrun 0) trivial
    | error e s =>
      obtain ⟨he, -⟩ := (hop w.state hw).error hrun
      cases hlack : e.isRetryable with
      | true => exact .of_error (attempt_zero_of_lack hrun hlack) he
      | false => exact .of_error (attempt_of_error hrun hlack 0) he
  | succ n ih =>
    cases hrun : op w.state with
    | ok u s => exact .of_ok (attempt_of_ok hrun _) trivial
    | error e s =>
      obtain ⟨he, hs⟩ := (hop w.state hw).error hrun
      cases hlack : e.isRetryable with
      | true =>
        rcases attempt_succ_of_lack hrun hlack n with hagain | hfailed
        · rw [Meets, hagain]
          exact ih (hmemory s _ hs)
        · exact .of_error hfailed he
      | false => exact .of_error (attempt_of_error hrun hlack _) he

/-- The image ends in a band, or the writer is switched off: on an empty page there is nothing to
end. -/
theorem Writer.Told.endImageBand {S : Session} {im : OpenImage} {ended : Nat → Prop} {band : Nat}
    {w : Writer μ (Watched μ ν)} {drawn : Nat → List TargetCall}
    (h : w.Told (S.endedIn ended) S.config drawn) (hS : S.Sound) (hw : w.state.Shown S im)
    (hlack : MemoryPolicy.RefusesForLack μ ν) (hband : band < S.config.nbands)
    (hnot : ¬ ended band) :
    Meets (Writer.withRecovery (WriterState.endImageBand band)) w
      (fun _ => Writer.ToldMore (S.endedIn fun b => b = band ∨ ended b) S.config
        (WriterState.Shown S im) (fun more => (more band = [] ∨ more band = [.endImage]) ∧
          ∀ b, b ≠ band → more b = []) drawn)
      fun _ w' => w'.disabled = true := by
  have hI := WriterState.Shown.lasting (μ := μ) (ν := Watched μ ν) S im
  have hop := carries_endImageBand (μ := μ) (ν := ν) (S := S) im hband hnot
  have hattempt := h.attempt hI hw hop w.state.config.retryBudget
  have hfails := Writer.meets_attempt (WriterState.endImageBand band)
    (p := fun e => e.isRetryable = true)
    (I := fun s => s.Shown S im ∧ ∃ calls, Synced (S.endedIn ended) s calls)
    (fun s hs => by
      obtain ⟨hs, calls, hcalls⟩ := hs
      have hmeets := hop.meets s calls hs hcalls
      have hlacks := hcalls.endImageBand_lacks hlack (hs.ready.config_eq ▸ hband)
      cases hrun : WriterState.endImageBand band s with
      | ok u s' => exact .of_ok hrun trivial
      | error e s' =>
        obtain ⟨hs', more, -, hcalls'⟩ := hmeets.error hrun
        exact .of_error hrun ⟨hlacks.error hrun, hs', _, hcalls'⟩)
    (fun s memory hs => ⟨hI.alike hs.1 ⟨rfl, rfl, rfl, rfl, rfl, rfl, rfl, rfl⟩,
      hs.2.imp fun _ hcalls => hcalls.withMemory memory⟩)
    (show w.state.Shown S im ∧ _ from ⟨hw, by
      obtain ⟨calls, hcalls, -⟩ := h.extend
      exact ⟨calls, hcalls⟩⟩) w.state.config.retryBudget
  rw [Meets, withRecovery_eq _ h.enabled]
  cases hrun : Writer.attempt (WriterState.endImageBand band) w.state.config.retryBudget w with
  | ok u w' => exact hattempt.ok hrun
  | error e w' =>
    have he : e.isRetryable = true := hfails.error hrun
    rcases hattempt.error hrun with ⟨hnot, -⟩ | ⟨hw', more, hmore, htold⟩
    · rw [he] at hnot
      cases hnot
    · have hagain : Meets (Writer.flushRecovery >>= fun _ =>
          Writer.attempt (WriterState.endImageBand band) w.state.config.retryBudget) w'
          (fun _ => Writer.ToldMore (S.endedIn fun b => b = band ∨ ended b) S.config
            (WriterState.Shown S im) (Adds.onBand band fun calls => calls = [] ∨
              calls = [.endImage]).all drawn)
          fun _ w' => w'.disabled = true := by
        refine Meets.bind (htold.flushRecovery hI hw' hS.nbands_le) fun _ w'' hflushed => ?_
        obtain ⟨hw'', htold', s, halike⟩ := hflushed
        have hdone : WriterState.endImageBand band w''.state = .ok () w''.state := by
          have himage : w''.state.image.any (·.started.contains band) = false := by
            rw [halike.image, WriterState.resetPage]
            cases s.image <;> simp
          simp only [WriterState.endImageBand, get_bind_run, himage]
          rfl
        have hrun' := attempt_of_ok hdone w.state.config.retryBudget
        have hagain := (htold'.attempt hI hw'' hop w.state.config.retryBudget).ok hrun'
        exact .of_ok hrun' (hagain.after (Adds.after _ hmore))
      dsimp only
      rw [if_pos he]
      exact hagain

/-- The image ends in its bands one after another. -/
theorem Writer.Told.forM_endImageBand {S : Session} {im : OpenImage} {ended : Nat → Prop}
    {bands : List Nat} {w : Writer μ (Watched μ ν)} {drawn : Nat → List TargetCall}
    (h : w.Told (S.endedIn ended) S.config drawn) (hS : S.Sound) (hw : w.state.Shown S im)
    (hlack : MemoryPolicy.RefusesForLack μ ν) (hbands : ∀ band ∈ bands, band < S.config.nbands)
    (hnodup : bands.Nodup) (hopen : ∀ band ∈ bands, ¬ ended band) :
    Meets (bands.forM fun band => Writer.withRecovery (WriterState.endImageBand band)) w
      (fun _ w' => ∃ ended', Writer.ToldMore (S.endedIn ended') S.config (WriterState.Shown S im)
        (fun more => ∀ band, (more band = [] ∨ more band = [.endImage]) ∧
          (band ∉ bands → more band = [])) drawn w')
      fun _ w' => w'.disabled = true := by
  induction bands generalizing ended w drawn with
  | nil =>
    exact Meets.pure ⟨ended, Makes.toldMore_nil h hw fun band => ⟨.inl rfl, fun _ => rfl⟩⟩
  | cons band bands ih =>
    obtain ⟨hnew, hnodup⟩ := List.nodup_cons.mp hnodup
    show Meets (Writer.withRecovery (WriterState.endImageBand band) >>= fun _ =>
      bands.forM fun band => Writer.withRecovery (WriterState.endImageBand band)) w _ _
    refine (h.endImageBand hS hw hlack (hbands band List.mem_cons_self)
      (hopen band List.mem_cons_self)).bind fun _ w' h' => ?_
    obtain ⟨hw', first, ⟨hfirst, hother⟩, htold⟩ := h'
    have hopen' : ∀ b ∈ bands, ¬ (b = band ∨ ended b) := by
      rintro b hb (rfl | hended)
      · exact hnew hb
      · exact hopen b (List.mem_cons_of_mem _ hb) hended
    refine (ih htold hw' (fun b hb => hbands b (List.mem_cons_of_mem _ hb)) hnodup hopen').mono
      (fun _ w'' h'' => ?_) fun _ _ h'' => h''
    obtain ⟨ended', h''⟩ := h''
    refine ⟨ended', h''.after fun {rest} hrest b => ?_⟩
    obtain ⟨hrest, hout⟩ := hrest b
    by_cases heq : b = band
    · subst heq
      simp only [hout hnew, List.append_nil]
      exact ⟨hfirst, fun hb => absurd List.mem_cons_self hb⟩
    · simp only [hother b heq, List.nil_append]
      exact ⟨hrest, fun hb => hout fun h => hb (List.mem_cons_of_mem _ h)⟩

/-- An image ends in all bands, or the writer is switched off. -/
theorem Writer.Showing.endImage {S : Session} {im : OpenImage} {w : Writer μ (Watched μ ν)}
    {drawn : Nat → List TargetCall} (h : w.Showing S im drawn) (hS : S.Sound)
    (hended : ∀ band, ¬ S.terms.ended band) (hlack : MemoryPolicy.RefusesForLack μ ν) :
    Meets Writer.endImage w
      (fun _ w' => w'.state.image = none ∧ ∃ more : Nat → List TargetCall,
        (∀ band, (more band = [] ∨ more band = [.endImage]) ∧
          (band ∉ im.bandList → more band = [])) ∧
        w'.InSession S none fun band => drawn band ++ drawing (more band))
      fun _ w' => w'.disabled = true := by
  obtain ⟨started, him⟩ := h.shown.image
  have hshows := h.shown.ready.image _ (Option.mem_def.mpr him)
  have hbands : ∀ band ∈ im.bandList, band < S.config.nbands := by
    intro band hband
    cases hbands : im.bands with
    | none =>
      rw [OpenImage.bandList, hbands] at hband
      exact absurd hband List.not_mem_nil
    | some bands =>
      rw [OpenImage.bandList, hbands] at hband
      have hin := (BandRange.mem_toList bands band).mp hband
      simp only [BandRange.contains, Bool.and_eq_true, decide_eq_true_eq] at hin
      exact Nat.lt_of_le_of_lt hin.2 (hshows.bands bands hbands)
  have hnodup : im.bandList.Nodup := by
    rw [OpenImage.bandList]
    cases im.bands with
    | none => exact List.nodup_nil
    | some bands => exact bands.nodup_toList
  rw [Meets, Writer.endImage, bind_of_ok (check_eq h.told.enabled), get_bind_run, him]
  have htold : w.Told (S.endedIn S.terms.ended) S.config drawn := h.told
  have hall := htold.forM_endImageBand hS h.shown hlack hbands hnodup fun band _ => hended band
  refine Meets.bind hall fun _ w' h' => ?_
  obtain ⟨ended', hw', more, hmore, htold⟩ := h'
  obtain ⟨state, disabled⟩ := w'
  have henabled : disabled = false := htold.enabled
  subst henabled
  have hready : ({ state with image := none } : WriterState μ (Watched μ ν)).Ready S none :=
    { hw'.ready with
      page := { hw'.ready.page with }
      image := fun im' him' => by cases him' }
  have hclosed : Writer.update (fun s => { s with image := none }) ⟨state, false⟩ =
      .ok () (⟨{ state with image := none }, false⟩ : Writer μ (Watched μ ν)) := rfl
  refine Meets.of_ok hclosed ⟨rfl, more, hmore, ?_, hready⟩
  refine htold.keep hready.config_eq rfl fun calls hcalls => ?_
  exact hcalls.adapt rfl rfl rfl { hcalls.cache with } fun band _ r hm ht =>
    ⟨{ hm with within := { hm.within with }, image := fun im' him' => by cases him' }, { ht with }⟩

/-! ### Serving images -/

namespace Session

variable {S : Session}

omit [MemoryPolicy μ ν] in
theorem serves_beginImage (hS : S.Sound) {ps : ImagerState} {header : ImageHeader}
    {space : ColorSpace} {color : DrawingColor} {clip : Option ClipPath}
    (hadmits : S.AdmitsImage ps header space color clip) :
    S.Serves (Writer.beginImage ps header space color clip : WriterM μ (Watched μ ν) Unit)
      fun _ calls => calls = [] := by
  intro current w drawn hw
  refine (hw.beginImage hS hadmits).mono (fun _ w' h => ?_) fun _ w' h => .inr fun _ => ?_
  · exact ⟨none, fun _ => [], fun _ => rfl, by simpa [drawing] using h.inSession⟩
  · obtain ⟨current', h⟩ := h
    exact ⟨current', drawn, h⟩

theorem serves_imageData (hS : S.Sound) (hended : ∀ band, ¬ S.terms.ended band)
    (hroom : S.config.payloadRoom < 4294967296) (planes : List Bitmap) {height : Nat}
    (hheight : height < 4294967296) :
    S.Serves (Writer.imageData planes height : WriterM μ (Watched μ ν) Unit) fun _ _ => True := by
  intro current w drawn hw
  cases him : w.state.image with
  | none =>
    rw [Answers, Meets, Writer.imageData, bind_of_ok (Writer.check_eq hw.told.enabled),
      get_bind_run, him]
    exact .inr fun _ => ⟨current, drawn, hw⟩
  | some im =>
    have hdata := (Writer.Showing.of_inSession hw him).imageData hS hended hroom planes hheight
    refine hdata.mono (fun _ w' h => ?_) fun _ w' h => h.imp_right fun h _ => ?_
    · obtain ⟨more, -, -, hw'⟩ := h
      exact ⟨none, more, fun _ => trivial, hw'.inSession⟩
    · obtain ⟨im', drawn', hw'⟩ := h
      exact ⟨none, drawn', hw'.inSession⟩

theorem serves_endImage (hS : S.Sound) (hended : ∀ band, ¬ S.terms.ended band)
    (hlack : MemoryPolicy.RefusesForLack μ ν) :
    S.Serves (Writer.endImage : WriterM μ (Watched μ ν) Unit)
      fun _ calls => calls = [] ∨ calls = [.endImage] := by
  intro current w drawn hw
  cases him : w.state.image with
  | none =>
    rw [Answers, Meets, Writer.endImage, bind_of_ok (Writer.check_eq hw.told.enabled),
      get_bind_run, him]
    exact .inr fun _ => ⟨current, drawn, hw⟩
  | some im =>
    refine ((Writer.Showing.of_inSession hw him).endImage hS hended hlack).mono
      (fun _ w' h => ?_) fun _ w' h => .inl h
    obtain ⟨-, more, hmore, hw'⟩ := h
    exact ⟨none, more, fun band => (hmore band).1, hw'⟩

end Session

end BandedPage
