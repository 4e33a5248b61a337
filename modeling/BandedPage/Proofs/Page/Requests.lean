import Mathlib
import BandedPage.Proofs.Page.Bitmaps
import BandedPage.Proofs.Page.Paths
import BandedPage.Proofs.Page.Settings
import BandedPage.Proofs.Page.Draws
import BandedPage.Proofs.Store.Content
import BandedPage.Proofs.Writer.Intent
import BandedPage.Writer.Rationed

/-!
# Whole sessions

Requests are served one after another, and replay of each band draws what they draw in turn, whatever
is done to get memory for them.
-/

namespace BandedPage

namespace Session

/-- A request that is carried to the bands as it is. -/
def Admits (S : Session) : Intent → Prop
  | .fillRectangle rect color => S.Reaches rect ∧ (S.terms.exactColors → color.IsOf S.config.depth)
  | .tileRectangle tile rect colors phase => S.AdmitsTiles tile rect colors phase
  | .copyMono bitmap name rect colors => S.AdmitsCopy { bitmap, rect, paint := .mono colors, name }
  | .copyColor bitmap name rect => S.AdmitsCopy { bitmap, rect, paint := .deep, name }
  | .copyAlpha bitmap name rect color depth =>
    depth ∈ [1, 2, 4, 8] → S.AdmitsCopy { bitmap, rect, paint := .coverage color depth, name }
  | .fillMask bitmap name rect color depth clip =>
    depth = 1 → (∀ bases levels, color ≠ .colored bases levels) →
      S.AdmitsCopy (maskOf bitmap name rect clip color)
  | .fillPath ps path rule color clip => S.AdmitsPath ps (.ofFill path rule color clip)
  | .strokePath ps path color clip => S.AdmitsPath ps (.ofStroke path color clip)
  | .setLogicalOp op => S.terms.exactImager → S.lops op
  | .setColorSpace space => space.Sendable
  | .putParams params => params.length < 4294967296
  | .setHalftone halftone => halftone.Sendable
  | .setTransferMap _ map => ∀ entries ∈ map, ∀ entry ∈ entries, entry < 65536
  | .beginImage .. | .imageData .. | .endImage | .endPage => False

/-- What replay of a band calls for a request. -/
def Draws (S : Session) : Intent → Nat → List TargetCall → Prop
  | .fillRectangle rect color => fun band =>
    InTurn (fun p => InBand p.1 (S.Fills p.1 p.2 color) band) (S.partsOf rect)
  | .tileRectangle tile rect colors phase => fun band =>
    InTurn (fun p => S.Tiles tile colors phase p band) (S.partsOf rect)
  | .copyMono bitmap name rect colors => S.Copies { bitmap, rect, paint := .mono colors, name }
  | .copyColor bitmap name rect => S.Copies { bitmap, rect, paint := .deep, name }
  | .copyAlpha bitmap name rect color depth =>
    S.Copies { bitmap, rect, paint := .coverage color depth, name }
  | .fillMask bitmap name rect color _ clip => S.Copies (maskOf bitmap name rect clip color)
  | .fillPath ps path rule color clip => fun band =>
    InTurn (fun b => InBand b (S.Paths ps (.ofFill path rule color clip) b
      (S.config.fillRows path b)) band) (S.config.fillBands path)
  | .strokePath ps path color clip => fun band =>
    InTurn (fun b => InBand b (S.Paths ps (.ofStroke path color clip) b
      (S.config.strokeRows ps b)) band) (S.config.strokeBands ps path)
  | .setLogicalOp _ | .setColorSpace _ | .putParams _ | .setHalftone _ | .setTransferMap _ _
  | .beginImage .. | .imageData .. | .endImage | .endPage => fun _ => Undrawn

variable {μ ν : Type} [Medium μ] [LawfulMedium μ] [MemoryPolicy μ ν]
variable {S : Session} {clip : Option ClipPath} {w w' : Writer μ (Watched μ ν)}
variable {drawn : Nat → List TargetCall}

/-- A request is served as it is admitted. -/
theorem serves_perform (hS : S.Sound) {intent : Intent} (h : S.Admits intent) :
    S.Serves (intent.perform : WriterM μ (Watched μ ν) Unit) (S.Draws intent) := by
  cases intent with
  | fillRectangle rect color => exact serves_fillRectangle hS h.1 h.2
  | tileRectangle tile rect colors phase => exact serves_tileRectangle hS h
  | copyMono bitmap name rect colors => exact serves_copyBitmap hS h rfl
  | copyColor bitmap name rect => exact serves_copyBitmap hS h rfl
  | copyAlpha bitmap name rect color depth => exact serves_copyAlpha hS h
  | fillMask bitmap name rect color depth clip => exact serves_fillMask hS h
  | fillPath ps path rule color clip => exact serves_fillPath hS h
  | strokePath ps path color clip => exact serves_strokePath hS h
  | setLogicalOp op => exact serves_setLogicalOp h
  | setColorSpace space => exact serves_setColorSpace h
  | putParams params => exact serves_putParams hS h
  | setHalftone halftone => exact serves_setHalftone hS h
  | setTransferMap index map => exact serves_setTransferMap hS h
  | beginImage | imageData | endImage | endPage => exact h.elim

/-- The requests that succeed draw one after another. -/
theorem serveAll (hS : S.Sound) {intents : List Intent} (hadmits : ∀ i ∈ intents, S.Admits i)
    (hw : w.InSession S clip drawn)
    (hok : ∀ answer ∈ (Intent.serveAll intents w).1, answer = .ok ()) :
    ∃ (clip' : Option ClipPath) (more : Nat → List TargetCall),
      (∀ band, InTurn (fun i => S.Draws i band) intents (more band)) ∧
        (Intent.serveAll intents w).2.InSession S clip' fun band =>
          drawn band ++ drawing (more band) := by
  induction intents generalizing w clip drawn with
  | nil =>
    refine ⟨clip, fun _ => [], fun _ => .nil, ?_⟩
    simpa [Intent.serveAll, drawing] using hw
  | cons intent intents ih =>
    have hserves := serves_perform (μ := μ) (ν := ν) hS (hadmits intent List.mem_cons_self) clip w drawn hw
    cases hrun : intent.perform w with
    | error e w' =>
      have hanswer : (.error e : Except Error Unit) ∈ (Intent.serveAll (intent :: intents) w).1 := by
        simp [Intent.serveAll, Intent.serve, hrun]
      cases hok _ hanswer
    | ok u w' =>
      obtain ⟨clip₁, more₁, hmore₁, hw₁⟩ := hserves.ok hrun
      have hserve : intent.serve w = (.ok (), w') := by simp [Intent.serve, hrun]
      have hrest : ∀ answer ∈ (Intent.serveAll intents w').1, answer = .ok () := by
        intro answer hanswer
        refine hok answer ?_
        simp only [Intent.serveAll, hserve]
        exact List.mem_cons_of_mem _ hanswer
      obtain ⟨clip₂, more₂, hmore₂, hw₂⟩ :=
        ih (fun i hi => hadmits i (List.mem_cons_of_mem _ hi)) hw₁ hrest
      refine ⟨clip₂, fun band => more₁ band ++ more₂ band,
        fun band => .cons (hmore₁ band) (hmore₂ band), ?_⟩
      simp only [Intent.serveAll, hserve]
      simpa only [drawing_append, List.append_assoc] using hw₂

end Session

/-! ### Whole pages -/

/-- Pixels around the origin. No fixed-point coordinate of them overflows, no offset between two of
them does, and the rows that come right after them can be told too. -/
structure PixelRange where
  least : Int
  greatest : Int
  least_le : least ≤ 0
  le_greatest : 0 ≤ greatest
  span : (greatest - least + 1) * 256 ≤ 2147483648
  room : (greatest + 2) * 256 < 2147483648

namespace PixelRange

/-- Replay is to agree on imager states, and on what else is asked for. -/
def terms (z : PixelRange) (exactColors : Prop := False) (exactTiles : Prop := False)
    (named : BitmapId → TileSize → Bytes → Prop := fun _ _ _ => True) : Terms where
  exactColors := exactColors
  exactImager := True
  exactTiles := exactTiles
  named := named
  least := z.least
  greatest := z.greatest
  least_le := z.least_le
  le_greatest := z.le_greatest
  span := by
    have := z.span
    omega

variable {z : PixelRange} {exactColors exactTiles : Prop} {named : BitmapId → TileSize → Bytes → Prop}

theorem terms_fine : (z.terms exactColors exactTiles named).Fine := z.span

end PixelRange

def Intent.clip? : Intent → Option ClipPath
  | .fillMask _ _ _ _ _ clip | .fillPath _ _ _ _ clip | .strokePath _ _ _ clip => clip
  | _ => none

/-- The session of a page of requests. A clip goes by the name that it is first used with. -/
def Session.ofPage (config : Config) (terms : Terms) (intents : List Intent) : Session where
  config := config
  terms := terms
  clips id := (intents.filterMap Intent.clip?).find? (·.id == id)

/-- The clip of a request on a page goes by its name. -/
theorem Session.clips_ofPage {config : Config} {q : Terms} {intents : List Intent} {intent : Intent}
    {clip : ClipPath} (hintent : intent ∈ intents)
    (hclip : intent.clip? = some clip)
    (hsame : ∀ c' ∈ (Session.ofPage config q intents).clips clip.id, c' = clip) :
    (Session.ofPage config q intents).clips clip.id = some clip := by
  have hmem : clip ∈ intents.filterMap Intent.clip? :=
    List.mem_filterMap.mpr ⟨intent, hintent, hclip⟩
  cases hfind : (Session.ofPage config q intents).clips clip.id with
  | none =>
    have hnone := List.find?_eq_none.mp hfind clip hmem
    exact absurd (beq_self_eq_true clip.id) hnone
  | some c' => rw [hsame c' hfind]

variable {μ ν : Type}

namespace Writer

def onEmptyPage (config : Config) (store : BandStore μ) (memory : ν) : Writer μ (Watched μ ν) where
  state := .fresh config store { memory }

/-- The stores of the partial pages, and that of the last one. -/
def stores (w : Writer μ (Watched μ ν)) : List (BandStore μ) := 
  w.state.memory.rendered ++ [w.state.buffer.store]

end Writer

variable [Medium μ] [LawfulMedium μ] {S : Session}

/-- On an empty page nothing was told. -/
theorem Writer.inSession_onEmptyPage (hS : S.Sound) {store : BandStore μ}
    (hstore : store.Contains []) (memory : ν) (hlop : S.lops .default) :
    (Writer.onEmptyPage S.config store memory).InSession S none fun _ => [] := by
  have hvalid := hS.valid
  refine ⟨⟨rfl, rfl, [], fun _ => [], ?_, .nil, fun _ _ => rfl⟩, ?_⟩
  · refine synced_fresh hvalid rfl Array.size_replicate (fun band => ?_)
      (CommandBuffer.keeps_empty hstore S.config.bufferSize hvalid.nbands_pos)
      Array.size_replicate Array.size_replicate rfl (TileCache.entryAt_empty _ _ _) rfl
      fun im him => by cases him
    by_cases hband : band < S.config.nbands
    · simp [onEmptyPage, WriterState.band, WriterState.fresh, hband]
    · simp [onEmptyPage, WriterState.band, WriterState.fresh, hband]
  · exact {
      config_eq := rfl
      imager := ⟨⟨rfl, rfl⟩, Nat.zero_le _⟩
      space := fun _ h => by cases h
      lop := fun _ => hlop
      clip_eq := fun _ h => by cases h
      page := {
        params := fun _ h => by cases h
        halftone := fun _ h => by cases h
        count := Array.size_replicate.le
        transfers := fun map hmap => by cases Array.eq_of_mem_replicate hmap }
      image := fun _ h => by cases h }

/-- No image is open where imager states are followed. -/
theorem Writer.InSession.image_eq_none {clip : Option ClipPath} {w : Writer μ (Watched μ ν)}
    {drawn : Nat → List TargetCall} (h : w.InSession S clip drawn) (hexact : S.terms.exactImager) :
    w.state.image = none := by
  cases him : w.state.image with
  | none => rfl
  | some im => exact absurd hexact (h.ready.image im him).imprecise

variable [MemoryPolicy μ ν]

/-- A page without images can be closed. -/
theorem Writer.InSession.endPage_ok {clip : Option ClipPath} {w : Writer μ (Watched μ ν)}
    {drawn : Nat → List TargetCall} (h : w.InSession S clip drawn) (hS : S.Sound)
    (himage : w.state.image = none) : ∃ w', Writer.endPage w = .ok () w' := by
  obtain ⟨pages, calls, hcalls, -, -⟩ := h.told.history
  obtain ⟨store, hclose, -, -⟩ :=
    hcalls.closePage (by rw [h.ready.config_eq]; exact hS.nbands_le)
  exact ⟨_, endPage_of_closePage h.told.enabled himage hclose⟩

omit [LawfulMedium μ] [MemoryPolicy μ ν] in
/-- Stores that are not too long draw what was drawn of them. -/
theorem BandStore.draws_of_short {config : Config} {stores : List (BandStore μ)}
    {pages : List (Nat → List TargetCall)}
    (h : List.Forall₂ (fun store page =>
      store.commandLength < 9223372036854775808 → BandStore.Draws store config page) stores pages)
    (hlen : ∀ store ∈ stores, store.commandLength < 9223372036854775808) :
    List.Forall₂ (fun store page => BandStore.Draws store config page) stores pages := by
  induction h with
  | nil => exact .nil
  | cons hpage _ ih =>
    exact .cons (hpage (hlen _ List.mem_cons_self))
      (ih fun store hstore => hlen store (List.mem_cons_of_mem _ hstore))

/-- A page without images is closed as what was drawn. -/
theorem Writer.InSession.endPage {clip : Option ClipPath} {w w' : Writer μ (Watched μ ν)}
    {drawn : Nat → List TargetCall} (h : w.InSession S clip drawn) (hS : S.Sound)
    (himage : w.state.image = none) (hend : Writer.endPage w = .ok () w')
    (hlen : ∀ store ∈ w'.stores, store.commandLength < 9223372036854775808) {band : Nat}
    (hband : band < S.config.nbands) :
    ∃ calls, BandStore.transcripts w'.stores S.config band = .ok calls ∧
      drawing calls = drawn band := by
  obtain ⟨pages, calls, hcalls, hpages, hdrawn⟩ := h.told.history
  have hconfig := h.ready.config_eq
  obtain ⟨store, hclose, -, hdraws⟩ := hcalls.closePage (by rw [hconfig]; exact hS.nbands_le)
  rw [endPage_of_closePage h.told.enabled himage hclose] at hend
  cases hend
  have hshown := BandStore.draws_of_short hpages fun store hstore =>
    hlen store (List.mem_append_left _ hstore)
  refine ⟨(pages ++ [calls]).flatMap (· band), BandStore.transcripts_eq ?_ hband,
    (hdrawn band hband).symm⟩
  exact List.rel_append hshown
    (.cons (hconfig ▸ hdraws (hlen store (List.mem_append_right _ List.mem_cons_self))) .nil)

omit [LawfulMedium μ] in
theorem Intent.serveAll_append (intents more : List Intent) (w : Writer μ (Watched μ ν)) :
    serveAll (intents ++ more) w =
      ((serveAll intents w).1 ++ (serveAll more (serveAll intents w).2).1,
        (serveAll more (serveAll intents w).2).2) := by
  induction intents generalizing w with
  | nil => rfl
  | cons intent intents ih => simp only [List.cons_append, serveAll, ih]

/-- A page of these requests was begun on an empty store and ended, and all of it was granted. What
is stored is not longer than positions tell. -/
structure Writer.HasWritten (w : Writer μ (Watched μ ν)) (config : Config) (store : BandStore μ)
    (memory : ν) (intents : List Intent) : Prop where
  empty : store.Contains []
  reached : w = (Intent.serveAll (intents ++ [.endPage]) (.onEmptyPage config store memory)).2
  granted : ∀ answer ∈
    (Intent.serveAll (intents ++ [.endPage]) (Writer.onEmptyPage config store memory)).1,
    answer = .ok ()
  length : ∀ store ∈ w.stores, store.commandLength < 9223372036854775808

/-- A page whose requests were granted is written once it is ended. -/
theorem Session.hasWritten (hS : S.Sound) (hexact : S.terms.exactImager) (hlop : S.lops .default)
    {store : BandStore μ} (hstore : store.Contains []) {memory : ν} {intents : List Intent}
    (hadmits : ∀ i ∈ intents, S.Admits i)
    (hok : ∀ answer ∈
      (Intent.serveAll intents (Writer.onEmptyPage S.config store memory)).1, answer = .ok ())
    {w : Writer μ (Watched μ ν)}
    (hw : w = (Intent.serveAll (intents ++ [.endPage]) (.onEmptyPage S.config store memory)).2)
    (hlen : ∀ store ∈ w.stores, store.commandLength < 9223372036854775808) :
    w.HasWritten S.config store memory intents := by
  refine ⟨hstore, hw, ?_, hlen⟩
  obtain ⟨clip, more, -, hsession⟩ := serveAll hS hadmits
    (Writer.inSession_onEmptyPage hS hstore memory hlop) hok
  obtain ⟨w', hend⟩ := hsession.endPage_ok hS (hsession.image_eq_none hexact)
  rw [Intent.serveAll_append]
  intro answer hanswer
  rcases List.mem_append.mp hanswer with hanswer | hanswer
  · exact hok answer hanswer
  · simp only [Intent.serveAll, Intent.serve, Intent.perform, hend, List.mem_singleton] at hanswer
    exact hanswer

/-- A page that was written is stored as what the requests draw, over the partial pages and the last
one. -/
theorem Session.page_drawn (hS : S.Sound) (hexact : S.terms.exactImager) (hlop : S.lops .default)
    {store : BandStore μ} {memory : ν} {intents : List Intent}
    (hadmits : ∀ i ∈ intents, S.Admits i) {w : Writer μ (Watched μ ν)}
    (hw : w.HasWritten S.config store memory intents) {band : Nat} (hband : band < S.config.nbands) :
    ∃ calls drawn, BandStore.transcripts w.stores S.config band = .ok calls ∧
      drawing calls = drawing drawn ∧ InTurn (fun i => S.Draws i band) intents drawn := by
  obtain ⟨hstore, hw, hok, hlen⟩ := hw
  rw [Intent.serveAll_append] at hw hok
  obtain ⟨clip, more, hmore, hsession⟩ := serveAll hS hadmits
    (Writer.inSession_onEmptyPage hS hstore memory hlop) fun answer h =>
      hok answer (List.mem_append_left _ h)
  generalize (Intent.serveAll intents (Writer.onEmptyPage S.config store memory)).2 = w₁ at *
  have himage := hsession.image_eq_none hexact
  simp only [Intent.serveAll, Intent.serve, Intent.perform] at hw hok
  cases hend : (Writer.endPage : WriterM μ (Watched μ ν) Unit) w₁ with
  | error e w' =>
    rw [hend] at hok
    have := hok (.error e) (List.mem_append_right _ List.mem_cons_self)
    cases this
  | ok u w' =>
    rw [hend] at hw
    subst hw
    obtain ⟨calls, hcalls, hdrawn⟩ := hsession.endPage hS himage hend hlen hband
    exact ⟨calls, more band, hcalls, hdrawn, hmore band⟩

/-! ### Pages in memory -/

/-- A page of requests that is written to memory, with memory for it by a schedule. -/
def Writer.ofPage (config : Config) (memory : RationedMemory) (intents : List Intent) :
    Writer MemoryMedium (Watched MemoryMedium RationedMemory) :=
  (Intent.serveAll (intents ++ [.endPage])
    (onEmptyPage config { commands := {}, index := {} } memory)).2

theorem Writer.hasWritten_ofPage {config : Config} {memory : RationedMemory} {intents : List Intent}
    (hgranted : ∀ answer ∈ (Intent.serveAll (intents ++ [.endPage]) (onEmptyPage config
      ({ commands := {}, index := {} } : BandStore MemoryMedium) memory)).1, answer = .ok ())
    (hlength : ∀ store ∈ (ofPage config memory intents).stores,
      store.commandLength < 9223372036854775808) :
    (ofPage config memory intents).HasWritten config { commands := {}, index := {} } memory
      intents :=
  ⟨⟨MemoryMedium.sound_empty, MemoryMedium.sound_empty, rfl, rfl⟩, rfl, hgranted, hlength⟩

def smallPage : Config := { width := 64, height := 32, bandHeight := 16 }

def smallPixels : PixelRange where
  least := 0
  greatest := 64
  least_le := by decide
  le_greatest := by decide
  span := by decide
  room := by decide

/-- A small page whose second chunk of memory is refused, so that it is flushed. -/
def flushedOnce : RationedMemory := { config := smallPage, refused := [(2, 2)] }

def leftHalf : ClipPath := { id := 1, rects := [⟨0, 0, 32, 32⟩] }

section

variable {exactColors exactTiles : Prop} {named : BitmapId → TileSize → Bytes → Prop}

/-- A path whose points are on a small page can be told. -/
theorem Path.within_smallPixels {path : Path}
    (h : ∀ segment ∈ path.segments.toList, ∀ p ∈ segment.points,
      (0 ≤ p.x ∧ p.x < 16640) ∧ 0 ≤ p.y ∧ p.y < 16640) :
    path.Within ((smallPixels.terms exactColors exactTiles named).fixedRange
      PixelRange.terms_fine) := by
  intro segment hsegment p hp
  obtain ⟨hx, hy⟩ := h segment (Array.mem_toList_iff.mpr hsegment) p hp
  exact ⟨⟨hx.1, hx.2⟩, ⟨hy.1, hy.2⟩⟩

theorem leftHalf_within : leftHalf.Within (smallPixels.terms exactColors exactTiles named) := by
  intro rect hrect
  rw [List.mem_singleton.mp hrect]
  constructor <;> exact ⟨show (0 : Int) ≤ _ by decide, show _ ≤ (64 : Int) by decide⟩

end

end BandedPage
