import Mathlib
import BandedPage.Proofs.Page.Following

/-!
# Tiles that writer and reader share

The writer notes which bands have been sent a bitmap and then only tells them its index. Whatever
the cache evicts and wherever it moves what is left, a reader has each of these bitmaps at the place
that the cache says, with its bits; so it draws with the bits that were given under the name. That
takes names that name. A bitmap that is copied under the name of another one of its size is sent
with its own bits, which are not those of the cache.
-/

namespace BandedPage

/-- The arena has all bitmaps that the cache takes the band to have: each at its place, and the bits
there are those in the cache. -/
def TileCache.SharedWith (c : TileCache) (band : Nat) (a : TileArena) : Prop :=
  ∀ index entry, c.entryAt index = some entry → c.bandHas index band = true →
    a.slot? index = some entry.slot ∧
      some (a.heap.extract entry.slot.offset entry.slot.stop) = c.bits? index

/-- In a cache in which all offsets travel, the places are the same. -/
theorem TileCache.Reaches.sharedWith {c : TileCache} {exact : Prop} {band : Nat} {a : TileArena}
    (h : c.Reaches exact band [] a) (hexact : exact) (hlayout : c.Layout)
    (hsmall : c.heap.size < 4294967296) : c.SharedWith band a := by
  intro index entry hentry hband
  have hhas : entry.bands.contains band = true := by
    rwa [TileCache.bandHas, hentry] at hband
  have hsent : entry.slot.sent = entry.slot := by
    have hstop := hlayout.stop_le hentry
    rw [TileSlot.stop] at hstop
    rw [TileSlot.sent, Nat.mod_eq_of_lt (by omega)]
  refine ⟨hsent ▸ h.slots index entry hentry (.inl hhas), ?_⟩
  rw [h.bits hexact hsmall index entry hentry (.inl hhas), TileCache.bits?, hentry]
  rfl

variable {μ ν : Type} [Medium μ] [LawfulMedium μ] [MemoryPolicy μ ν]

/-- After any requests on a page, a reader that has followed a band has the bitmaps that the writer
takes the band to have. If all requests were granted, all that is drawn there, on the partial pages
and since, is drawn with bits that were given under the name. -/
theorem tiles_are_shared {config : Config} (hconfig : config.validate = .ok ())
    (hheight : config.height < 2147483648) (hcache : config.tileBytes < 4294967296)
    (z : PixelRange) (named : BitmapId → TileSize → Bytes → Prop) {intents : List Intent}
    (hadmits : ∀ i ∈ intents, (Session.forgiving config (z.terms False True named)).Admits i)
    {store : BandStore μ} (hstore : store.Contains []) {memory : ν} {w : Writer μ (Watched μ ν)}
    (hw : w = (Intent.serveAll intents (.onEmptyPage config store memory)).2)
    (henabled : w.disabled = false)
    (hlength : ∀ store ∈ w.stores, store.commandLength < 9223372036854775808) {band : Nat}
    (hband : band < config.nbands) :
    ∃ before p, BandStore.transcripts w.state.memory.rendered config band = .ok before ∧
      w.state.follow band = .ok p ∧ w.state.tiles.SharedWith band p.state.tiles ∧
      ((∀ answer ∈ (Intent.serveAll intents (Writer.onEmptyPage config store memory)).1,
          answer = .ok ()) →
        ∃ calls, drawing (before ++ p.target.calls) = drawing calls ∧
          InTurn (fun i => (Session.forgiving config (z.terms False True named)).Draws i band)
            intents calls) := by
  obtain ⟨S, hsession⟩ : ∃ S, S = Session.forgiving config (z.terms False True named) := ⟨_, rfl⟩
  have hS : S.Sound := by
    rw [hsession]
    exact ⟨Config.valid_of_validate hconfig, hheight⟩
  have hempty : (Writer.onEmptyPage config store memory).InSession S none fun _ => [] := by
    subst hsession
    exact Writer.inSession_onEmptyPage hS hstore memory trivial
  rw [← hsession] at hadmits ⊢
  have hmade : ∃ clip drawn, w.InSession S clip drawn ∧
      ((∀ answer ∈ (Intent.serveAll intents (Writer.onEmptyPage config store memory)).1,
          answer = .ok ()) →
        ∃ calls, drawn band = drawing calls ∧ InTurn (fun i => S.Draws i band) intents calls) := by
    by_cases hgranted : ∀ answer ∈
        (Intent.serveAll intents (Writer.onEmptyPage config store memory)).1, answer = .ok ()
    · obtain ⟨clip, more, hmore, hreached⟩ := Session.serveAll hS hadmits hempty hgranted
      exact ⟨clip, _, hw ▸ hreached, fun _ => ⟨more band, rfl, hmore band⟩⟩
    · obtain ⟨clip, drawn, hreached⟩ := Session.serveEach (hsession ▸ id)
        (fun i hi => ⟨_, Session.serves_perform hS (hadmits i hi)⟩) hempty (hw ▸ henabled)
      exact ⟨clip, drawn, hw ▸ hreached, fun hall => absurd hall hgranted⟩
  obtain ⟨clip, drawn, hreached, hdrawn⟩ := hmade
  have hsame : S.config = config := by rw [hsession, Session.forgiving]
  obtain ⟨before, p, hbefore, hfollow, hcalls, -, ht⟩ :=
    hreached.follow hS hlength (hsame.symm ▸ hband)
  obtain ⟨pages, calls, hsynced, -, -⟩ := hreached.told.history
  refine ⟨before, p, hsame ▸ hbefore, hfollow, ?_, fun hgranted => ?_⟩
  · refine ht.tiles.sharedWith (hsession ▸ trivial) hsynced.cache.layout ?_
    rw [hsynced.cache.heapSize, hreached.ready.config_eq, hsame]
    exact hcache
  · rw [hcalls]
    exact hdrawn hgranted

/-! ### Names in a small cache -/

/-- A small page with room for few bitmaps. -/
def smallCache : Config := { smallPage with tileBytes := 64, tileSlots := 4 }

def Writer.onSmallPage (intents : List Intent) :
    Writer MemoryMedium (Watched MemoryMedium RationedMemory) :=
  (Intent.serveAll intents (onEmptyPage smallCache { commands := {}, index := {} }
    { config := smallCache })).2

/-- Two rows of eight pixels, the first one dark. -/
def firstRow : Bitmap := { data := #[0xff, 0x00], raster := 1 }

/-- Two rows of eight pixels, the second one dark. -/
def secondRow : Bitmap := { data := #[0x00, 0xff], raster := 1 }

/-- A tile is drawn in both bands, and then a bitmap in each of them. -/
def sharedBitmaps : List Intent :=
  [.tileRectangle { id := 6, size := .single 8 2 1, data := secondRow.data } ⟨0, 8, 32, 24⟩ ⟨0, 1⟩
      ⟨0, 0⟩,
    .copyMono firstRow (some 7) ⟨0, 0, 8, 2⟩ ⟨0, 1⟩,
    .copyMono firstRow (some 7) ⟨0, 16, 8, 18⟩ ⟨0, 1⟩]

def sharedNames (id : BitmapId) (_ : TileSize) (bits : Bytes) : Prop :=
  id = 6 ∨ id = 7 ∧ bits = firstRow.data

theorem shared_bitmaps_are_shared :
    (Writer.onSmallPage sharedBitmaps).state.tiles.bandHas 3 1 = true ∧
    ∃ before p, BandStore.transcripts (Writer.onSmallPage sharedBitmaps).state.memory.rendered
        smallCache 1 = .ok before ∧
      (Writer.onSmallPage sharedBitmaps).state.follow 1 = .ok p ∧
      (Writer.onSmallPage sharedBitmaps).state.tiles.SharedWith 1 p.state.tiles ∧
      ((∀ answer ∈ (Intent.serveAll sharedBitmaps (Writer.onEmptyPage smallCache
          ({ commands := {}, index := {} } : BandStore MemoryMedium)
          ({ config := smallCache } : RationedMemory))).1, answer = .ok ()) →
        ∃ calls, drawing (before ++ p.target.calls) = drawing calls ∧
          InTurn (fun i => (Session.forgiving smallCache
            (smallPixels.terms False True sharedNames)).Draws i 1) sharedBitmaps calls) := by
  have hvalid : smallCache.validate = .ok () := rfl
  have hcopy : ∀ band rect, (Session.forgiving smallCache
        (smallPixels.terms False True sharedNames)).partsOf rect = [(band, rect)] →
      rect.intersect smallCache.pageRect = some rect → rect.OnPage smallPixels.terms →
      ({ bitmap := firstRow, rect, paint := .mono ⟨0, 1⟩ : BitmapCopy }).cachedRows smallCache =
        .ok firstRow.data →
      (Session.forgiving smallCache (smallPixels.terms False True sharedNames)).Admits
        (.copyMono firstRow (some 7) rect ⟨0, 1⟩) := by
    intro band rect hparts hvisible hrect hcached
    refine {
      reaches := fun r hr => ?_
      room := by decide
      paint := fun h => h.elim
      plain := fun _ _ _ _ h => by cases h
      named := fun part hpart id hid rows hrows => ?_
      clip := fun _ h => by cases h }
    · cases hvisible.symm.trans hr
      exact ⟨hrect.x, hrect.y⟩
    · rw [hparts, List.mem_singleton] at hpart
      subst hpart
      have hwhole : ({ bitmap := firstRow, rect, paint := .mono ⟨0, 1⟩, name := some 7 } :
          BitmapCopy).restrict rect =
          { bitmap := firstRow, rect, paint := .mono ⟨0, 1⟩, name := some 7 } := by
        simp [BitmapCopy.restrict, Bitmap.drop, firstRow]
      rw [hwhole] at hid hrows
      cases hid
      cases hcached.symm.trans hrows
      exact ⟨.inr ⟨rfl, rfl⟩, fun _ bits hbits => (hbits.resolve_left (by decide)).2⟩
  have htile : (Session.forgiving smallCache (smallPixels.terms False True sharedNames)).Admits
      (.tileRectangle { id := 6, size := .single 8 2 1, data := secondRow.data } ⟨0, 8, 32, 24⟩
        ⟨0, 1⟩ ⟨0, 0⟩) := {
    reaches := fun r hr => by
      cases hr
      constructor <;> exact ⟨by decide, by decide, by decide, by decide⟩
    room := by decide
    sides := by decide
    tile := ⟨by constructor <;> decide, .inl rfl⟩
    colors := fun h => h.elim
    phase := ⟨rfl, rfl⟩ }
  refine ⟨by decide +kernel, tiles_are_shared hvalid (by decide) (by decide) smallPixels sharedNames
    (fun i hi => ?_) ⟨MemoryMedium.sound_empty, MemoryMedium.sound_empty, rfl, rfl⟩ rfl
    (by decide +kernel) (by decide +kernel) (by decide)⟩
  simp only [sharedBitmaps, List.mem_cons, List.not_mem_nil, or_false] at hi
  rcases hi with rfl | rfl | rfl
  · exact htile
  · refine hcopy 0 _ (by decide +kernel) rfl ?_ rfl
    constructor <;> exact ⟨by decide, by decide, by decide, by decide⟩
  · refine hcopy 1 _ (by decide +kernel) rfl ?_ rfl
    constructor <;> exact ⟨by decide, by decide, by decide, by decide⟩

def TargetCall.copiedBits? : TargetCall → Option Bytes
  | copyMono bits _ _ => some bits.data
  | _ => none

/-- A bitmap, then another one of its name and size in the second band, then the first one there. -/
def oneNameForTwo : List Intent :=
  [.copyMono firstRow (some 7) ⟨0, 0, 8, 2⟩ ⟨0, 1⟩,
    .copyMono secondRow (some 7) ⟨0, 16, 8, 18⟩ ⟨0, 1⟩,
    .copyMono firstRow (some 7) ⟨8, 16, 16, 18⟩ ⟨0, 1⟩]

/-- The cache has the first bitmap, and takes the second band to have it. The band was sent the
other one under the index, and so both of its copies are drawn with that. -/
theorem one_name_for_two_is_not_shared :
    (Writer.onSmallPage oneNameForTwo).state.tiles.bandHas 3 1 = true ∧
    (Writer.onSmallPage oneNameForTwo).state.tiles.bits? 3 = some firstRow.data ∧
    ∃ p, (Writer.onSmallPage oneNameForTwo).state.follow 1 = .ok p ∧
      ¬ (Writer.onSmallPage oneNameForTwo).state.tiles.SharedWith 1 p.state.tiles ∧
      p.target.calls.filterMap TargetCall.copiedBits? = [secondRow.data, secondRow.data] := by
  have hbits : (Writer.onSmallPage oneNameForTwo).state.tiles.bits? 3 = some firstRow.data := by
    decide +kernel
  have hhas : (Writer.onSmallPage oneNameForTwo).state.tiles.bandHas 3 1 = true := by
    decide +kernel
  have hentry : ((Writer.onSmallPage oneNameForTwo).state.tiles.entryAt 3).map (·.slot) =
      some ⟨0, .single 8 2 1⟩ := by decide +kernel
  have hfollow : ((Writer.onSmallPage oneNameForTwo).state.follow 1).toOption.map (fun p =>
      (p.state.tiles.heap.extract 0 2, p.target.calls.filterMap TargetCall.copiedBits?)) =
      some (secondRow.data, [secondRow.data, secondRow.data]) := by decide +kernel
  obtain ⟨entry, hentry, hslot⟩ := Option.map_eq_some_iff.mp hentry
  refine ⟨hhas, hbits, ?_⟩
  cases hp : (Writer.onSmallPage oneNameForTwo).state.follow 1 with
  | error e =>
    rw [hp] at hfollow
    cases hfollow
  | ok p =>
    rw [hp] at hfollow
    obtain ⟨hheap, hcalls⟩ := Prod.mk.inj (Option.some.inj hfollow)
    refine ⟨p, rfl, fun hshared => ?_, hcalls⟩
    obtain ⟨-, hsame⟩ := hshared 3 entry hentry hhas
    rw [hbits, hslot] at hsame
    have hother : p.state.tiles.heap.extract 0 2 = firstRow.data := Option.some.inj hsame
    rw [hheap] at hother
    exact absurd hother (by decide)

end BandedPage
