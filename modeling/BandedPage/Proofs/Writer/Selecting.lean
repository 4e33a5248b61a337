import Mathlib
import BandedPage.Proofs.Writer.Drafting
import BandedPage.Proofs.Writer.Sync

/-!
# Tiles in step with replay

A tile is selected by its place in the cache, once the band has its bits. To find that place the
cache may have to make room, and all bands may have to be told a new geometry; neither changes what
the writer takes a band to know.
-/

namespace BandedPage

variable {μ ν : Type}

/-- All that bands know stays, and so does all that is current. -/
structure WriterState.Kept (s s' : WriterState μ ν) : Prop where
  alike : s.Alike s'
  bands : s'.bands = s.bands

namespace WriterState.Kept

variable {s s' s'' : WriterState μ ν}

theorem refl (s : WriterState μ ν) : s.Kept s := ⟨.refl s, rfl⟩

theorem trans (h : s.Kept s') (h' : s'.Kept s'') : s.Kept s'' :=
  ⟨h.alike.trans h'.alike, h'.bands.trans h.bands⟩

theorem band_eq (h : s.Kept s') (band : Nat) : s'.band band = s.band band := by
  rw [WriterState.band, WriterState.band, h.bands]

end WriterState.Kept

/-- The tile has the geometry of the entry, and its bits if it is to be `exact`. Only in a cache
that is not too large for offsets to travel are the bits sure to be the same. -/
structure TileCache.Gives (c : TileCache) (exact : Prop) (entry : TileEntry) (tile : Tile) :
    Prop where
  size : tile.size = entry.slot.size
  data : exact → c.heap.size < 4294967296 → tile.data = c.bytesIn entry.slot

/-- The draft for a band that has the tile at `index`, or is sent its bits. -/
def BandDraft.select (d : BandDraft) (c : TileCache) (index : Nat) (entry : TileEntry)
    (id : BitmapId) : BandDraft :=
  let d := { d with state := { d.state with tileId := some id } }
  if entry.bands.contains d.band then d.useTileIndex index
  else d.sendTile index (Command.tileBits index entry.slot.offset (c.bytesIn entry.slot).toList)

/-- A row has at most 256 copies, and there are at most four rows of them. -/
theorem TileSize.replication_bounds {size : TileSize} {across down : Nat}
    (h : size.replication = some (across, down)) :
    (1 ≤ across ∧ across ≤ 256) ∧ 1 ≤ down ∧ down ≤ 4 := by
  have hfind : ∀ fits : Nat → Bool, 1 ≤ ([4, 3, 2, 1].find? fits).getD 1 ∧
      ([4, 3, 2, 1].find? fits).getD 1 ≤ 4 := by
    intro fits
    cases hfits : [4, 3, 2, 1].find? fits with
    | none => decide
    | some n =>
      have := List.mem_of_find?_eq_some hfits
      simp only [List.mem_cons, List.not_mem_nil, or_false] at this
      rw [Option.getD_some]
      omega
  rw [replication] at h
  split at h
  · cases h
  · have hacross : 1 ≤ max (maxRepRaster * 8 / size.patternBits) 1 ∧
        max (maxRepRaster * 8 / size.patternBits) 1 ≤ 256 := by
      have : maxRepRaster * 8 / size.patternBits ≤ 256 := Nat.div_le_self ..
      omega
    dsimp only at h
    split at h <;> split at h
    · cases h
      exact ⟨hacross, by decide⟩
    · cases h
    · cases h
      exact ⟨hacross, hfind _⟩
    · cases h

/-- Storing more copies of a pattern makes no geometry that commands do not carry. -/
theorem TileSize.Sendable.replicated {tile : Tile} (h : tile.size.Sendable) :
    tile.replicated.size.Sendable ∧ tile.replicated.id = tile.id := by
  rw [Tile.replicated]
  split
  · exact ⟨h, rfl⟩
  · next across down hreplication =>
    obtain ⟨hacross, hdown⟩ := TileSize.replication_bounds hreplication
    refine ⟨{ h with xReps := ⟨hacross.1, ?_⟩, yReps := ⟨hdown.1, ?_⟩ }, rfl⟩
    · exact hacross.2.trans_lt (by decide)
    · exact hdown.2.trans_lt (by decide)

/-- A tile that commands carry, with bits that its name may have. -/
structure Tile.Fits (q : Terms) (tile : Tile) : Prop where
  sendable : tile.size.Sendable
  named : q.named tile.id tile.replicated.size
    (tile.replicated.data.extract 0 tile.replicated.size.dataSize)

/-- A tile lies at `index`, and bands have been told its geometry unless they have its bits. -/
structure WriterState.Holds (s : WriterState μ ν) (tile : Tile) (band index : Nat)
    (entry : TileEntry) : Prop where
  found : s.tiles.find? tile.id = some index
  entryAt : s.tiles.entryAt index = some entry
  announced : entry.bands.contains band = false → s.tileSize = some entry.slot.size

namespace BandDraft

variable {d : BandDraft} {c : TileCache} {index : Nat} {entry : TileEntry} {id : BitmapId}

/-- The draft's band has the tile at `index`, which is selected. -/
structure HasTile (d : BandDraft) (index : Nat) (entry : TileEntry) : Prop where
  selected : d.state.tileIndex = index
  has : entry.bands.contains d.band = true ∨ index ∈ d.sent

@[simp] theorem select_band : (d.select c index entry id).band = d.band := by
  simp only [select]
  split
  · simp
  · rfl

@[simp] theorem select_state : (d.select c index entry id).state =
    { d.state with tileId := some id, tileIndex := index } := by
  simp only [select]
  split
  · simp
  · rfl

theorem select_hasTile : (d.select c index entry id).HasTile index entry := by
  refine ⟨by simp, ?_⟩
  rw [select_band]
  simp only [select]
  split
  · next h => exact .inl h
  · exact .inr List.mem_cons_self

end BandDraft

namespace Drafted

variable {q : Terms} {s : WriterState μ ν} {r₀ r r' : ReplayState} {d : BandDraft}
variable {calls : List TargetCall} {index : Nat} {entry : TileEntry}

/-- A command brings bits for an entry, which is selected then. -/
theorem receive (h : Drafted q s r₀ d calls r) (hlayout : s.tiles.Layout)
    (hentry : s.tiles.entryAt index = some entry) (hindex : index < 4096) {bits : Bytes}
    (hsize : bits.size = entry.slot.size.dataSize)
    (hbits : q.exactTiles → bits = s.tiles.bytesIn entry.slot) {c : Command}
    (hc : Replays (s.config.bandRect d.band) c r []
      (r.withTile (r.tiles.receive index entry.slot bits) index)) :
    Drafted q s r₀ (d.sendTile index c) calls
      (r.withTile (r.tiles.receive index entry.slot bits) index) where
  replays := by
    have := h.replays.append (.single hc)
    simpa [BandDraft.sendTile, BandDraft.emit] using this
  mirrors := { h.mirrors with tileIndex := rfl, tileIndex_lt := hindex }
  tileSize := h.tileSize
  tiles hreaches := (h.tiles hreaches).receive hlayout hentry hsize hbits

/-- The selected tile is as the cache has it. -/
theorem tile_eq (h : Drafted q s r₀ d calls r) (hcache : s.CacheSound q)
    (ht : s.TilesReach q d.band r₀) (hentry : s.tiles.entryAt index = some entry)
    (htile : d.HasTile index entry) :
    ∃ tile, r.tile = .ok tile ∧ s.tiles.Gives q.exactTiles entry tile := by
  have hreach := h.tiles ht.tiles
  have hslot := hreach.slots index entry hentry htile.has
  have hselected : r.band.tileIndex = index := h.mirrors.tileIndex.trans htile.selected
  have heq : r.tile = .ok { id := UInt64.ofNat index, size := entry.slot.sent.size
                            data := r.tiles.heap.extract entry.slot.sent.offset
                              (entry.slot.sent.offset + entry.slot.sent.size.dataSize) } := by
    rw [ReplayState.tile, hselected, TileArena.tile, hslot]
  refine ⟨_, heq, rfl, fun hexact hsmall => ?_⟩
  · have hstop := hcache.layout.stop_le hentry
    rw [TileSlot.stop] at hstop
    have hoffset : entry.slot.sent.offset = entry.slot.offset := Nat.mod_eq_of_lt (by omega)
    rw [hoffset]
    exact hreach.bits hexact hsmall index entry hentry htile.has

/-- A tile is selected, and its bits are sent to a band that does not have them. -/
theorem select (h : Drafted q s r₀ d calls r) (hcache : s.CacheSound q)
    (hslots : s.config.tileSlots ≤ 4096) (ht : s.TilesReach q d.band r₀) {tile : Tile}
    (hholds : s.Holds tile d.band index entry) :
    ∃ r', Drafted q s r₀ (d.select s.tiles index entry tile.id) calls r' := by
  have hlt : index < s.tiles.table.size :=
    (Array.getElem?_eq_some_iff.mp (TileCache.used_of_entryAt hholds.entryAt)).1
  have hindex : index < 4096 := by
    rw [hcache.tableSize] at hlt
    omega
  have h' : Drafted q s r₀ { d with state := { d.state with tileId := some tile.id } } calls r :=
    { h with mirrors := { h.mirrors with } }
  simp only [BandDraft.select]
  split
  · exact h'.useTileIndex hindex
  · next hlacks =>
    have hreach := h.tiles ht.tiles
    have hsize : r.tileSize = entry.slot.size :=
      h.tileSize.trans (ht.size _ (hholds.announced (by simpa using hlacks)))
    have hbytes := hcache.layout.size_bytesIn hholds.entryAt
    exact ⟨_, h'.receive hcache.layout hholds.entryAt hindex hbytes (fun _ => rfl)
      (replays_tileBits (by omega) hsize hbytes
        (hcache.layout.store_eq hholds.entryAt hreach.heapSize hreach.tableSize hbytes))⟩

end Drafted

namespace Synced

variable [Medium μ] [LawfulMedium μ] [MemoryPolicy μ ν]
variable {q : Terms} {s : WriterState μ ν} {calls : Nat → List TargetCall}

/-- A new geometry is told to all bands, or to none. -/
theorem announceTileSize (h : Synced q s calls) {size : TileSize} (hsize : size.Sendable) :
    Meets (WriterState.announceTileSize size) s
      (fun _ s' => s.Kept s' ∧ Synced q s' calls ∧ s'.tiles = s.tiles ∧ s'.tileSize = some size)
      fun _ s' => s.Kept s' ∧ Synced q s' calls := by
  by_cases htold : s.tileSize = some size
  · have hrun : WriterState.announceTileSize size s = .ok () s := by
      simp [WriterState.announceTileSize, htold]
    exact .of_ok hrun ⟨.refl s, h, rfl, htold⟩
  · have hrun : WriterState.announceTileSize size s =
        (WriterState.putAllBands [Command.tileSize size] >>= fun _ =>
          modify fun s => { s with tileSize := some size }) s := by
      simp [WriterState.announceTileSize, htold]
    rw [Meets, hrun]
    rcases h.putAllBands [Command.tileSize size] with
      ⟨memory, buffer, hput, hheld⟩ | ⟨e, memory, hput⟩
    · rw [bind_of_ok hput]
      obtain ⟨more, hmore, hsynced⟩ := @hheld q
        { s with memory, buffer, tileSize := some size } (fun _ calls => calls = []) rfl rfl rfl
        { h.cache with } fun band _ r hm ht => by
          refine ⟨[], { r with tileSize := size }, rfl, .single (replays_tileSize hsize),
            { hm with }, { ht with size := ?_ }⟩
          rintro size' ⟨⟩
          rfl
      refine ⟨⟨⟨rfl, rfl, rfl, rfl, rfl, rfl, rfl, rfl⟩, rfl⟩, hsynced.congr fun band hband => ?_, rfl, rfl⟩
      rw [hmore band hband, List.append_nil]
    · rw [bind_of_error hput]
      exact ⟨⟨⟨rfl, rfl, rfl, rfl, rfl, rfl, rfl, rfl⟩, rfl⟩, h.withMemory memory⟩

omit [MemoryPolicy μ ν] in
/-- A bitmap that was asked for is in the cache, or the cache could not take it. -/
theorem askTiles (h : Synced q s calls) (id : BitmapId) {size : TileSize} (hsize : size.Sendable)
    {bits : Bytes} (hnamed : q.named id size (bits.extract 0 size.dataSize)) :
    Meets (WriterState.onTiles (TileCache.lookupOrAdd id size bits)) s
      (fun l s' => s.Kept s' ∧ Synced q s' calls ∧ s'.tiles.find? id = some l.index)
      fun _ s' => s.Kept s' ∧ Synced q s' calls := by
  have hpos : 0 < s.tiles.table.size := by
    rw [h.cache.tableSize]
    exact Config.pos_of_isPowerOfTwo h.valid.tileSlots.1
  have hkept : ∀ tiles : TileCache, s.Kept { s with tiles } := fun tiles =>
    ⟨⟨rfl, rfl, rfl, rfl, rfl, rfl, rfl, rfl⟩, rfl⟩
  rcases TileCache.lookupOrAdd_asked id size bits h.cache.layout hpos with
    ⟨l, c, hrun, hc⟩ | ⟨e, c, hrun, hc⟩
  · exact .of_ok (WriterState.onTiles_of_ok hrun)
      ⟨hkept c, h.withTiles hc hsize hnamed, TileCache.find?_of_lookupOrAdd hrun⟩
  · exact .of_error (WriterState.onTiles_of_error hrun) ⟨hkept c, h.withTiles hc hsize hnamed⟩

omit [MemoryPolicy μ ν] in
theorem cacheTile (h : Synced q s calls) {tile : Tile} (htile : tile.Fits q) :
    Meets (WriterState.cacheTile tile) s
      (fun index s' => s.Kept s' ∧ Synced q s' calls ∧ s'.tiles.find? tile.id = some index)
      fun _ s' => s.Kept s' ∧ Synced q s' calls := by
  refine .get_bind ?_
  cases hfind : s.tiles.find? tile.id with
  | some index => exact .pure ⟨.refl s, h, hfind⟩
  | none =>
    obtain ⟨hsize, hid⟩ := htile.sendable.replicated
    refine (h.askTiles tile.replicated.id hsize (hid.symm ▸ htile.named)).bind fun l s' hl => ?_
    rw [hid] at hl
    exact .pure hl

/-- A tile is selected from the cache, with its geometry announced if its bits are to be sent. -/
theorem selectTile (h : Synced q s calls) (d : BandDraft) {tile : Tile} (htile : tile.Fits q) :
    Meets (WriterState.selectTile d tile) s
      (fun d' s' => s.Kept s' ∧ Synced q s' calls ∧ ∃ index entry,
        s'.Holds tile d.band index entry ∧ d' = d.select s'.tiles index entry tile.id)
      fun _ s' => s.Kept s' ∧ Synced q s' calls := by
  refine (h.cacheTile htile).bind fun index s₁ hcached => ?_
  obtain ⟨hkept, hsynced, hfind⟩ := hcached
  obtain ⟨entry, hentry, -⟩ := TileCache.entryAt_of_findFrom hfind
  refine .get_bind ?_
  simp only [hentry]
  by_cases hhas : entry.bands.contains d.band = true
  · rw [if_pos hhas]
    refine .pure ⟨hkept, hsynced, index, entry, ⟨hfind, hentry, fun hlacks => ?_⟩, ?_⟩
    · rw [hhas] at hlacks
      cases hlacks
    · simp only [BandDraft.select, if_pos hhas]
  · rw [if_neg hhas]
    have hsize := hsynced.cache.sendable index entry hentry
    refine Meets.bind ((hsynced.announceTileSize hsize).mono (fun _ _ h => h) fun e s₂ hs₂ =>
      ⟨hkept.trans hs₂.1, hs₂.2⟩) fun _ s₂ hannounced => ?_
    obtain ⟨hkept', hsynced', htiles, htold⟩ := hannounced
    have hentry' : s₂.tiles.entryAt index = some entry := htiles ▸ hentry
    refine .get_bind ?_
    simp only [TileCache.bits?, hentry', Option.map_some]
    refine .pure ⟨hkept.trans hkept', hsynced', index, entry,
      ⟨htiles ▸ hfind, hentry', fun _ => htold⟩, ?_⟩
    simp only [BandDraft.select, if_neg hhas]
    rfl

end Synced

end BandedPage
