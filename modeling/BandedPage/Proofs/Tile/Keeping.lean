import Mathlib
import BandedPage.Proofs.Tile.Layout
import BandedPage.Proofs.Tile.Reach
import BandedPage.Proofs.Tile.Shelf

/-!
# A cache stands for a shelf

Whatever is asked of a cache, it keeps the bitmaps of the shelf that was asked the same: each at one
place of the table, where a search for its name comes, with the bits that it was added with, and the
oldest leave first. A bitmap that some band was sent has not moved since.
-/

namespace BandedPage.TileCache

variable {c c' : TileCache} {s : Shelf} {index i need : Nat} {id : BitmapId}
variable {queue : List Nat} {kept : List KeptBitmap} {b : KeptBitmap}

theorem retains_forgetBands (c : TileCache) : c.Retains c.forgetBands := by
  refine ⟨Array.size_map .., rfl, fun i e' he' => ?_⟩
  rw [entryAt_forgetBands] at he'
  obtain ⟨e, he, rfl⟩ := Option.map_eq_some_iff.mp he'
  refine ⟨e, he, rfl, rfl, rfl, fun band hband => ?_⟩
  rw [BandSet.contains_clear] at hband
  cases hband

/-- A cache without entries keeps nothing. -/
theorem keeps_of_no_entries (h : ∀ i, c.entryAt i = none) (htop : c.top ≤ c.heap.size)
    (hqueue : c.queue = []) (hcount : c.count = 0) :
    c.Keeps { bytes := c.heap.size, slots := c.table.size } where
  layout := layout_of_no_entries htop h
  sought := sought_of_no_entries h
  heapSize := rfl
  tableSize := rfl
  bitmaps := by
    rw [hqueue]
    exact .nil
  queued i e he := by
    rw [h i] at he
    cases he
  named := List.nodup_nil
  count := hcount
  count_le := Nat.zero_le _

namespace Keeps

/-- Entries may move and bands be noted. -/
theorem of_entries (h : c.Keeps s) (hlayout : c'.Layout) (hsought : c'.Sought)
    (hheap : c'.heap.size = c.heap.size) (htable : c'.table.size = c.table.size)
    (hqueue : c'.queue = c.queue) (hcount : c'.count = c.count)
    (hstay : ∀ i, (c'.entryAt i).isSome = (c.entryAt i).isSome)
    (hentries : ∀ i e', c'.entryAt i = some e' → ∃ e, c.entryAt i = some e ∧ e.id = e'.id ∧
      e.slot.size = e'.slot.size ∧ c'.bytesIn e'.slot = c.bytesIn e.slot) : c'.Keeps s where
  layout := hlayout
  sought := hsought
  heapSize := hheap.trans h.heapSize
  tableSize := htable.trans h.tableSize
  bitmaps := by
    rw [hqueue]
    refine h.bitmaps.imp fun i b hb => ?_
    obtain ⟨e, he, hid, hsize, hbits⟩ := has_iff.mp hb
    have hsome : (c'.entryAt i).isSome = true := by
      rw [hstay, he]
      rfl
    obtain ⟨e', he'⟩ := Option.isSome_iff_exists.mp hsome
    obtain ⟨before, hbefore, hid', hsize', hbytes⟩ := hentries i e' he'
    cases he.symm.trans hbefore
    exact has_iff.mpr ⟨e', he', hid'.symm.trans hid, hsize'.symm.trans hsize, hbytes.trans hbits⟩
  queued i e' he' := by
    obtain ⟨e, he, -⟩ := hentries i e' he'
    rw [hqueue]
    exact h.queued i e he
  named := h.named
  count := hcount.trans h.count
  count_le := h.count_le

theorem of_retains (h : c.Keeps s) (hretains : c.Retains c') (hlayout : c'.Layout)
    (hsought : c'.Sought) (hqueue : c'.queue = c.queue) (hcount : c'.count = c.count)
    (hstay : ∀ i, (c'.entryAt i).isSome = (c.entryAt i).isSome) : c'.Keeps s :=
  h.of_entries hlayout hsought hretains.heapSize hretains.tableSize hqueue hcount hstay
    fun i e' he' => by
      obtain ⟨e, he, hid, hsize, hbytes, -⟩ := hretains.entries i e' he'
      exact ⟨e, he, hid, hsize, hbytes⟩

theorem markBand (h : c.Keeps s) (index band : Nat) : (c.markBand index band).Keeps s := by
  refine h.of_entries (h.layout.foldl_markBand [index] band) (h.sought.modifyEntry _ fun _ => rfl)
    rfl (tableSize_markBand ..) rfl rfl (fun i => ?_) fun i e' he' => ?_
  · rw [TileCache.markBand, entryAt_modifyEntry]
    split
    · exact Option.isSome_map
    · rfl
  · obtain ⟨before, hbefore, hslot, hid, -⟩ := exists_of_entryAt_markBand he'
    exact ⟨before, hbefore, hid.symm, by rw [hslot], by rw [hslot]; rfl⟩

theorem forgetBands (h : c.Keeps s) : c.forgetBands.Keeps s := by
  have hretains := retains_forgetBands c
  refine h.of_retains hretains (h.layout.of_slots rfl rfl fun i e' he' => ?_) h.sought.forgetBands
    rfl rfl fun i => ?_
  · rw [entryAt_forgetBands] at he'
    obtain ⟨e, he, rfl⟩ := Option.map_eq_some_iff.mp he'
    exact ⟨e, he, rfl⟩
  · rw [entryAt_forgetBands]
    exact Option.isSome_map

theorem compact (h : c.Keeps s) : c.compact.1.Keeps s :=
  have hsliding := sliding_compact h.layout
  h.of_retains hsliding.retains hsliding.layout ((thinned_compact c).sought h.sought)
    (queue_compact c) (compact_counts c).2 (isSome_entryAt_compact c)

theorem gather (h : c.Keeps s) (need : Nat) : (c.gather need).Keeps s := by
  rw [TileCache.gather]
  split
  · exact h.compact
  · exact h

theorem place (h : c.Keeps s) {bits : Bytes} (hfit : c.top + bits.size ≤ c.heap.size) :
    (c.place bits).Keeps s := by
  obtain ⟨hlayout, hretains⟩ := place_spec bits h.layout hfit
  exact h.of_retains hretains hlayout ((thinned_place c bits).sought h.sought) rfl rfl fun _ => rfl

/-- The first entry of the queue leaves. -/
theorem evict (h : ({ c with queue := i :: queue } : TileCache).Keeps { s with kept := b :: kept }) :
    ({ c.evict i with queue } : TileCache).Keeps { s with kept } := by
  obtain ⟨⟨e, he, -⟩, hrest⟩ := List.forall₂_cons.mp h.bitmaps
  have hfirst : c.entryAt i = some e := he
  have hentry := entryAt_evict c i
  have hleft := left_evict c i
  have hlayout : (c.evict i).Layout :=
    hleft.layout ⟨h.layout.top_le, h.layout.below, h.layout.apart⟩
  have hsought : (c.evict i).Sought := (thinned_evict c i).sought h.sought
  have hcount : c.count = kept.length + 1 := h.count
  exact {
    layout := ⟨hlayout.top_le, hlayout.below, hlayout.apart⟩
    sought := hsought
    heapSize := (thinned_evict c i).heap.trans h.heapSize
    tableSize := hleft.tableSize.trans h.tableSize
    bitmaps := by
      have hothers : ∀ j ∈ queue, j ≠ i := fun j hj heq =>
        (List.nodup_cons.mp h.nodup_queue).1 (heq ▸ hj)
      refine ((List.forall₂_and_left _ _).mpr ⟨hothers, hrest⟩).imp fun j b' hb => ?_
      obtain ⟨e', he', hid, hsize, hbits⟩ := has_iff.mp hb.2
      refine has_iff.mpr ⟨e', (hentry j).trans ((if_neg hb.1).trans he'), hid, hsize, ?_⟩
      rw [← hbits, bytesIn, bytesIn, hleft.heap]
    queued := fun j e' he' => by
      have he' : (c.evict i).entryAt j = some e' := he'
      rw [hentry] at he'
      split at he'
      · cases he'
      · next hne => exact (List.mem_cons.mp (h.queued j e' he')).resolve_left hne
    named := (List.nodup_cons.mp h.named).2
    count := by
      show (c.evict i).count = kept.length
      rw [TileCache.evict, hfirst]
      exact (congrArg (· - 1) hcount).trans (Nat.add_sub_cancel ..)
    count_le := (Nat.le_succ _).trans h.count_le }

/-- The oldest entries leave until there is room, if there can be. -/
theorem makeRoomFrom (need : Nat) (queue : List Nat)
    (h : ({ c with queue } : TileCache).Keeps { s with kept }) :
    ∃ n ≤ kept.length, (∀ m < n, s.hasRoom need (kept.drop m) = false) ∧
      (s.hasRoom need (kept.drop n) = true ∨ n = kept.length) ∧
      (makeRoomFrom need queue c).queue = queue.drop n ∧
      (makeRoomFrom need queue c).Keeps { s with kept := kept.drop n } := by
  induction queue generalizing c kept with
  | nil =>
    cases h.bitmaps
    exact ⟨0, le_rfl, by simp, .inr rfl, rfl, h⟩
  | cons i queue ih =>
    cases kept with
    | nil => cases h.bitmaps
    | cons b kept =>
      have hroom : c.hasRoom need = s.hasRoom need (b :: kept) := h.hasRoom_eq need
      rw [TileCache.makeRoomFrom, hroom]
      split
      · next hfits => exact ⟨0, Nat.zero_le _, by simp, .inl hfits, rfl, h⟩
      · next hfull =>
        obtain ⟨n, hn, hleast, hlast, hqueue, hkeeps⟩ := ih h.evict
        refine ⟨n + 1, Nat.succ_le_succ hn, fun m hm => ?_, hlast.imp_right (congrArg (· + 1)),
          hqueue, hkeeps⟩
        cases m with
        | zero => exact Bool.eq_false_iff.mpr hfull
        | succ m => exact hleast m (Nat.lt_of_succ_lt_succ hm)

/-- A bitmap with a new name is entered. -/
theorem enter (h : c.Keeps s) (hpos : 0 < c.table.size) (slot : TileSlot)
    (hvacancy : c.vacancyFrom id c.table.size = some index) (hnew : s.holds id = false)
    (hbehind : ∀ i e, c.entryAt i = some e → e.slot.stop ≤ slot.offset) (hstop : slot.stop ≤ c.top)
    (hroom : s.kept.length + 1 ≤ s.slots * 3 / 4) :
    (c.enter index id slot).Keeps
      { s with kept := s.kept ++ [{ id, size := slot.size, bits := c.bytesIn slot }] } := by
  obtain ⟨hindex, hvacant⟩ := lt_size_of_vacancyFrom hpos hvacancy
  have hentry := entryAt_enter id slot hindex
  have hstay : ∀ i e, c.entryAt i = some e → (c.enter index id slot).entryAt i = some e := by
    intro i e he
    rw [hentry, if_neg, he]
    rintro rfl
    rw [hvacant] at he
    cases he
  exact {
    layout := layout_enter id slot h.layout hindex hbehind hstop
    sought := h.sought.enter hpos hvacancy slot
    heapSize := h.heapSize
    tableSize := (Array.size_setIfInBounds ..).trans h.tableSize
    bitmaps := by
      refine List.rel_append (h.bitmaps.imp fun i b hb => ?_) (.cons ?_ .nil)
      · obtain ⟨e, he, hrest⟩ := has_iff.mp hb
        exact has_iff.mpr ⟨e, hstay i e he, hrest⟩
      · exact has_iff.mpr ⟨_, (hentry index).trans (if_pos rfl), rfl, rfl, rfl⟩
    queued := fun i e he => by
      rw [hentry] at he
      split at he
      · next heq => exact List.mem_append_right _ (List.mem_singleton.mpr heq)
      · exact List.mem_append_left _ (h.queued i e he)
    named := by
      rw [List.map_append, List.map_singleton, ← List.concat_eq_append]
      refine List.Nodup.concat ?_ h.named
      simpa [Shelf.holds] using hnew
    count := by
      show c.count + 1 = _
      rw [h.count, List.length_append]
      rfl
    count_le := by
      rw [List.length_append]
      exact hroom }

/-- Room is lacking only where there are no places for bitmaps, and then none has to leave. -/
theorem makeRoom_of_full (h : c.Keeps s) (hsmall : need ≤ c.maxTileSize)
    (hfull : (c.makeRoom need).hasRoom need = false) :
    c.makeRoom need = c ∧ ∀ m, s.hasRoom need (s.kept.drop m) = false := by
  obtain ⟨n, -, -, hlast, -, hkeeps⟩ := h.makeRoomFrom need c.queue
  have hfull : s.hasRoom need (s.kept.drop n) = false := (hkeeps.hasRoom_eq need).symm.trans hfull
  have hn : n = s.kept.length := hlast.resolve_left (by rw [hfull]; exact Bool.false_ne_true)
  have hslots : ¬ 1 ≤ s.slots * 3 / 4 := by
    intro hslots
    rw [maxTileSize, h.heapSize] at hsmall
    have hbytes : need ≤ s.bytes := hsmall.trans (Nat.div_le_self ..)
    rw [hn, List.drop_length] at hfull
    simp [Shelf.hasRoom, Shelf.weight, hslots, hbytes] at hfull
  have hkept : s.kept = [] := List.length_eq_zero_iff.mp (by have := h.count_le; omega)
  have hqueue : c.queue = [] := by
    have hbitmaps := h.bitmaps
    rw [hkept] at hbitmaps
    exact List.forall₂_nil_right_iff.mp hbitmaps
  refine ⟨?_, fun m => ?_⟩
  · rw [makeRoom, hqueue, TileCache.makeRoomFrom, ← hqueue]
  · simp [Shelf.hasRoom, hkept, hslots]

/-- Where there is room a new bitmap is put above the others and entered. -/
theorem exists_enter (h : c.Keeps s) (hslots : Config.isPowerOfTwo s.slots = true)
    (hnew : s.holds id = false) {size : TileSize} {bits : Bytes} (hsize : bits.size = size.dataSize)
    (hroom : c.hasRoom size.dataSize = true) {gathered placed : TileCache}
    (hgathered : gathered = c.gather size.dataSize) (hplaced : placed = gathered.place bits) :
    ∃ i, placed.vacancyFrom id placed.table.size = some i ∧
      (placed.enter i id { offset := gathered.top, size }).queue = c.queue ++ [i] ∧
      (placed.enter i id { offset := gathered.top, size }).Keeps
        { s with kept := s.kept ++ [{ id, size, bits }] } := by
  have hfits : s.kept.length + 1 ≤ s.slots * 3 / 4 ∧ size.dataSize ≤ c.freeBytes := by
    rw [hasRoom, Bool.and_eq_true, decide_eq_true_eq, decide_eq_true_eq, h.count, h.tableSize] at hroom
    exact hroom
  have hgatheredKeeps : gathered.Keeps s := hgathered ▸ h.gather _
  have htop : gathered.top + bits.size ≤ gathered.heap.size := by
    rw [hgathered, hsize]
    exact (gather_spec h.layout hfits.2).2.2
  have hplacedKeeps : placed.Keeps s := hplaced ▸ hgatheredKeeps.place htop
  obtain ⟨i, hvacancy⟩ := hplacedKeeps.counted.exists_vacancy
    (hplacedKeeps.tableSize.symm ▸ hslots)
    (by rw [hplacedKeeps.count, hplacedKeeps.tableSize]; exact hfits.1) id
  refine ⟨i, hvacancy, ?_, ?_⟩
  · have hqueue : placed.queue = c.queue := by
      rw [hplaced, hgathered]
      exact queue_gather ..
    exact congrArg (· ++ [i]) hqueue
  · have hpos : 0 < placed.table.size := by
      have := hfits.1
      rw [hplacedKeeps.tableSize]
      omega
    have hbytes : placed.bytesIn { offset := gathered.top, size } = bits :=
      hplaced ▸ bytesIn_place hsize htop
    have hentered := hplacedKeeps.enter hpos { offset := gathered.top, size } hvacancy hnew
      (hplaced ▸ hgatheredKeeps.layout.below) (by rw [hplaced, TileCache.place, hsize, TileSlot.stop])
      hfits.1
    rw [hbytes] at hentered
    exact hentered

/-- Whatever is looked for, the answer is one that the shelf allows. -/
theorem answer (h : c.Keeps s) (hslots : Config.isPowerOfTwo s.slots = true) (id : BitmapId)
    (size : TileSize) (bits : Bytes) : c.Answer s id size bits (lookupOrAdd id size bits c) := by
  rcases lookupOrAdd_cases id size bits c with ⟨i, hfind, hrun⟩ | ⟨hfind, hrest⟩
  · rw [hrun]
    refine .found ?_ hfind
    rw [← h.isSome_find?, hfind]
    rfl
  have hnew : s.holds id = false := by
    rw [← h.isSome_find?, hfind]
    rfl
  rcases hrest with ⟨hlarge, hrun⟩ | ⟨⟨⟨hsmall, -⟩, hfull⟩, hrun⟩ |
    ⟨hroom, hsmall, hbits, gathered, placed, hgathered, hplaced, hlast⟩
  · rw [hrun]
    refine .refused hnew ?_
    rw [maxTileSize, h.heapSize] at hlarge
    rw [Shelf.leaving?, if_pos (by simpa using hlarge)]
  · obtain ⟨hsame, hnone⟩ := h.makeRoom_of_full hsmall hfull
    rw [hrun, hsame]
    exact .refused hnew (Shelf.leaving?_eq_none hnone)
  · obtain ⟨n, hn, hleast, -, hqueue, hkeeps⟩ := h.makeRoomFrom size.dataSize c.queue
    have hnew' : ({ s with kept := s.kept.drop n } : Shelf).holds id = false := by
      rw [Shelf.holds, List.any_eq_false] at hnew ⊢
      exact fun b hb => hnew b (List.drop_subset n _ hb)
    have hsize : (bits.extract 0 size.dataSize).size = size.dataSize := by
      rw [Array.size_extract]
      omega
    obtain ⟨i, hvacancy, hqueue', hentered⟩ :=
      hkeeps.exists_enter hslots hnew' hsize hroom hgathered hplaced
    rcases hlast with ⟨hnone, -⟩ | ⟨i', hvacancy', hrun⟩
    · rw [hvacancy] at hnone
      cases hnone
    · cases hvacancy.symm.trans hvacancy'
      rw [hrun]
      refine .added hnew (Shelf.leaving?_eq_some (h.heapSize ▸ hsmall) hbits hn ?_ hleast) ?_ hentered
      · exact (hkeeps.hasRoom_eq _).symm.trans hroom
      · rw [hqueue', hqueue]

theorem perform (h : c.Keeps s) (hslots : Config.isPowerOfTwo s.slots = true)
    (request : CacheRequest) : (c.perform request).Keeps (s.perform request) := by
  cases request with
  | lookup id size bits =>
    show (stateOf (lookupOrAdd id size bits c)).Keeps _
    have hanswer := h.answer hslots id size bits
    rw [Shelf.perform]
    generalize lookupOrAdd id size bits c = r at hanswer
    cases hanswer with
    | found hheld hfind =>
      rw [if_pos hheld]
      exact h
    | added hnew hleaving hqueue hkeeps =>
      rw [if_neg (Bool.eq_false_iff.mp hnew), hleaving]
      exact hkeeps
    | refused hnew hnone =>
      rw [if_neg (Bool.eq_false_iff.mp hnew), hnone]
      exact h
  | mark index band => exact h.markBand index band
  | forget => exact h.forgetBands
  | compact => exact h.compact
  | reset =>
    have hreset := keeps_of_no_entries (entryAt_reset c) (Nat.zero_le _) rfl rfl
    have hslots : c.reset.table.size = s.slots := (Array.size_replicate ..).trans h.tableSize
    have hbytes : c.reset.heap.size = s.bytes := h.heapSize
    rw [hslots, hbytes] at hreset
    exact hreset

/-- An entry that some band was sent was there before, under the same name and at the same place. -/
theorem known (h : c.Keeps s) (hslots : Config.isPowerOfTwo s.slots = true)
    (request : CacheRequest) {e' : TileEntry} {band : Nat}
    (he' : (c.perform request).entryAt i = some e') (hband : e'.bands.contains band = true) :
    ∃ e, c.entryAt i = some e ∧ e.id = e'.id ∧ e.slot = e'.slot := by
  have hpos : 0 < c.table.size := h.tableSize.symm ▸ Config.pos_of_isPowerOfTwo hslots
  cases request with
  | lookup id size bits =>
    have hasked : Asked id size bits c (stateOf (lookupOrAdd id size bits c)) := by
      rcases lookupOrAdd_asked id size bits h.layout hpos with ⟨l, c', hrun, hasked⟩ |
        ⟨e, c', hrun, hasked⟩ <;>
      · rw [hrun]
        exact hasked
    rcases hasked.entries i e' he' with ⟨e, he, hid, -, -, hbands⟩ | ⟨-, -, -, hnone⟩
    · exact ⟨e, he, hid, (hbands band hband).1⟩
    · rw [hnone band] at hband
      cases hband
  | mark index band' =>
    obtain ⟨e, he, hslot, hid, -⟩ := exists_of_entryAt_markBand he'
    exact ⟨e, he, hid.symm, hslot.symm⟩
  | forget => exact (retains_forgetBands c).known he' hband
  | compact => exact (sliding_compact h.layout).retains.known he' hband
  | reset =>
    rw [show (c.perform .reset).entryAt i = none from entryAt_reset c i] at he'
    cases he'

theorem settled_compact (h : c.Keeps s) : c.compact.1.Settled := by
  refine settled_of_packed h.compact.layout ?_
  rw [h.compact.liveBytes_eq, ← h.liveBytes_eq]
  exact (sliding_compact h.layout).top_eq

end Keeps

/-- A cache stands for a shelf: it keeps the bitmaps, finds and counts them, and answers for them. -/
structure Represents (c : TileCache) (s : Shelf) : Prop extends c.Keeps s where
  found : ∀ id i, c.find? id = some i ↔ ∃ e, c.entryAt i = some e ∧ e.id = id
  entries : c.count = c.entries.length
  answers : ∀ id size bits, c.Answer s id size bits (lookupOrAdd id size bits c)
  /-- Of an entry that is new or has moved no band knows. -/
  known : ∀ request i e' band, (c.perform request).entryAt i = some e' →
    e'.bands.contains band = true → ∃ e, c.entryAt i = some e ∧ e.id = e'.id ∧ e.slot = e'.slot
  settled : c.compact.1.Settled

namespace Keeps

/-- Whatever is asked one after the other, the cache keeps what the shelf does. -/
theorem performAll (h : c.Keeps s) (hslots : Config.isPowerOfTwo s.slots = true)
    (requests : List CacheRequest) :
    (requests.foldl TileCache.perform c).Keeps (requests.foldl Shelf.perform s) ∧
      (requests.foldl Shelf.perform s).slots = s.slots := by
  induction requests generalizing c s with
  | nil => exact ⟨h, rfl⟩
  | cons request requests ih =>
    have hstay := Shelf.slots_perform s request
    obtain ⟨hkeeps, hslots'⟩ := ih (h.perform hslots request) (hstay.symm ▸ hslots)
    exact ⟨hkeeps, hslots'.trans hstay⟩

theorem represents (h : c.Keeps s) (hslots : Config.isPowerOfTwo s.slots = true) : c.Represents s where
  toKeeps := h
  found _ _ := h.find?_eq_some_iff
  entries := h.count.trans h.length_entries.symm
  answers := h.answer hslots
  known request _ _ _ := h.known hslots request
  settled := h.settled_compact

end Keeps

/-- Whatever was asked of it, a cache stands for the shelf that was asked the same. -/
theorem represents_shelf {slots : Nat} (hslots : Config.isPowerOfTwo slots = true)
    (bytes nbands : Nat) (requests : List CacheRequest) :
    (requests.foldl perform (empty bytes slots nbands)).Represents
      (requests.foldl Shelf.perform { bytes, slots }) := by
  have hempty := keeps_of_no_entries (entryAt_empty bytes slots nbands) (Nat.zero_le _) rfl rfl
  rw [show (empty bytes slots nbands).heap.size = bytes from Array.size_replicate ..,
    show (empty bytes slots nbands).table.size = slots from Array.size_replicate ..] at hempty
  obtain ⟨hkeeps, hstay⟩ := hempty.performAll hslots requests
  exact hkeeps.represents (hstay.symm ▸ hslots)

/-- In a table of four places the first of four bitmaps leaves for the last. -/
theorem crowded_cache_represents_shelf :
    Config.isPowerOfTwo 4 = true ∧
      ([.lookup 1 (.single 8 1 1) #[1], .lookup 2 (.single 8 2 1) #[2, 2], .mark 2 1,
        .lookup 3 (.single 8 1 1) #[3], .lookup 4 (.single 8 2 1) #[4, 4]].foldl perform
          (empty 6 4 2)).Represents
        { bytes := 6, slots := 4, kept := [⟨2, .single 8 2 1, #[2, 2]⟩, ⟨3, .single 8 1 1, #[3]⟩,
          ⟨4, .single 8 2 1, #[4, 4]⟩] } :=
  ⟨rfl, represents_shelf rfl 6 2 _⟩

/-- A bitmap without bytes that begins where another does gives way to it, and may have to do so
again. -/
theorem empty_bitmap_slides_again :
    ([.lookup 2 (.single 8 0 1) #[], .lookup 1 (.single 8 1 1) #[0xaa],
      .lookup 0 (.single 8 1 1) #[0xbb]].foldl perform (empty 64 4 2)).compact.1.compact.2 ≠ 0 := by
  cbv

end BandedPage.TileCache
