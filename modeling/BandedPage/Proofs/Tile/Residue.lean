import Mathlib
import BandedPage.Proofs.Lockstep
import BandedPage.Proofs.Tile.Reach

/-!
# What lies between tiles

A cache that was reset keeps the bytes of the tiles it held. They are written over before they are
read, so such a cache does what one does that never held anything.
-/

namespace BandedPage.TileCache

variable {c c' : TileCache} {index : Nat} {entry : TileEntry}

/-- The caches have the same entries with the same bits; the bytes between them may differ. -/
structure SameTiles (c c' : TileCache) : Prop where
  rest : c' = { c with heap := c'.heap }
  heapSize : c'.heap.size = c.heap.size
  bytes : ∀ i e, c.entryAt i = some e → ∀ k, e.slot.offset ≤ k → k < e.slot.stop →
    c'.heap[k]? = c.heap[k]?

namespace SameTiles

theorem refl (c : TileCache) : c.SameTiles c := ⟨rfl, rfl, fun _ _ _ _ _ _ => rfl⟩

theorem table (h : c.SameTiles c') : c'.table = c.table := by rw [h.rest]

theorem top (h : c.SameTiles c') : c'.top = c.top := by rw [h.rest]

theorem entryAt (h : c.SameTiles c') (i : Nat) : c'.entryAt i = c.entryAt i := by
  rw [TileCache.entryAt, TileCache.entryAt, h.table]

/-- Bytes of an entry are cut out alike. -/
theorem extract (h : c.SameTiles c') (he : c.entryAt index = some entry) :
    c'.heap.extract entry.slot.offset entry.slot.stop =
      c.heap.extract entry.slot.offset entry.slot.stop := by
  refine Array.ext_getElem? fun k => ?_
  rw [Array.getElem?_extract, Array.getElem?_extract, h.heapSize]
  split
  · exact h.bytes index entry he _ (by omega) (by omega)
  · rfl

theorem bits? (h : c.SameTiles c') (i : Nat) : c'.bits? i = c.bits? i := by
  rw [TileCache.bits?, TileCache.bits?, h.entryAt]
  cases he : c.entryAt i with
  | none => rfl
  | some e => exact congrArg some (h.extract he)

/-- The table changes; entries lie where entries lay. -/
theorem of_entries (h : c.SameTiles c') {d : TileCache} (hheap : d.heap = c.heap)
    (hentries : ∀ i e, d.entryAt i = some e → ∃ j e', c.entryAt j = some e' ∧ e'.slot = e.slot) :
    d.SameTiles { d with heap := c'.heap } := by
  refine ⟨rfl, by rw [hheap]; exact h.heapSize, fun i e he k hlo hhi => ?_⟩
  obtain ⟨j, e', he', hslot⟩ := hentries i e he
  rw [hheap]
  rw [← hslot] at hlo hhi
  exact h.bytes j e' he' k hlo hhi

theorem evict (h : c.SameTiles c') (i : Nat) : (c.evict i).SameTiles (c'.evict i) := by
  have hleft := left_evict c i
  have hrest : c'.evict i = { c.evict i with heap := c'.heap } := by
    rw [TileCache.evict, TileCache.evict, h.entryAt]
    rw [h.rest]
    split <;> rfl
  rw [hrest]
  exact h.of_entries hleft.heap fun j e he => ⟨j, e, hleft.entries j e he, rfl⟩

theorem liveBytes (h : c.SameTiles c') : c'.liveBytes = c.liveBytes := by
  rw [h.rest]
  rfl

theorem hasRoom (h : c.SameTiles c') (need : Nat) : c'.hasRoom need = c.hasRoom need := by
  have hcount : c'.count = c.count := by rw [h.rest]
  rw [TileCache.hasRoom, TileCache.hasRoom, freeBytes, freeBytes, h.liveBytes, h.heapSize, h.table,
    hcount]

theorem maxTileSize (h : c.SameTiles c') : c'.maxTileSize = c.maxTileSize := by
  rw [TileCache.maxTileSize, TileCache.maxTileSize, h.heapSize]

theorem makeRoomFrom (h : c.SameTiles c') (need : Nat) (queue : List Nat) :
    (makeRoomFrom need queue c).SameTiles (makeRoomFrom need queue c') := by
  have hqueue : ∀ {c c' : TileCache}, c.SameTiles c' → ∀ queue,
      ({ c with queue } : TileCache).SameTiles { c' with queue } := fun h queue =>
    ⟨by rw [h.rest], h.heapSize, h.bytes⟩
  induction queue generalizing c c' with
  | nil => exact hqueue h []
  | cons i queue ih =>
    rw [TileCache.makeRoomFrom, TileCache.makeRoomFrom, h.hasRoom]
    split
    · exact hqueue h _
    · exact ih (h.evict i)

theorem makeRoom (h : c.SameTiles c') (need : Nat) : (c.makeRoom need).SameTiles (c'.makeRoom need) := by
  have hqueue : c'.queue = c.queue := by rw [h.rest]
  rw [TileCache.makeRoom, TileCache.makeRoom, hqueue]
  exact h.makeRoomFrom need c.queue

/-- The same bytes are written over both heaps. -/
@[simp] theorem getElem?_overwrite (h : c.SameTiles c') (start : Nat) (bits : List UInt8) (k : Nat)
    (hk : (start ≤ k ∧ k < start + bits.length) ∨ c'.heap[k]? = c.heap[k]?) :
    (Bits.overwrite c'.heap start bits)[k]? = (Bits.overwrite c.heap start bits)[k]? := by
  rw [Bits.getElem?_overwrite, Bits.getElem?_overwrite, h.heapSize]
  split
  · rfl
  · next hout =>
    rcases hk with hin | heq
    · have hlast : ¬ k < c.heap.size := fun hlt => hout ⟨hin.1, hin.2, hlt⟩
      have hsize := h.heapSize
      rw [Array.getElem?_eq_none (by omega), Array.getElem?_eq_none (by omega)]
    · exact heq

/-- An entry that lies in the heap is moved with its bytes. -/
theorem slideDown (h : c.SameTiles c') (he : c.entryAt index = some entry)
    (hlength : (c.bytesIn entry.slot).toList.length = entry.slot.size.dataSize) :
    (c.slideDown index).1.SameTiles (c'.slideDown index).1 := by
  have he' : c'.entryAt index = some entry := (h.entryAt index).trans he
  by_cases htop : entry.slot.offset = c.top
  · rw [slideDown_of_eq he htop, slideDown_of_eq he' (htop.trans h.top.symm), h.top]
    exact ⟨by rw [h.rest], h.heapSize, h.bytes⟩
  · rw [slideDown_of_ne he htop, slideDown_of_ne he' fun heq => htop (heq.trans h.top)]
    have hbits : c'.bytesIn entry.slot = c.bytesIn entry.slot := h.extract he
    have hslid : c'.slid index entry = { c.slid index entry with
        heap := Bits.overwrite c'.heap c.top (c.bytesIn entry.slot).toList } := by
      rw [slid, slid, hbits, h.top, h.rest]
      rfl
    rw [hslid]
    refine ⟨rfl, ?_, fun j e' hj k hlo hhi => h.getElem?_overwrite c.top _ k ?_⟩
    · exact (Bits.size_overwrite ..).trans (h.heapSize.trans (Bits.size_overwrite ..).symm)
    · rw [entryAt_slid he] at hj
      split at hj
      · cases hj
        rw [hlength]
        exact .inl ⟨hlo, hhi⟩
      · exact .inr (h.bytes j e' hj k hlo hhi)

/-- Entries slide down with their bytes. -/
theorem foldl_slideDown {c₀ : TileCache} (hc : c₀.Layout) {live : List (Nat × TileEntry)}
    (hs : c₀.Sliding c live) (h : c.SameTiles c') (n n' : Nat) :
    (live.foldl (fun (c, count) (i, _) =>
      let (c, moved) := c.slideDown i
      (c, if moved then count + 1 else count)) (c, n)).1.SameTiles
    (live.foldl (fun (c, count) (i, _) =>
      let (c, moved) := c.slideDown i
      (c, if moved then count + 1 else count)) (c', n')).1 := by
  induction live generalizing c c' n n' with
  | nil => exact h
  | cons p live ih =>
    obtain ⟨i, e⟩ := p
    have hfirst := (hs.waits (i, e) List.mem_cons_self).2.1
    exact ih (hs.slideDown hc) (h.slideDown hfirst (hs.length_bytesIn hc)) _ _

theorem gather (hc : c.Layout) (h : c.SameTiles c') (need : Nat) :
    (c.gather need).SameTiles (c'.gather need) := by
  rw [TileCache.gather, TileCache.gather, h.heapSize, h.top]
  split
  · have hentries : c'.entries = c.entries := by rw [TileCache.entries, TileCache.entries, h.table]
    have hstart : ({ c with top := 0 } : TileCache).SameTiles { c' with top := 0 } :=
      ⟨by rw [h.rest], h.heapSize, h.bytes⟩
    rw [compact, compact, hentries]
    exact foldl_slideDown hc sliding_start hstart 0 0
  · exact h

/-- The same bits are placed above every entry, where a new entry is to lie. -/
theorem enter_place (h : c.SameTiles c') (bits : Bytes) (id : BitmapId) (size : TileSize)
    (hbits : bits.size = size.dataSize) (hindex : index < c.table.size) :
    ((c.place bits).enter index id { offset := c.top, size }).SameTiles
      ((c'.place bits).enter index id { offset := c'.top, size }) := by
  refine ⟨?_, ?_, fun i e he k hlo hhi => ?_⟩
  · rw [h.rest]
    rfl
  · exact (Bits.size_overwrite ..).trans (h.heapSize.trans (Bits.size_overwrite ..).symm)
  · rw [entryAt_enter (c := c.place bits) _ _ hindex] at he
    have hover := h.getElem?_overwrite c.top bits.toList k
    have htop := h.top
    split at he
    · cases he
      rw [TileSlot.stop, ← hbits] at hhi
      simp only [TileCache.enter, TileCache.place, htop]
      exact hover (.inl ⟨hlo, by simpa using hhi⟩)
    · simp only [TileCache.enter, TileCache.place, htop]
      exact hover (.inr (h.bytes i e he k hlo hhi))

theorem place (h : c.SameTiles c') (bits : Bytes) : (c.place bits).SameTiles (c'.place bits) := by
  refine ⟨?_, ?_, fun i e he k hlo hhi => ?_⟩
  · rw [h.rest]
    rfl
  · exact (Bits.size_overwrite ..).trans (h.heapSize.trans (Bits.size_overwrite ..).symm)
  · have hover := h.getElem?_overwrite c.top bits.toList k (.inr (h.bytes i e he k hlo hhi))
    simp only [TileCache.place, h.top]
    exact hover

theorem probe (h : c.SameTiles c') (id : BitmapId) (k : Nat) : c'.probe id k = c.probe id k :=
  probe_eq_of_size (by rw [h.table]) id k

theorem find? (h : c.SameTiles c') (id : BitmapId) : c'.find? id = c.find? id := by
  rw [TileCache.find?, TileCache.find?, h.table]
  generalize c.table.size = n
  induction n with
  | zero => rfl
  | succ n ih => simp only [findFrom, h.probe, h.table, ih]

theorem vacancyFrom (h : c.SameTiles c') (id : BitmapId) (n : Nat) :
    c'.vacancyFrom id n = c.vacancyFrom id n := by
  induction n with
  | zero => rfl
  | succ n ih => simp only [TileCache.vacancyFrom, h.probe, h.table, h.entryAt, ih]

end SameTiles

/-- What a cache answers when it is asked for a bitmap does not depend on the bytes between tiles. -/
theorem SameTiles.lookupOrAdd (h : c.SameTiles c') (hc : c.Layout) (hpos : 0 < c.table.size)
    (id : BitmapId) (size : TileSize) (bits : Bytes) :
    InStep SameTiles (lookupOrAdd id size bits) c (lookupOrAdd id size bits) c' := by
  have hlayout := (left_makeRoomFrom size.dataSize c.queue c).layout hc
  have hroomy := h.makeRoom size.dataSize
  rcases lookupOrAdd_cases id size bits c with ⟨index, hfind, hrun⟩ | ⟨hfind, hrest⟩
  · exact .of_ok hrun (lookupOrAdd_of_find? ((h.find? id).trans hfind) size bits) h
  have hfind' : c'.find? id = none := (h.find? id).trans hfind
  rcases lookupOrAdd_cases id size bits c' with ⟨index, hfound, -⟩ | ⟨-, hrest'⟩
  · rw [hfind'] at hfound
    cases hfound
  rw [h.maxTileSize, hroomy.hasRoom] at hrest'
  rcases hrest with ⟨hlarge, hrun⟩ | ⟨⟨⟨hsmall, hbits⟩, hroom⟩, hrun⟩ |
      ⟨hroom, hsmall, hbits, gathered, placed, hgathered, hplaced, hrest⟩ <;>
    rcases hrest' with ⟨hlarge', hrun'⟩ | ⟨⟨⟨hsmall', hbits'⟩, hroom'⟩, hrun'⟩ |
      ⟨hroom', hsmall', hbits', gathered', placed', hgathered', hplaced', hrest'⟩
  · exact .of_error hrun hrun' h
  · omega
  · omega
  · omega
  · have hfree : (c'.makeRoom size.dataSize).freeBytes = (c.makeRoom size.dataSize).freeBytes := by
      rw [freeBytes, freeBytes, hroomy.liveBytes, hroomy.heapSize]
    rw [hfree] at hrun'
    exact .of_error hrun hrun' hroomy
  · rw [hroom] at hroom'
    cases hroom'
  · omega
  · rw [hroom] at hroom'
    cases hroom'
  · have hg : gathered.SameTiles gathered' := by
      rw [hgathered, hgathered']
      exact hroomy.gather hlayout _
    have hp : placed.SameTiles placed' := by
      rw [hplaced, hplaced']
      exact hg.place _
    rw [hp.vacancyFrom, hp.table] at hrest'
    rcases hrest with ⟨hvacancy, hrun⟩ | ⟨index, hvacancy, hrun⟩ <;>
      rcases hrest' with ⟨hvacancy', hrun'⟩ | ⟨index', hvacancy', hrun'⟩
    · exact .of_error hrun hrun' hp
    · rw [hvacancy] at hvacancy'
      cases hvacancy'
    · rw [hvacancy] at hvacancy'
      cases hvacancy'
    · rw [hvacancy] at hvacancy'
      cases hvacancy'
      have hsize : (bits.extract 0 size.dataSize).size = size.dataSize := by
        rw [Array.size_extract]
        omega
      have htable : gathered.table.size = c.table.size := by
        rw [hgathered]
        exact (thinned_gather _ _).size.trans (thinned_makeRoomFrom ..).size
      have hindex := (lt_size_of_vacancyFrom (by rw [hplaced]; exact htable.symm ▸ hpos) hvacancy).1
      refine .of_ok hrun hrun' ?_
      rw [hplaced, hplaced']
      refine hg.enter_place _ id size hsize ?_
      rw [hplaced] at hindex
      exact hindex

/-! ### Sizes that stay -/

@[simp] theorem nbands_makeRoomFrom (need : Nat) (queue : List Nat) (c : TileCache) :
    (makeRoomFrom need queue c).nbands = c.nbands := by
  induction queue generalizing c with
  | nil => rfl
  | cons i queue ih =>
    rw [makeRoomFrom]
    split
    · rfl
    · rw [ih, evict]
      split <;> rfl

@[simp]
theorem nbands_slideDown (c : TileCache) (i : Nat) : (c.slideDown i).1.nbands = c.nbands := by
  rw [slideDown]
  split
  · rfl
  · dsimp only
    split <;> rfl

@[simp] theorem nbands_gather (c : TileCache) (need : Nat) : (c.gather need).nbands = c.nbands := by
  rw [gather]
  split
  · exact compact_induction (P := fun c' => c'.nbands = c.nbands) rfl fun c' i h =>
      (nbands_slideDown c' i).trans h
  · rfl

@[simp]
theorem nbands_lookupOrAdd (id : BitmapId) (size : TileSize) (bits : Bytes) (c : TileCache) :
    (stateOf (lookupOrAdd id size bits c)).nbands = c.nbands := by
  have hroom : (c.makeRoom size.dataSize).nbands = c.nbands := nbands_makeRoomFrom ..
  rcases lookupOrAdd_cases id size bits c with ⟨index, -, hrun⟩ | ⟨-, ⟨-, hrun⟩ | ⟨-, hrun⟩ |
    ⟨-, -, -, gathered, placed, hgathered, hplaced, ⟨-, hrun⟩ | ⟨i, -, hrun⟩⟩⟩
  · rw [hrun]
    rfl
  · rw [hrun]
    rfl
  · rw [hrun]
    exact hroom
  · rw [hrun, hplaced, hgathered]
    exact (nbands_gather ..).trans hroom
  · rw [hrun, hplaced, hgathered]
    exact (nbands_gather ..).trans hroom

@[simp] theorem nbands_foldl_markBand (sent : List Nat) (band : Nat) (c : TileCache) :
    (sent.foldl (·.markBand · band) c).nbands = c.nbands := by
  induction sent generalizing c with
  | nil => rfl
  | cons i sent ih => exact (ih _).trans rfl

/-- Bands are marked in both caches. -/
theorem SameTiles.foldl_markBand (h : c.SameTiles c') (sent : List Nat) (band : Nat) :
    (sent.foldl (·.markBand · band) c).SameTiles (sent.foldl (·.markBand · band) c') := by
  induction sent generalizing c c' with
  | nil => exact h
  | cons i sent ih =>
    refine ih ?_
    show (c.markBand i band).SameTiles (c'.markBand i band)
    have hrest : c'.markBand i band = { c.markBand i band with heap := c'.heap } := by
      rw [h.rest]
      rfl
    rw [hrest]
    refine h.of_entries rfl fun j e he => ?_
    obtain ⟨before, hbefore, hslot, -⟩ := exists_of_entryAt_markBand he
    exact ⟨j, before, hbefore, hslot.symm⟩

/-- What is left of the tiles in a cache that was reset is bytes between tiles. -/
theorem SameTiles.reset (h : c.SameTiles c') : c.reset.SameTiles c'.reset := by
  refine ⟨?_, h.heapSize, fun i e he => ?_⟩
  · rw [h.rest]
    rfl
  · rw [entryAt_reset] at he
    cases he

end BandedPage.TileCache
