import Mathlib
import BandedPage.Proofs.Bits.Basic
import BandedPage.Proofs.Computation
import BandedPage.Tile.Cache

/-!
# Looking for a tile and making room for it

An entry says where a bitmap lies and which bands have been sent it; marking a band adds a band to an
entry and changes nothing else. Making room only takes entries away or moves them, so a name that was
not in the table does not get into it that way, and one that is added is found where it was put.
Whoever looks again for what was looked for before gets the same answer and changes nothing more.
-/

namespace BandedPage

namespace BandSet

theorem contains_of_insert {s : BandSet} {a b : Nat} (h : (s.insert a).contains b = true) :
    b = a ∨ s.contains b = true := by
  by_cases hcap : a < s.capacity
  · rw [contains_insert s a b hcap, Bool.or_eq_true, decide_eq_true_eq] at h
    exact h.symm.imp_left Eq.symm
  · rw [insert, if_neg hcap] at h
    exact .inr h

end BandSet

namespace TileCache

variable {c : TileCache} {index : Nat} {entry : TileEntry}

@[simp] theorem entryAt_empty (bytes slots nbands index : Nat) :
    (empty bytes slots nbands).entryAt index = none := by
  by_cases hindex : index < slots
  · simp [entryAt, empty, hindex, CacheCell.toEntry]
  · simp [entryAt, empty, hindex]

@[simp] theorem entryAt_reset (c : TileCache) (index : Nat) : c.reset.entryAt index = none := by
  by_cases hindex : index < c.table.size
  · simp [entryAt, reset, hindex, CacheCell.toEntry]
  · simp [entryAt, reset, hindex]

@[simp]
theorem entryAt_modifyEntry (c : TileCache) (i : Nat) (f : TileEntry → TileEntry) (index : Nat) :
    (c.modifyEntry i f).entryAt index =
      if i = index then (c.entryAt index).map f else c.entryAt index := by
  simp only [entryAt, modifyEntry, Array.getElem?_modify]
  by_cases heq : i = index
  · subst heq
    rw [if_pos rfl, if_pos rfl]
    cases c.table[i]? with
    | none => rfl
    | some cell => cases cell <;> rfl
  · rw [if_neg heq, if_neg heq]

/-- Every entry after marking was there before, with at most one band less. -/
theorem exists_of_entryAt_markBand {i band : Nat}
    (h : (c.markBand i band).entryAt index = some entry) :
    ∃ before, c.entryAt index = some before ∧ entry.slot = before.slot ∧ entry.id = before.id ∧
      ∀ b, entry.bands.contains b = true →
        before.bands.contains b = true ∨ (b = band ∧ index = i) := by
  rw [markBand, entryAt_modifyEntry] at h
  by_cases heq : i = index
  · rw [if_pos heq, Option.map_eq_some_iff] at h
    obtain ⟨before, hbefore, rfl⟩ := h
    refine ⟨before, hbefore, rfl, rfl, fun b hb => ?_⟩
    exact (BandSet.contains_of_insert hb).symm.imp_right fun h => ⟨h, heq.symm⟩
  · rw [if_neg heq] at h
    exact ⟨entry, h, rfl, rfl, fun b hb => .inl hb⟩

/-- The bits at several places were sent to a band. -/
theorem exists_of_entryAt_foldl_markBand {sent : List Nat} {band : Nat}
    (h : (sent.foldl (·.markBand · band) c).entryAt index = some entry) :
    ∃ before, c.entryAt index = some before ∧ entry.slot = before.slot ∧ entry.id = before.id ∧
      ∀ b, entry.bands.contains b = true →
        before.bands.contains b = true ∨ (b = band ∧ index ∈ sent) := by
  induction sent generalizing c with
  | nil => exact ⟨entry, h, rfl, rfl, fun b hb => .inl hb⟩
  | cons i sent ih =>
    obtain ⟨entry', hentry', hslot', hid', hbands'⟩ := ih h
    obtain ⟨before, hbefore, hslot, hid, hbands⟩ := exists_of_entryAt_markBand hentry'
    refine ⟨before, hbefore, hslot'.trans hslot, hid'.trans hid, fun b hb => ?_⟩
    rcases hbands' b hb with hb | ⟨rfl, hmem⟩
    · rcases hbands b hb with hb | ⟨rfl, rfl⟩
      · exact .inl hb
      · exact .inr ⟨rfl, List.mem_cons_self⟩
    · exact .inr ⟨rfl, List.mem_cons_of_mem i hmem⟩

end TileCache

namespace CacheCell

/-- What may become of a cell when room is made: an entry leaves, or it moves and no band knows
it. -/
inductive Thins : CacheCell → CacheCell → Prop where
  | same (cell : CacheCell) : Thins cell cell
  | left (e : TileEntry) : Thins (.used e) .vacated
  | moved (e : TileEntry) (offset : Nat) :
    Thins (.used e) (.used { e with slot := { e.slot with offset }, bands := e.bands.clear })

theorem Thins.trans {a b c : CacheCell} (h : Thins a b) (h' : Thins b c) : Thins a c := by
  cases h with
  | same => exact h'
  | left e =>
    cases h' with
    | same => exact .left e
  | moved e offset =>
    cases h' with
    | same => exact .moved e offset
    | left => exact .left e
    | moved _ offset' => exact .moved e offset'

end CacheCell

namespace TileCache

variable {c c' c'' : TileCache} {id : BitmapId} {index n need : Nat}

/-- Where a name is looked for depends on the size of the table only. -/
theorem probe_eq_of_size (h : c'.table.size = c.table.size) (id : BitmapId) (k : Nat) :
    c'.probe id k = c.probe id k := by
  rw [probe, probe, mask, mask, h]

/-- `c'` is what is left of `c` after room was made. -/
structure Thinned (c c' : TileCache) : Prop where
  size : c'.table.size = c.table.size
  heap : c'.heap.size = c.heap.size
  cells : ∀ (i : Nat) (cell : CacheCell), c.table[i]? = some cell →
    ∃ cell' : CacheCell, c'.table[i]? = some cell' ∧ cell.Thins cell'

namespace Thinned

theorem refl (c : TileCache) : c.Thinned c := ⟨rfl, rfl, fun _ cell h => ⟨cell, h, .same cell⟩⟩

theorem trans (h : c.Thinned c') (h' : c'.Thinned c'') : c.Thinned c'' := by
  refine ⟨h'.size.trans h.size, h'.heap.trans h.heap, fun i cell hcell => ?_⟩
  obtain ⟨cell', hcell', hthins⟩ := h.cells i cell hcell
  obtain ⟨cell'', hcell'', hthins'⟩ := h'.cells i cell' hcell'
  exact ⟨cell'', hcell'', hthins.trans hthins'⟩

/-- Bytes, counts and the queue are no part of the table. -/
theorem of_table (htable : c'.table = c.table) (hheap : c'.heap.size = c.heap.size) :
    c.Thinned c' := by
  refine ⟨by rw [htable], hheap, fun i cell hcell => ?_⟩
  exact ⟨cell, by rw [htable, hcell], .same cell⟩

theorem probe (h : c.Thinned c') (id : BitmapId) (k : Nat) : c'.probe id k = c.probe id k :=
  probe_eq_of_size h.size id k

end Thinned

theorem used_of_entryAt {e : TileEntry} (h : c.entryAt index = some e) :
    c.table[index]? = some (.used e) := by
  rw [entryAt, Option.bind_eq_some_iff] at h
  obtain ⟨cell, hcell, he⟩ := h
  cases cell with
  | free => cases he
  | vacated => cases he
  | used e' =>
    cases he
    exact hcell

theorem thinned_evict (c : TileCache) (index : Nat) : c.Thinned (c.evict index) := by
  rw [evict]
  split
  · next e he =>
    have hused := used_of_entryAt he
    refine ⟨Array.size_setIfInBounds .., rfl, fun i cell hcell => ?_⟩
    obtain ⟨hi, -⟩ := Array.getElem?_eq_some_iff.mp hcell
    simp only [Array.getElem?_setIfInBounds]
    by_cases heq : index = i
    · subst heq
      rw [if_pos rfl, if_pos hi]
      rw [hused, Option.some.injEq] at hcell
      exact ⟨_, rfl, hcell ▸ .left e⟩
    · rw [if_neg heq]
      exact ⟨cell, hcell, .same cell⟩
  · exact .refl c

theorem thinned_makeRoomFrom (need : Nat) (queue : List Nat) (c : TileCache) :
    c.Thinned (makeRoomFrom need queue c) := by
  induction queue generalizing c with
  | nil => exact .of_table rfl rfl
  | cons i queue ih =>
    rw [makeRoomFrom]
    split
    · exact .of_table rfl rfl
    · exact (thinned_evict c i).trans (ih (c.evict i))

theorem thinned_slideDown (c : TileCache) (index : Nat) : c.Thinned (c.slideDown index).1 := by
  rw [slideDown]
  split
  · exact .refl c
  · next e he =>
    have hused := used_of_entryAt he
    dsimp only
    split
    · exact .of_table rfl rfl
    · refine ⟨Array.size_modify .., Bits.size_overwrite .., fun i cell hcell => ?_⟩
      simp only [modifyEntry, Array.getElem?_modify]
      by_cases heq : index = i
      · subst heq
        rw [if_pos rfl, hcell]
        rw [hused, Option.some.injEq] at hcell
        exact ⟨_, rfl, hcell ▸ .moved e c.top⟩
      · rw [if_neg heq]
        exact ⟨cell, hcell, .same cell⟩

/-- What holds with the top at the bottom and is kept when an entry slides down holds when all have. -/
theorem compact_induction {P : TileCache → Prop} (hstart : P { c with top := 0 })
    (hslide : ∀ c' i, P c' → P (c'.slideDown i).1) : P c.compact.1 := by
  rw [compact]
  dsimp only
  generalize c.entries.mergeSort _ = live
  suffices ∀ (n : Nat) (c' : TileCache), P c' → P (live.foldl
      (fun p entry => ((p.1.slideDown entry.1).1,
        if (p.1.slideDown entry.1).2 then p.2 + 1 else p.2)) (c', n)).1 from this 0 _ hstart
  induction live with
  | nil => exact fun _ _ h => h
  | cons entry live ih => exact fun n c' h => ih _ _ (hslide c' entry.1 h)

theorem thinned_compact (c : TileCache) : c.Thinned c.compact.1 :=
  compact_induction (.of_table rfl rfl) fun c' i h => h.trans (thinned_slideDown c' i)

/-- Making room takes entries away or moves them. -/
theorem thinned_gather (c : TileCache) (need : Nat) : c.Thinned (c.gather need) := by
  rw [gather]
  split
  · exact thinned_compact c
  · exact .refl c

theorem thinned_place (c : TileCache) (bits : Bytes) : c.Thinned (c.place bits) :=
  .of_table rfl (Bits.size_overwrite ..)

/-- Bytes are put above what is left. -/
theorem thinned_placed (c : TileCache) (need : Nat) (bits : Bytes) :
    c.Thinned (((c.makeRoom need).gather need).place bits) :=
  ((thinned_makeRoomFrom need c.queue c).trans (thinned_gather _ need)).trans (thinned_place _ bits)

/-- A name that was not found is not found in what is left. -/
theorem Thinned.findFrom_eq_none (h : c.Thinned c') (hfind : c.findFrom id n = none) :
    c'.findFrom id n = none := by
  induction n with
  | zero => rfl
  | succ n ih =>
    rw [findFrom] at hfind ⊢
    rw [h.size, h.probe]
    cases hcell : c.table[c.probe id (c.table.size - (n + 1))]? with
    | none =>
      have hcell' : c'.table[c.probe id (c.table.size - (n + 1))]? = none := by
        rw [Array.getElem?_eq_none_iff] at hcell ⊢
        rwa [h.size]
      rw [hcell] at hfind
      rw [hcell']
      exact ih hfind
    | some cell =>
      obtain ⟨cell', hcell', hthins⟩ := h.cells _ cell hcell
      rw [hcell] at hfind
      rw [hcell']
      cases hthins with
      | same =>
        cases cell with
        | free => rfl
        | vacated => exact ih hfind
        | used e =>
          dsimp only at hfind ⊢
          split at hfind
          · cases hfind
          · next hne =>
            rw [if_neg hne]
            exact ih hfind
      | left e =>
        dsimp only at hfind ⊢
        split at hfind
        · cases hfind
        · exact ih hfind
      | moved e offset =>
        dsimp only at hfind ⊢
        split at hfind
        · cases hfind
        · next hne =>
          rw [if_neg hne]
          exact ih hfind

theorem probe_lt (hpos : 0 < c.table.size) (id : BitmapId) (k : Nat) :
    c.probe id k < c.table.size := by
  have : c.probe id k ≤ c.mask := Nat.and_le_right
  rw [mask] at this
  omega

theorem lt_size_of_vacancyFrom (hpos : 0 < c.table.size) (h : c.vacancyFrom id n = some index) :
    index < c.table.size ∧ c.entryAt index = none := by
  induction n with
  | zero => cases h
  | succ n ih =>
    rw [vacancyFrom] at h
    split at h
    · exact ih h
    · next hnone =>
      cases h
      exact ⟨probe_lt hpos id _, hnone⟩

/-- A name that was not found before room was made is found where it is entered. -/
theorem Thinned.findFrom_enter (h : c.Thinned c') (hpos : 0 < c'.table.size)
    (hfind : c.findFrom id n = none) (hvacancy : c'.vacancyFrom id n = some index)
    (slot : TileSlot) : (c'.enter index id slot).findFrom id n = some index := by
  have hsize : (c'.enter index id slot).table.size = c'.table.size := Array.size_setIfInBounds ..
  have hprobe : ∀ k, (c'.enter index id slot).probe id k = c'.probe id k :=
    probe_eq_of_size hsize id
  obtain ⟨hindex, hfree⟩ := lt_size_of_vacancyFrom hpos hvacancy
  have hentered : (c'.enter index id slot).table[index]? =
      some (.used { id, slot, bands := .empty c'.nbands }) := by
    simp [enter, hindex]
  induction n with
  | zero => cases hvacancy
  | succ n ih =>
    rw [findFrom] at hfind ⊢
    rw [vacancyFrom] at hvacancy
    rw [hsize, hprobe]
    rw [← h.size, ← h.probe] at hfind
    have hi := probe_lt hpos id (c'.table.size - (n + 1))
    generalize c'.probe id (c'.table.size - (n + 1)) = i at hfind hvacancy hi ⊢
    split at hvacancy
    · next e he =>
      -- Another name is in the cell, as it was before room was made.
      have hused := used_of_entryAt he
      have hne : index ≠ i := by
        intro heq
        rw [← heq, hfree] at he
        cases he
      have hcell : (c'.enter index id slot).table[i]? = some (.used e) := by
        rw [← hused]
        exact Array.getElem?_setIfInBounds_ne hne
      obtain ⟨cell, hbefore⟩ : ∃ cell, c.table[i]? = some cell :=
        ⟨_, Array.getElem?_eq_getElem (by rwa [← h.size])⟩
      obtain ⟨cell', hcell', hthins⟩ := h.cells i cell hbefore
      rw [hused, Option.some.injEq] at hcell'
      rw [hbefore] at hfind
      rw [hcell]
      have hid : e.id ≠ id ∧ c.findFrom id n = none := by
        cases hthins with
        | same =>
          subst hcell'
          dsimp only at hfind
          split at hfind
          · cases hfind
          · next hid => exact ⟨hid, hfind⟩
        | left => cases hcell'
        | moved e' offset =>
          cases hcell'
          dsimp only at hfind
          split at hfind
          · cases hfind
          · next hid => exact ⟨hid, hfind⟩
      dsimp only
      rw [if_neg hid.1]
      exact ih hid.2 hvacancy
    · cases hvacancy
      rw [hentered]
      exact if_pos rfl

/-- What comes of looking for a bitmap, or adding it. -/
theorem lookupOrAdd_cases (id : BitmapId) (size : TileSize) (bits : Bytes) (c : TileCache) :
    (∃ index, c.find? id = some index ∧ lookupOrAdd id size bits c = .ok (.found index) c) ∨
    c.find? id = none ∧
      ((c.maxTileSize < size.dataSize ∨ bits.size < size.dataSize) ∧
        lookupOrAdd id size bits c =
          .error (.bitmapTooLarge size.dataSize c.maxTileSize) c ∨
      ((size.dataSize ≤ c.maxTileSize ∧ size.dataSize ≤ bits.size) ∧
          (c.makeRoom size.dataSize).hasRoom size.dataSize = false) ∧
        lookupOrAdd id size bits c =
          .error (.bitmapTooLarge size.dataSize (c.makeRoom size.dataSize).freeBytes)
            (c.makeRoom size.dataSize) ∨
      (c.makeRoom size.dataSize).hasRoom size.dataSize = true ∧
        size.dataSize ≤ c.maxTileSize ∧ size.dataSize ≤ bits.size ∧
        ∃ gathered placed, gathered = (c.makeRoom size.dataSize).gather size.dataSize ∧
          placed = gathered.place (bits.extract 0 size.dataSize) ∧
          (placed.vacancyFrom id placed.table.size = none ∧
              lookupOrAdd id size bits c = .error (.malformed "tile index table full") placed ∨
            ∃ index, placed.vacancyFrom id placed.table.size = some index ∧
              lookupOrAdd id size bits c = .ok (.added index)
                (placed.enter index id { offset := gathered.top, size }))) := by
  cases hfind : c.find? id with
  | some index =>
    refine .inl ⟨index, rfl, ?_⟩
    simp [lookupOrAdd, hfind]
  | none =>
    refine .inr ⟨rfl, ?_⟩
    by_cases hlarge : c.maxTileSize < size.dataSize ∨ bits.size < size.dataSize
    · refine .inl ⟨hlarge, ?_⟩
      have hrefused : (decide (c.maxTileSize < size.dataSize) ||
          decide (bits.size < size.dataSize)) = true := by
        simpa using hlarge
      simp only [lookupOrAdd, get_bind_run, hfind, if_pos hrefused, throw_bind_run]
    · refine .inr ?_
      have hfits : ¬ (decide (c.maxTileSize < size.dataSize) ||
          decide (bits.size < size.dataSize)) = true := by
        simpa using hlarge
      cases hroom : (c.makeRoom size.dataSize).hasRoom size.dataSize with
      | false =>
        refine .inl ⟨⟨⟨by omega, by omega⟩, rfl⟩, ?_⟩
        simp only [lookupOrAdd, get_bind_run, hfind, if_neg hfits, modify_bind_run, hroom,
          Bool.not_false, if_true, throw_bind_run]
      | true =>
        refine .inr ⟨rfl, by omega, by omega, _, _, rfl, rfl, ?_⟩
        cases hvacancy : (((c.makeRoom size.dataSize).gather size.dataSize).place
            (bits.extract 0 size.dataSize)).vacancyFrom id
            (((c.makeRoom size.dataSize).gather size.dataSize).place
              (bits.extract 0 size.dataSize)).table.size with
        | none =>
          refine .inl ⟨rfl, ?_⟩
          simp only [lookupOrAdd, get_bind_run, hfind, if_neg hfits, modify_bind_run, hroom,
            Bool.not_true, Bool.false_eq_true, if_false, set_bind_run, hvacancy, throw_run]
        | some index =>
          refine .inr ⟨index, rfl, ?_⟩
          simp only [lookupOrAdd, get_bind_run, hfind, if_neg hfits, modify_bind_run, hroom,
            Bool.not_true, Bool.false_eq_true, if_false, set_bind_run, hvacancy]
          rfl

theorem lookupOrAdd_of_find? (h : c.find? id = some index) (size : TileSize) (bits : Bytes) :
    lookupOrAdd id size bits c = .ok (.found index) c := by
  simp [lookupOrAdd, h]

/-- What was found or added is found from then on. -/
theorem find?_of_lookupOrAdd {size : TileSize} {bits : Bytes} {l : CacheLookup}
    (h : lookupOrAdd id size bits c = .ok l c') : c'.find? id = some l.index := by
  rcases lookupOrAdd_cases id size bits c with ⟨i, hfind, hrun⟩ | ⟨hnone, ⟨-, hrun⟩ | ⟨-, hrun⟩ |
    ⟨-, -, -, gathered, placed, hgathered, hplaced, ⟨-, hrun⟩ | ⟨i, hvacancy, hrun⟩⟩⟩
  · rw [hrun] at h
    cases h
    exact hfind
  · rw [hrun] at h
    cases h
  · rw [hrun] at h
    cases h
  · rw [hrun] at h
    cases h
  · rw [hrun] at h
    cases h
    have hthinned : c.Thinned placed := by
      rw [hplaced, hgathered]
      exact thinned_placed ..
    have hpos : 0 < placed.table.size := by
      by_contra hzero
      rw [Nat.eq_zero_of_not_pos hzero] at hvacancy
      cases hvacancy
    have hsize : (placed.enter i id { offset := gathered.top, size }).table.size =
        placed.table.size := Array.size_setIfInBounds ..
    rw [find?, hsize]
    refine hthinned.findFrom_enter hpos ?_ hvacancy _
    rw [hthinned.size]
    exact hnone

/-- The arena keeps its size. -/
theorem heap_size_of_lookupOrAdd {size : TileSize} {bits : Bytes} (c' : TileCache)
    (h : (∃ l, lookupOrAdd id size bits c = .ok l c') ∨
      ∃ e, lookupOrAdd id size bits c = .error e c') : c'.heap.size = c.heap.size := by
  have hroom : (c.makeRoom size.dataSize).heap.size = c.heap.size :=
    (thinned_makeRoomFrom _ c.queue c).heap
  rcases lookupOrAdd_cases id size bits c with ⟨i, hfind, hrun⟩ | ⟨hnone, ⟨-, hrun⟩ | ⟨-, hrun⟩ |
    ⟨-, -, -, gathered, placed, hgathered, hplaced, hlast⟩⟩
  · rw [hrun] at h
    rcases h with ⟨l, h⟩ | ⟨e, h⟩ <;> cases h
    rfl
  · rw [hrun] at h
    rcases h with ⟨l, h⟩ | ⟨e, h⟩ <;> cases h
    rfl
  · rw [hrun] at h
    rcases h with ⟨l, h⟩ | ⟨e, h⟩ <;> cases h
    exact hroom
  · have hplacedSize : placed.heap.size = c.heap.size := by
      rw [hplaced, hgathered]
      exact (thinned_placed ..).heap
    rcases hlast with ⟨-, hrun⟩ | ⟨i, -, hrun⟩ <;> rw [hrun] at h
    · rcases h with ⟨l, h⟩ | ⟨e, h⟩ <;> cases h
      exact hplacedSize
    · rcases h with ⟨l, h⟩ | ⟨e, h⟩ <;> cases h
      exact hplacedSize

/-- A lack of room in the cache is no lack of memory. -/
theorem not_isRetryable_of_lookupOrAdd {size : TileSize} {bits : Bytes} {e : Error}
    (h : lookupOrAdd id size bits c = .error e c') : e.isRetryable = false := by
  rcases lookupOrAdd_cases id size bits c with ⟨i, hfind, hrun⟩ | ⟨hnone, ⟨-, hrun⟩ | ⟨-, hrun⟩ |
    ⟨-, -, -, gathered, placed, hgathered, hplaced, ⟨-, hrun⟩ | ⟨i, hvacancy, hrun⟩⟩⟩ <;>
  · rw [hrun] at h
    cases h
    try rfl

/-- The queue is used up if it did not make room. -/
theorem queue_of_hasRoom_makeRoomFrom {queue : List Nat}
    (h : (makeRoomFrom need queue c).hasRoom need = false) :
    (makeRoomFrom need queue c).queue = [] := by
  induction queue generalizing c with
  | nil => rfl
  | cons i queue ih =>
    rw [makeRoomFrom] at h ⊢
    split at h
    · next hroom =>
      rw [hasRoom] at hroom h
      have : (c.hasRoom need) = false := h
      rw [hasRoom, hroom] at this
      cases this
    · next hroom =>
      rw [if_neg hroom]
      exact ih h

/-- A bitmap that is too large for the cache is so again. -/
theorem lookupOrAdd_again {size : TileSize} {bits : Bytes} {a b : Nat}
    (h : lookupOrAdd id size bits c = .error (.bitmapTooLarge a b) c') :
    ∃ b', lookupOrAdd id size bits c' = .error (.bitmapTooLarge a b') c' := by
  rcases lookupOrAdd_cases id size bits c with ⟨i, hfind, hrun⟩ | ⟨hnone, ⟨-, hrun⟩ |
    ⟨⟨-, hroom⟩, hrun⟩ |
    ⟨-, -, -, gathered, placed, hgathered, hplaced, ⟨-, hrun⟩ | ⟨i, hvacancy, hrun⟩⟩⟩
  · rw [hrun] at h
    cases h
  · rw [hrun] at h
    cases h
    exact ⟨_, hrun⟩
  · rw [hrun] at h
    cases h
    have hthinned := thinned_makeRoomFrom size.dataSize c.queue c
    have hfind : (c.makeRoom size.dataSize).find? id = none := by
      rw [find?]
      refine hthinned.findFrom_eq_none ?_
      show c.findFrom id (makeRoomFrom size.dataSize c.queue c).table.size = none
      rw [hthinned.size]
      exact hnone
    have hqueue : (c.makeRoom size.dataSize).queue = [] := queue_of_hasRoom_makeRoomFrom hroom
    have hagain : (c.makeRoom size.dataSize).makeRoom size.dataSize = c.makeRoom size.dataSize := by
      rw [makeRoom, hqueue, makeRoomFrom, ← hqueue]
    rcases lookupOrAdd_cases id size bits (c.makeRoom size.dataSize) with ⟨i, hfind', -⟩ | ⟨-,
      ⟨-, hrun'⟩ | ⟨-, hrun'⟩ | ⟨hroom', -⟩⟩
    · rw [hfind] at hfind'
      cases hfind'
    · exact ⟨_, hrun'⟩
    · rw [hagain] at hrun'
      exact ⟨_, hrun'⟩
    · rw [hagain, hroom] at hroom'
      cases hroom'
  · rw [hrun] at h
    cases h
  · rw [hrun] at h
    cases h

end TileCache

end BandedPage
