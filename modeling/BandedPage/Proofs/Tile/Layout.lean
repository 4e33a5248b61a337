import Mathlib
import BandedPage.Proofs.Tile.Lookup

/-!
# Where tiles lie

The entries of a cache share no byte and lie below its top. Making room takes some away and moves
others, which no band knows then; an entry that some band knows stays where it is, with its bits. When
all entries have slid down they lie at the bottom of the arena with no byte between them, in the order
in which they lay. So an entry that has bytes does not move again.
-/

namespace BandedPage

namespace TileSlot

/-- One past the last byte. -/
def stop (slot : TileSlot) : Nat := slot.offset + slot.size.dataSize

/-- No byte belongs to both. -/
def Apart (a b : TileSlot) : Prop := a.stop ≤ b.offset ∨ b.stop ≤ a.offset

theorem Apart.symm {a b : TileSlot} (h : a.Apart b) : b.Apart a := h.elim .inr .inl

/-- Of two slots the one that does not begin first lies behind the other, or has no bytes. -/
theorem Apart.behind {a b : TileSlot} (h : a.Apart b) (hle : a.offset ≤ b.offset) :
    b.size.dataSize = 0 ∨ a.stop ≤ b.offset := by
  rcases h with happ | happ
  · exact .inr happ
  · rw [stop] at happ
    omega

end TileSlot

namespace TileCache

variable {c c' c'' : TileCache} {index : Nat} {entry : TileEntry}

/-- The bytes that lie in a slot. -/
def bytesIn (c : TileCache) (slot : TileSlot) : Bytes := c.heap.extract slot.offset slot.stop

/-- Entries lie below the top of the arena and share no byte. -/
structure Layout (c : TileCache) : Prop where
  top_le : c.top ≤ c.heap.size
  below : ∀ i e, c.entryAt i = some e → e.slot.stop ≤ c.top
  apart : ∀ i j e e', i ≠ j → c.entryAt i = some e → c.entryAt j = some e' → e.slot.Apart e'.slot

/-- The entries of `c'` are entries of `c` with the same bits, and at the same places if bands know
of them. -/
structure Retains (c c' : TileCache) : Prop where
  tableSize : c'.table.size = c.table.size
  heapSize : c'.heap.size = c.heap.size
  entries : ∀ i e', c'.entryAt i = some e' → ∃ e, c.entryAt i = some e ∧ e.id = e'.id ∧
    e.slot.size = e'.slot.size ∧ c'.bytesIn e'.slot = c.bytesIn e.slot ∧
    ∀ band, e'.bands.contains band = true → e.slot = e'.slot ∧ e.bands.contains band = true

namespace Retains

theorem refl (c : TileCache) : c.Retains c :=
  ⟨rfl, rfl, fun _ e he => ⟨e, he, rfl, rfl, rfl, fun _ hband => ⟨rfl, hband⟩⟩⟩

theorem trans (h : c.Retains c') (h' : c'.Retains c'') : c.Retains c'' := by
  refine ⟨h'.tableSize.trans h.tableSize, h'.heapSize.trans h.heapSize, ?_⟩
  intro i e'' he''
  obtain ⟨e', he', hid', hsize', hbytes', hknown'⟩ := h'.entries i e'' he''
  obtain ⟨e, he, hid, hsize, hbytes, hknown⟩ := h.entries i e' he'
  refine ⟨e, he, hid.trans hid', hsize.trans hsize', hbytes'.trans hbytes, fun band hband => ?_⟩
  obtain ⟨hslot', hband'⟩ := hknown' band hband
  obtain ⟨hslot, hband⟩ := hknown band hband'
  exact ⟨hslot.trans hslot', hband⟩

/-- An entry that some band knows is where it was. -/
theorem known {e' : TileEntry} {band : Nat} (h : c.Retains c') (he' : c'.entryAt index = some e')
    (hband : e'.bands.contains band = true) :
    ∃ e, c.entryAt index = some e ∧ e.id = e'.id ∧ e.slot = e'.slot := by
  obtain ⟨e, he, hid, -, -, hknown⟩ := h.entries index e' he'
  exact ⟨e, he, hid, (hknown band hband).1⟩

end Retains

theorem layout_of_no_entries (htop : c.top ≤ c.heap.size) (h : ∀ i, c.entryAt i = none) :
    c.Layout where
  top_le := htop
  below i e he := by
    rw [h i] at he
    cases he
  apart i _ e _ _ he := by
    rw [h i] at he
    cases he

/-! ### Entries that leave -/

@[simp] theorem entryAt_evict (c : TileCache) (i index : Nat) :
    (c.evict i).entryAt index = if index = i then none else c.entryAt index := by
  rw [evict]
  split
  · next e he =>
    have hused := used_of_entryAt he
    obtain ⟨hi, -⟩ := Array.getElem?_eq_some_iff.mp hused
    simp only [entryAt, Array.getElem?_setIfInBounds]
    by_cases heq : index = i
    · subst heq
      rw [if_pos rfl, if_pos hi, if_pos rfl]
      rfl
    · rw [if_neg (Ne.symm heq), if_neg heq]
  · next hnone =>
    split
    · next heq => rw [heq, hnone]
    · rfl

/-- Entries lie where entries lay, in the same arena. -/
theorem Layout.of_slots (h : c.Layout) (htop : c'.top = c.top) (hheap : c'.heap.size = c.heap.size)
    (hentries : ∀ i e', c'.entryAt i = some e' → ∃ e, c.entryAt i = some e ∧ e'.slot = e.slot) :
    c'.Layout where
  top_le := by
    rw [htop, hheap]
    exact h.top_le
  below i e' he' := by
    obtain ⟨e, he, hslot⟩ := hentries i e' he'
    rw [htop, hslot]
    exact h.below i e he
  apart i j e e' hne he he' := by
    obtain ⟨before, hbefore, hslot⟩ := hentries i e he
    obtain ⟨before', hbefore', hslot'⟩ := hentries j e' he'
    rw [hslot, hslot']
    exact h.apart i j before before' hne hbefore hbefore'

/-- What is left when room is made lies where it lay. -/
structure Left (c c' : TileCache) : Prop where
  tableSize : c'.table.size = c.table.size
  heap : c'.heap = c.heap
  top : c'.top = c.top
  entries : ∀ i e, c'.entryAt i = some e → c.entryAt i = some e

namespace Left

theorem layout (h : c.Left c') (hc : c.Layout) : c'.Layout :=
  hc.of_slots h.top (by rw [h.heap]) fun i e he => ⟨e, h.entries i e he, rfl⟩

theorem retains (h : c.Left c') : c.Retains c' := by
  refine ⟨h.tableSize, by rw [h.heap], fun i e he => ?_⟩
  exact ⟨e, h.entries i e he, rfl, rfl, by rw [bytesIn, bytesIn, h.heap],
    fun _ hband => ⟨rfl, hband⟩⟩

end Left

theorem left_evict (c : TileCache) (i : Nat) : c.Left (c.evict i) := by
  refine ⟨(thinned_evict c i).size, ?_, ?_, fun index e he => ?_⟩
  · rw [evict]
    split <;> rfl
  · rw [evict]
    split <;> rfl
  · rw [entryAt_evict] at he
    split at he
    · cases he
    · exact he

theorem left_makeRoomFrom (need : Nat) (queue : List Nat) (c : TileCache) :
    c.Left (makeRoomFrom need queue c) := by
  induction queue generalizing c with
  | nil => exact ⟨rfl, rfl, rfl, fun _ _ he => he⟩
  | cons i queue ih =>
    rw [makeRoomFrom]
    split
    · exact ⟨rfl, rfl, rfl, fun _ _ he => he⟩
    · have h := left_evict c i
      have h' := ih (c.evict i)
      exact ⟨h'.tableSize.trans h.tableSize, h'.heap.trans h.heap, h'.top.trans h.top,
        fun index e he => h.entries index e (h'.entries index e he)⟩

/-! ### Entries that move -/

@[simp]
theorem mem_entries {e : TileEntry} : (index, e) ∈ c.entries ↔ c.entryAt index = some e := by
  rw [entries, entryAt, List.mem_filterMap]
  constructor
  · rintro ⟨⟨cell, i⟩, hmem, heq⟩
    rw [List.mem_zipIdx_iff_getElem?] at hmem
    obtain ⟨e', he', hpair⟩ := Option.map_eq_some_iff.mp heq
    cases hpair
    rw [← Array.getElem?_toList, hmem]
    exact he'
  · intro h
    obtain ⟨cell, hcell, he⟩ := Option.bind_eq_some_iff.mp h
    refine ⟨(cell, index), ?_, ?_⟩
    · rw [List.mem_zipIdx_iff_getElem?, Array.getElem?_toList]
      exact hcell
    · show cell.toEntry.map (index, ·) = _
      rw [he]
      rfl

/-- Every entry is listed once. -/
theorem pairwise_entries (c : TileCache) : c.entries.Pairwise fun a b => a.1 ≠ b.1 := by
  rw [entries, List.pairwise_filterMap]
  have hnodup : (c.table.toList.zipIdx).Pairwise fun a b => a.2 ≠ b.2 := by
    have : (List.range' 0 c.table.toList.length).Nodup := List.nodup_range' ..
    rw [← List.zipIdx_map_snd 0 c.table.toList] at this
    exact List.pairwise_map.mp this
  refine hnodup.imp fun {a b} hne p hp p' hp' => ?_
  obtain ⟨e, -, rfl⟩ := Option.map_eq_some_iff.mp hp
  obtain ⟨e', -, rfl⟩ := Option.map_eq_some_iff.mp hp'
  exact hne

/-- Bytes of some entries. -/
def sizeOf (live : List (Nat × TileEntry)) : Nat :=
  (live.map fun entry => entry.2.slot.size.dataSize).sum

theorem liveBytes_eq (c : TileCache) : c.liveBytes = sizeOf c.entries := by
  rw [liveBytes, sizeOf, List.sum_eq_foldl, List.foldl_map]

/-- The entries of `todo` have still to slide down; the others lie below the top already. -/
structure Sliding (c c' : TileCache) (todo : List (Nat × TileEntry)) : Prop where
  retains : c.Retains c'
  waits : ∀ p ∈ todo, c.entryAt p.1 = some p.2 ∧ c'.entryAt p.1 = some p.2 ∧
    c'.bytesIn p.2.slot = c.bytesIn p.2.slot
  once : todo.Pairwise fun a b => a.1 ≠ b.1
  sorted : todo.Pairwise fun a b => a.2.slot.offset ≤ b.2.slot.offset
  /-- Entries without bytes may lie anywhere. -/
  above : ∀ p ∈ todo, p.2.slot.size.dataSize = 0 ∨ c'.top ≤ p.2.slot.offset
  below : ∀ i e, c'.entryAt i = some e → (∀ p ∈ todo, p.1 ≠ i) → e.slot.stop ≤ c'.top
  apart : ∀ i j e e', i ≠ j → c'.entryAt i = some e → c'.entryAt j = some e' →
    (∀ p ∈ todo, p.1 ≠ i) → (∀ p ∈ todo, p.1 ≠ j) → e.slot.Apart e'.slot
  top_le : c'.top ≤ c'.heap.size
  total : c'.top + sizeOf todo = sizeOf c.entries

theorem slideDown_of_eq (h : c.entryAt index = some entry) (htop : entry.slot.offset = c.top) :
    (c.slideDown index).1 = { c with top := c.top + entry.slot.size.dataSize } := by
  simp only [slideDown, h, if_pos htop]

theorem moved_slideDown_of_eq (h : c.entryAt index = some entry) (htop : entry.slot.offset = c.top) :
    (c.slideDown index).2 = false := by
  simp only [slideDown, h, if_pos htop]

/-- The cache when an entry has slid down to its top. -/
def slid (c : TileCache) (index : Nat) (entry : TileEntry) : TileCache :=
  { c.modifyEntry index fun e =>
      { e with slot := { e.slot with offset := c.top }, bands := e.bands.clear } with
    heap := Bits.overwrite c.heap c.top (c.bytesIn entry.slot).toList
    top := c.top + entry.slot.size.dataSize }

theorem slideDown_of_ne (h : c.entryAt index = some entry) (htop : entry.slot.offset ≠ c.top) :
    (c.slideDown index).1 = c.slid index entry := by
  simp only [slideDown, h, if_neg htop]
  rfl

theorem entryAt_slid (h : c.entryAt index = some entry) (i : Nat) :
    (c.slid index entry).entryAt i = if i = index then
      some { entry with
        slot := { entry.slot with offset := c.top }, bands := entry.bands.clear }
      else c.entryAt i := by
  have := entryAt_modifyEntry c index
    (fun e => { e with slot := { e.slot with offset := c.top }, bands := e.bands.clear }) i
  by_cases heq : i = index
  · subst heq
    rw [if_pos rfl, h] at this
    rw [if_pos rfl]
    exact this
  · rw [if_neg (Ne.symm heq)] at this
    rw [if_neg heq]
    exact this

namespace Sliding

variable {i : Nat} {e : TileEntry} {rest : List (Nat × TileEntry)}

/-- The slots that are still to come lie behind the first one, but for those without bytes. -/
theorem behind (hc : c.Layout) (h : c.Sliding c' ((i, e) :: rest)) {p : Nat × TileEntry}
    (hp : p ∈ rest) :
    p.2.slot.size.dataSize = 0 ∨ e.slot.stop ≤ p.2.slot.offset := by
  have hle : e.slot.offset ≤ p.2.slot.offset := (List.pairwise_cons.mp h.sorted).1 p hp
  have hne : i ≠ p.1 := (List.pairwise_cons.mp h.once).1 p hp
  have hfirst := (h.waits (i, e) List.mem_cons_self).1
  have hthis := (h.waits p (List.mem_cons_of_mem _ hp)).1
  exact (hc.apart i p.1 e p.2 hne hfirst hthis).behind hle

theorem stop_le (hc : c.Layout) (h : c.Sliding c' ((i, e) :: rest)) :
    e.slot.stop ≤ c'.heap.size := by
  rw [h.retains.heapSize]
  exact (hc.below i e (h.waits (i, e) List.mem_cons_self).1).trans hc.top_le

/-- There are enough bytes where the first entry is to lie. -/
theorem top_add_le (hc : c.Layout) (h : c.Sliding c' ((i, e) :: rest)) :
    c'.top + e.slot.size.dataSize ≤ c'.heap.size := by
  rcases h.above (i, e) List.mem_cons_self with hzero | habove
  · have hzero : e.slot.size.dataSize = 0 := hzero
    rw [hzero]
    exact h.top_le
  · exact (Nat.add_le_add_right habove _).trans (h.stop_le hc)

theorem length_bytesIn (hc : c.Layout) (h : c.Sliding c' ((i, e) :: rest)) :
    (c'.bytesIn e.slot).toList.length = e.slot.size.dataSize := by
  have := h.stop_le hc
  rw [TileSlot.stop] at this
  rw [bytesIn, Array.length_toList, Array.size_extract, TileSlot.stop]
  omega

/-- The first entry lies where it is to lie. -/
theorem stay (hc : c.Layout) (h : c.Sliding c' ((i, e) :: rest)) (htop : e.slot.offset = c'.top) :
    c.Sliding { c' with top := c'.top + e.slot.size.dataSize } rest := by
  have hstop : e.slot.stop = c'.top + e.slot.size.dataSize := by rw [TileSlot.stop, htop]
  have hrest : ∀ {j}, (∀ p ∈ rest, p.1 ≠ j) → j ≠ i → ∀ p ∈ (i, e) :: rest, p.1 ≠ j := by
    intro j hj hne p hp
    rcases List.mem_cons.mp hp with rfl | hp
    · exact Ne.symm hne
    · exact hj p hp
  have hbelow : ∀ j e', c'.entryAt j = some e' → (∀ p ∈ rest, p.1 ≠ j) → j ≠ i →
      e'.slot.stop ≤ c'.top := fun j e' he' hj hne => h.below j e' he' (hrest hj hne)
  have hfirst := (h.waits (i, e) List.mem_cons_self).2.1
  refine ⟨⟨h.retains.tableSize, h.retains.heapSize, h.retains.entries⟩,
    fun p hp => h.waits p (List.mem_cons_of_mem _ hp), (List.pairwise_cons.mp h.once).2,
    (List.pairwise_cons.mp h.sorted).2, fun p hp => ?_, fun j e' he' hj => ?_,
    fun j k e' e'' hne he' he'' hj hk => ?_, ?_, ?_⟩
  · show _ ∨ c'.top + e.slot.size.dataSize ≤ p.2.slot.offset
    rw [← hstop]
    exact h.behind hc hp
  · show e'.slot.stop ≤ c'.top + e.slot.size.dataSize
    by_cases heq : j = i
    · subst heq
      cases hfirst.symm.trans he'
      exact hstop.le
    · exact (hbelow j e' he' hj heq).trans (Nat.le_add_right ..)
  · by_cases heq : j = i
    · subst heq
      cases hfirst.symm.trans he'
      exact .inr (htop ▸ hbelow k e'' he'' hk (Ne.symm hne))
    · by_cases heq' : k = i
      · subst heq'
        cases hfirst.symm.trans he''
        exact .inl (htop ▸ hbelow j e' he' hj hne)
      · exact h.apart j k e' e'' hne he' he'' (hrest hj heq) (hrest hk heq')
  · show c'.top + e.slot.size.dataSize ≤ c'.heap.size
    rw [← hstop]
    exact h.stop_le hc
  · have := h.total
    simp only [sizeOf, List.map_cons, List.sum_cons] at this ⊢
    omega

/-- Bytes outside of where the first entry slides to are as before. -/
theorem bytesIn_slid (hc : c.Layout) (h : c.Sliding c' ((i, e) :: rest)) {slot : TileSlot}
    (hslot : slot.size.dataSize = 0 ∨ slot.stop ≤ c'.top ∨ e.slot.stop ≤ slot.offset) :
    (c'.slid i e).bytesIn slot = c'.bytesIn slot := by
  have hlength := h.length_bytesIn hc
  rcases hslot with hzero | hslot
  · have hnone : ∀ heap : Bytes, heap.extract slot.offset slot.stop = #[] := by
      intro heap
      refine Array.size_eq_zero_iff.mp ?_
      rw [Array.size_extract, TileSlot.stop, hzero]
      omega
    rw [bytesIn, bytesIn, hnone, hnone]
  · rcases h.above (i, e) List.mem_cons_self with hnone | habove
    · -- Nothing moves when the first entry has no bytes.
      have hnil : (c'.bytesIn e.slot).toList = [] :=
        List.length_eq_zero_iff.mp (hlength.trans hnone)
      rw [bytesIn, slid, hnil]
      rfl
    · refine Bits.extract_overwrite_of_disjoint ?_
      rw [hlength]
      exact hslot.imp_right (Nat.add_le_add_right habove _).trans

/-- The first entry slides down. -/
theorem move (hc : c.Layout) (h : c.Sliding c' ((i, e) :: rest)) :
    c.Sliding (c'.slid i e) rest := by
  have hfirst := (h.waits (i, e) List.mem_cons_self).2.1
  have hentry := entryAt_slid hfirst
  have hrest : ∀ {j}, (∀ p ∈ rest, p.1 ≠ j) → j ≠ i → ∀ p ∈ (i, e) :: rest, p.1 ≠ j := by
    intro j hj hne p hp
    rcases List.mem_cons.mp hp with rfl | hp
    · exact Ne.symm hne
    · exact hj p hp
  have hbelow : ∀ j e', c'.entryAt j = some e' → (∀ p ∈ rest, p.1 ≠ j) → j ≠ i →
      e'.slot.stop ≤ c'.top := fun j e' he' hj hne => h.below j e' he' (hrest hj hne)
  refine ⟨⟨(Array.size_modify ..).trans h.retains.tableSize,
      (Bits.size_overwrite ..).trans h.retains.heapSize, fun j e' he' => ?_⟩,
    fun p hp => ?_, (List.pairwise_cons.mp h.once).2, (List.pairwise_cons.mp h.sorted).2,
    fun p hp => ?_, fun j e' he' hj => ?_, fun j k e' e'' hne he' he'' hj hk => ?_, ?_, ?_⟩
  · rw [hentry] at he'
    split at he'
    · next heq =>
      subst heq
      cases he'
      obtain ⟨hbefore, -, hbytes⟩ := h.waits _ List.mem_cons_self
      refine ⟨e, hbefore, rfl, rfl, ?_, fun band hband => ?_⟩
      · have hlength := h.length_bytesIn hc
        have hwritten := Bits.extract_overwrite
          (show c'.top + (c'.bytesIn e.slot).toList.length ≤ c'.heap.size from
            hlength.symm ▸ h.top_add_le hc)
        rw [hlength] at hwritten
        rw [← hbytes]
        exact Array.toList_inj.mp hwritten
      · rw [BandSet.contains_clear] at hband
        cases hband
    · next hne =>
      obtain ⟨before, hbefore, hid, hsize, hbytes, hknown⟩ := h.retains.entries j e' he'
      refine ⟨before, hbefore, hid, hsize, ?_, hknown⟩
      rw [h.bytesIn_slid hc, hbytes]
      by_cases hmem : ∃ p ∈ rest, p.1 = j
      · obtain ⟨p, hp, rfl⟩ := hmem
        cases (h.waits p (List.mem_cons_of_mem _ hp)).2.1.symm.trans he'
        exact (h.behind hc hp).imp_right .inr
      · exact .inr (.inl (hbelow j e' he' (fun p hp heq => hmem ⟨p, hp, heq⟩) hne))
  · obtain ⟨hbefore, hnow, hbytes⟩ := h.waits p (List.mem_cons_of_mem _ hp)
    refine ⟨hbefore, ?_, ?_⟩
    · rw [hentry, if_neg (Ne.symm ((List.pairwise_cons.mp h.once).1 p hp)), hnow]
    · rw [h.bytesIn_slid hc ((h.behind hc hp).imp_right .inr), hbytes]
  · show _ ∨ c'.top + e.slot.size.dataSize ≤ p.2.slot.offset
    rcases h.above (i, e) List.mem_cons_self with hzero | habove
    · have hzero : e.slot.size.dataSize = 0 := hzero
      rw [hzero]
      exact h.above p (List.mem_cons_of_mem _ hp)
    · exact (h.behind hc hp).imp_right (Nat.add_le_add_right habove _).trans
  · show e'.slot.stop ≤ c'.top + e.slot.size.dataSize
    rw [hentry] at he'
    split at he'
    · cases he'
      exact le_rfl
    · next hne => exact (hbelow j e' he' hj hne).trans (Nat.le_add_right ..)
  · rw [hentry] at he' he''
    split at he'
    · next heq =>
      rw [if_neg fun heq' => hne (heq.trans heq'.symm)] at he''
      cases he'
      exact .inr (hbelow k e'' he'' hk fun heq' => hne (heq.trans heq'.symm))
    · next hne' =>
      split at he''
      · cases he''
        exact .inl (hbelow j e' he' hj hne')
      · next hne'' => exact h.apart j k e' e'' hne he' he'' (hrest hj hne') (hrest hk hne'')
  · show c'.top + e.slot.size.dataSize ≤ (Bits.overwrite ..).size
    rw [Bits.size_overwrite]
    exact h.top_add_le hc
  · have := h.total
    simp only [sizeOf, List.map_cons, List.sum_cons] at this ⊢
    show c'.top + e.slot.size.dataSize + _ = _
    omega

theorem slideDown (hc : c.Layout) (h : c.Sliding c' ((i, e) :: rest)) :
    c.Sliding (c'.slideDown i).1 rest := by
  have hfirst := (h.waits (i, e) List.mem_cons_self).2.1
  by_cases htop : e.slot.offset = c'.top
  · rw [slideDown_of_eq hfirst htop]
    exact h.stay hc htop
  · rw [slideDown_of_ne hfirst htop]
    exact h.move hc

/-- All entries have slid down. -/
theorem layout (h : c.Sliding c' []) : c'.Layout where
  top_le := h.top_le
  below i e he := h.below i e he (by simp)
  apart i j e e' hne he he' := h.apart i j e e' hne he he' (by simp) (by simp)

/-- What the entries hold lies below the top without a gap. -/
theorem top_eq (h : c.Sliding c' []) : c'.top = c.liveBytes := by
  rw [liveBytes_eq, ← h.total]
  rfl

end Sliding

/-- At first all entries have to slide down, lowest first. -/
theorem sliding_start :
    c.Sliding { c with top := 0 }
      (c.entries.mergeSort fun a b => decide (a.2.slot.offset ≤ b.2.slot.offset)) := by
  obtain ⟨live, hlive⟩ : ∃ live, live = c.entries.mergeSort
    fun a b => decide (a.2.slot.offset ≤ b.2.slot.offset) := ⟨_, rfl⟩
  have hperm : live.Perm c.entries := hlive ▸ List.mergeSort_perm ..
  have hsorted : live.Pairwise fun a b => a.2.slot.offset ≤ b.2.slot.offset := by
    rw [hlive]
    refine (List.pairwise_mergeSort (fun a b d hab hbd => ?_) (fun a b => ?_) c.entries).imp
      fun h => of_decide_eq_true h
    · simp only [decide_eq_true_eq] at hab hbd ⊢
      exact hab.trans hbd
    · simp only [Bool.or_eq_true, decide_eq_true_eq]
      exact Nat.le_total ..
  rw [← hlive]
  have hall : ∀ j e, c.entryAt j = some e → ¬ ∀ p ∈ live, p.1 ≠ j := fun j e he hj =>
    hj (j, e) (hperm.mem_iff.mpr (mem_entries.mpr he)) rfl
  refine ⟨⟨rfl, rfl, fun j e he => ⟨e, he, rfl, rfl, rfl, fun _ hband => ⟨rfl, hband⟩⟩⟩,
    fun p hp => ?_, hperm.symm.pairwise c.pairwise_entries fun h => Ne.symm h, hsorted,
    fun p _ => .inr (Nat.zero_le _), fun j e he hj => absurd hj (hall j e he),
    fun j k e e' _ he _ hj _ => absurd hj (hall j e he), Nat.zero_le _, ?_⟩
  · have hentry := mem_entries.mp (hperm.mem_iff.mp hp)
    exact ⟨hentry, hentry, rfl⟩
  · rw [Nat.zero_add]
    exact (hperm.map _).sum_eq

/-- What holds with the top at the bottom and is kept when the next entry slides down holds, with the
number of those that moved, when all have. -/
theorem compact_sliding (hc : c.Layout) {P : TileCache → Nat → Prop} (hstart : P { c with top := 0 } 0)
    (hslide : ∀ c' n i e rest, c.Sliding c' ((i, e) :: rest) → P c' n →
      P (c'.slideDown i).1 (if (c'.slideDown i).2 then n + 1 else n)) :
    c.Sliding c.compact.1 [] ∧ P c.compact.1 c.compact.2 := by
  rw [compact]
  dsimp only
  have hsliding := sliding_start (c := c)
  generalize c.entries.mergeSort _ = live at hsliding
  suffices ∀ (n : Nat) (c' : TileCache), c.Sliding c' live → P c' n → ∀ r, r = live.foldl
      (fun p entry => ((p.1.slideDown entry.1).1,
        if (p.1.slideDown entry.1).2 then p.2 + 1 else p.2)) (c', n) →
      c.Sliding r.1 [] ∧ P r.1 r.2 from this 0 _ hsliding hstart _ rfl
  clear hsliding
  induction live with
  | nil =>
    rintro n c' h hp _ rfl
    exact ⟨h, hp⟩
  | cons entry live ih => exact fun n c' h hp => ih _ _ (h.slideDown hc) (hslide c' n _ _ live h hp)

/-- Sliding all entries down leaves no bytes between them. -/
theorem sliding_compact (hc : c.Layout) : c.Sliding c.compact.1 [] :=
  (compact_sliding hc (P := fun _ _ => True) trivial fun _ _ _ _ _ _ _ => trivial).1

/-! ### Making room and entering -/

/-- After room was made the bytes above every entry are enough. -/
theorem gather_spec {need : Nat} (hc : c.Layout) (hroom : need ≤ c.freeBytes) :
    (c.gather need).Layout ∧ c.Retains (c.gather need) ∧
      (c.gather need).top + need ≤ (c.gather need).heap.size := by
  rw [gather]
  split
  · have h := sliding_compact hc
    have hle := h.top_le
    refine ⟨h.layout, h.retains, ?_⟩
    rw [freeBytes] at hroom
    rw [h.retains.heapSize] at hle ⊢
    rw [h.top_eq] at hle ⊢
    omega
  · next hfits => exact ⟨hc, .refl c, Nat.not_lt.mp hfits⟩

theorem place_spec (bits : Bytes) (hc : c.Layout) (hfit : c.top + bits.size ≤ c.heap.size) :
    (c.place bits).Layout ∧ c.Retains (c.place bits) := by
  have hheap : (c.place bits).heap.size = c.heap.size := Bits.size_overwrite ..
  refine ⟨⟨?_, fun i e he => ?_, hc.apart⟩, rfl, hheap, fun i e he => ?_⟩
  · rw [hheap]
    exact hfit
  · exact (hc.below i e he).trans (Nat.le_add_right ..)
  · exact ⟨e, he, rfl, rfl, Bits.extract_overwrite_of_disjoint (.inl (hc.below i e he)),
      fun _ hband => ⟨rfl, hband⟩⟩

/-- The bytes that were put above every entry lie there. -/
theorem bytesIn_place {bits : Bytes} {size : TileSize} (hsize : bits.size = size.dataSize)
    (hfit : c.top + bits.size ≤ c.heap.size) :
    (c.place bits).bytesIn { offset := c.top, size } = bits := by
  have hwritten := Bits.extract_overwrite
    (show c.top + bits.toList.length ≤ c.heap.size from hfit)
  rw [Array.length_toList, hsize] at hwritten
  exact Array.toList_inj.mp hwritten

@[simp]
theorem entryAt_enter (id : BitmapId) (slot : TileSlot) (hindex : index < c.table.size) (i : Nat) :
    (c.enter index id slot).entryAt i =
      if i = index then some { id, slot, bands := .empty c.nbands } else c.entryAt i := by
  simp only [entryAt, enter, Array.getElem?_setIfInBounds]
  by_cases heq : i = index
  · subst heq
    rw [if_pos rfl, if_pos hindex, if_pos rfl]
    rfl
  · rw [if_neg (Ne.symm heq), if_neg heq]

/-- A new entry lies behind all others. -/
theorem layout_enter (id : BitmapId) (slot : TileSlot) (hc : c.Layout)
    (hindex : index < c.table.size)
    (hbehind : ∀ i e, c.entryAt i = some e → e.slot.stop ≤ slot.offset)
    (hstop : slot.stop ≤ c.top) :
    (c.enter index id slot).Layout := by
  have hentry := entryAt_enter id slot hindex
  refine ⟨hc.top_le, fun i e he => ?_, fun i j e e' hne he he' => ?_⟩
  · rw [hentry] at he
    split at he
    · cases he
      exact hstop
    · exact hc.below i e he
  · rw [hentry] at he he'
    split at he
    · next heq =>
      rw [if_neg fun heq' => hne (heq.trans heq'.symm)] at he'
      cases he
      exact .inr (hbehind j e' he')
    · split at he'
      · cases he'
        exact .inl (hbehind i e he)
      · exact hc.apart i j e e' hne he he'

/-- An entry that is found has the name that was looked for. -/
theorem entryAt_of_findFrom {id : BitmapId} {n : Nat} (h : c.findFrom id n = some index) :
    ∃ e, c.entryAt index = some e ∧ e.id = id := by
  induction n with
  | zero => cases h
  | succ n ih =>
    rw [findFrom] at h
    split at h
    · cases h
    · next e he =>
      split at h
      · next hid =>
        cases h
        exact ⟨e, by rw [entryAt, he]; rfl, hid⟩
      · exact ih h
    · exact ih h

/-- What became of a cache that was asked for a bitmap: a new entry has its name, its geometry and
its bits, and no band has been sent them. -/
structure Asked (id : BitmapId) (size : TileSize) (bits : Bytes) (c c' : TileCache) : Prop where
  layout : c'.Layout
  tableSize : c'.table.size = c.table.size
  heapSize : c'.heap.size = c.heap.size
  entries : ∀ i e', c'.entryAt i = some e' →
    (∃ e, c.entryAt i = some e ∧ e.id = e'.id ∧ e.slot.size = e'.slot.size ∧
      c'.bytesIn e'.slot = c.bytesIn e.slot ∧
      ∀ band, e'.bands.contains band = true → e.slot = e'.slot ∧ e.bands.contains band = true) ∨
    e'.id = id ∧ e'.slot.size = size ∧ c'.bytesIn e'.slot = bits.extract 0 size.dataSize ∧
      ∀ band, e'.bands.contains band = false

theorem Retains.asked (h : c.Retains c') (hc' : c'.Layout) (id : BitmapId) (size : TileSize)
    (bits : Bytes) : Asked id size bits c c' :=
  ⟨hc', h.tableSize, h.heapSize, fun i e' he' => .inl (h.entries i e' he')⟩

/-- A cache that is asked for a bitmap has it then, or cannot take it. -/
theorem lookupOrAdd_asked (id : BitmapId) (size : TileSize) (bits : Bytes) (hc : c.Layout)
    (hpos : 0 < c.table.size) :
    (∃ l c', lookupOrAdd id size bits c = .ok l c' ∧ Asked id size bits c c') ∨
    ∃ e c', lookupOrAdd id size bits c = .error e c' ∧ Asked id size bits c c' := by
  have hleft : c.Left (c.makeRoom size.dataSize) := left_makeRoomFrom ..
  rcases lookupOrAdd_cases id size bits c with ⟨index, -, hrun⟩ | ⟨-, ⟨-, hrun⟩ | ⟨-, hrun⟩ |
    ⟨hroom, -, hbits, gathered, placed, hgathered, hplaced, hrest⟩⟩
  · exact .inl ⟨_, _, hrun, (Retains.refl c).asked hc id size bits⟩
  · exact .inr ⟨_, _, hrun, (Retains.refl c).asked hc id size bits⟩
  · exact .inr ⟨_, _, hrun, hleft.retains.asked (hleft.layout hc) id size bits⟩
  · rw [hasRoom, Bool.and_eq_true, decide_eq_true_eq, decide_eq_true_eq] at hroom
    obtain ⟨hlayout, hretains, hfits⟩ := gather_spec (hleft.layout hc) hroom.2
    rw [← hgathered] at hlayout hretains hfits
    have hsize : (bits.extract 0 size.dataSize).size = size.dataSize := by
      rw [Array.size_extract]
      omega
    obtain ⟨hlayout', hretains'⟩ := place_spec (bits.extract 0 size.dataSize) hlayout
      (hsize.symm ▸ hfits)
    rw [← hplaced] at hlayout' hretains'
    have hkept := (hleft.retains.trans hretains).trans hretains'
    rcases hrest with ⟨-, hrun⟩ | ⟨index, hvacancy, hrun⟩
    · exact .inr ⟨_, _, hrun, hkept.asked hlayout' id size bits⟩
    · obtain ⟨hindex, -⟩ := lt_size_of_vacancyFrom (hkept.tableSize.symm ▸ hpos) hvacancy
      have hentry := entryAt_enter id { offset := gathered.top, size } hindex
      have htop : placed.top = gathered.top + size.dataSize := by
        rw [hplaced, place, hsize]
      have hbehind : ∀ i e, placed.entryAt i = some e → e.slot.stop ≤ gathered.top := by
        rw [hplaced]
        exact hlayout.below
      refine .inl ⟨_, _, hrun, layout_enter id _ hlayout' hindex hbehind htop.ge,
        (Array.size_setIfInBounds ..).trans hkept.tableSize, hkept.heapSize, fun i e he => ?_⟩
      rw [hentry] at he
      split at he
      · cases he
        refine .inr ⟨rfl, rfl, ?_, fun band => BandSet.contains_empty ..⟩
        rw [hplaced]
        exact bytesIn_place hsize (hsize.symm ▸ hfits)
      · exact .inl (hkept.entries i e he)

/-! ### Entries that lie together -/

section

variable {i : Nat} {e : TileEntry} {rest : List (Nat × TileEntry)}

@[simp] theorem queue_slideDown (c : TileCache) (i : Nat) : (c.slideDown i).1.queue = c.queue := by
  rw [slideDown]
  split
  · rfl
  · dsimp only
    split <;> rfl

/-- An entry that slides down stays an entry. -/
@[simp] theorem isSome_entryAt_slideDown (c : TileCache) (i j : Nat) :
    ((c.slideDown i).1.entryAt j).isSome = (c.entryAt j).isSome := by
  cases he : c.entryAt i with
  | none => simp only [slideDown, he]
  | some e =>
    by_cases htop : e.slot.offset = c.top
    · rw [slideDown_of_eq he htop]
      rfl
    · rw [slideDown_of_ne he htop, entryAt_slid he]
      split
      · next heq => rw [heq, he]; rfl
      · rfl

@[simp] theorem queue_compact (c : TileCache) : c.compact.1.queue = c.queue :=
  compact_induction (P := fun c' => c'.queue = c.queue) rfl fun c' i h => (queue_slideDown c' i).trans h

@[simp] theorem queue_gather (c : TileCache) (need : Nat) : (c.gather need).queue = c.queue := by
  rw [gather]
  split
  · exact queue_compact c
  · rfl

@[simp] theorem isSome_entryAt_compact (c : TileCache) (i : Nat) :
    (c.compact.1.entryAt i).isSome = (c.entryAt i).isSome :=
  compact_induction (P := fun c' => (c'.entryAt i).isSome = (c.entryAt i).isSome) rfl fun c' j h =>
    (isSome_entryAt_slideDown c' j i).trans h

/-- An entry that has bytes does not move when all slide down. -/
structure Settled (c : TileCache) : Prop where
  stays : ∀ i e, c.entryAt i = some e → e.slot.size.dataSize ≠ 0 → c.compact.1.entryAt i = some e
  /-- If all have bytes nothing changes. -/
  same : (∀ i e, c.entryAt i = some e → e.slot.size.dataSize ≠ 0) → c.compact = (c, 0)

/-- Entries that lie between two places and share no byte have no more bytes than lie there. -/
theorem add_sizeOf_le {live : List (Nat × TileEntry)} {lo hi : Nat}
    (hsorted : live.Pairwise fun a b => a.2.slot.offset ≤ b.2.slot.offset)
    (hapart : live.Pairwise fun a b => a.2.slot.Apart b.2.slot)
    (hlo : ∀ p ∈ live, p.2.slot.size.dataSize = 0 ∨ lo ≤ p.2.slot.offset)
    (hhi : ∀ p ∈ live, p.2.slot.stop ≤ hi) (hle : lo ≤ hi) : lo + sizeOf live ≤ hi := by
  induction live generalizing lo with
  | nil => exact hle
  | cons p live ih =>
    obtain ⟨hfirst, hsorted⟩ := List.pairwise_cons.mp hsorted
    obtain ⟨hbeside, hapart⟩ := List.pairwise_cons.mp hapart
    have hsum : sizeOf (p :: live) = p.2.slot.size.dataSize + sizeOf live := by
      simp only [sizeOf, List.map_cons, List.sum_cons]
    have hhi' : ∀ q ∈ live, q.2.slot.stop ≤ hi := fun q hq => hhi q (List.mem_cons_of_mem p hq)
    rcases hlo p List.mem_cons_self with hzero | hlow
    · have := ih hsorted hapart (fun q hq => hlo q (List.mem_cons_of_mem p hq)) hhi' hle
      omega
    · have hbehind := ih hsorted hapart (fun q hq => (hbeside q hq).behind (hfirst q hq)) hhi'
        (hhi p List.mem_cons_self)
      rw [TileSlot.stop] at hbehind
      omega

/-- Where no bytes lie between entries, the next one to slide down lies where it is to lie. -/
theorem Sliding.offset_eq_top (hc : c.Layout) (hpacked : c.top = c.liveBytes)
    (h : c.Sliding c' ((i, e) :: rest)) (hbytes : e.slot.size.dataSize ≠ 0) :
    e.slot.offset = c'.top := by
  have habove : c'.top ≤ e.slot.offset := (h.above (i, e) List.mem_cons_self).resolve_left hbytes
  have hbelow := hc.below i e (h.waits (i, e) List.mem_cons_self).1
  have hapart : ((i, e) :: rest).Pairwise fun a b => a.2.slot.Apart b.2.slot :=
    h.once.imp_of_mem fun ha hb hne =>
      hc.apart _ _ _ _ hne (h.waits _ ha).1 (h.waits _ hb).1
  -- All that is to come lies behind the entry and fills the arena up to its top.
  have hfilled : e.slot.offset + sizeOf ((i, e) :: rest) ≤ c.top := by
    refine add_sizeOf_le h.sorted hapart (fun p hp => .inr ?_)
      (fun p hp => hc.below _ _ (h.waits p hp).1) ((Nat.le_add_right ..).trans hbelow)
    rcases List.mem_cons.mp hp with rfl | hp
    · exact le_rfl
    · exact (List.pairwise_cons.mp h.sorted).1 p hp
  have htotal := h.total
  rw [← liveBytes_eq, ← hpacked] at htotal
  omega

/-- Where no bytes lie between entries, those that have bytes stay when all slide down. -/
theorem entryAt_compact_of_packed (hc : c.Layout) (hpacked : c.top = c.liveBytes)
    (he : c.entryAt index = some entry) (hbytes : entry.slot.size.dataSize ≠ 0) :
    c.compact.1.entryAt index = some entry := by
  refine (compact_sliding hc (P := fun c' _ => c'.entryAt index = some entry) he ?_).2
  intro c' n i e rest h hentry
  have hfirst := (h.waits (i, e) List.mem_cons_self).2.1
  by_cases htop : e.slot.offset = c'.top
  · rw [slideDown_of_eq hfirst htop]
    exact hentry
  · rw [slideDown_of_ne hfirst htop, entryAt_slid hfirst]
    split
    · next heq =>
      rw [heq, hfirst] at hentry
      cases hentry
      exact absurd (h.offset_eq_top hc hpacked hbytes) htop
    · exact hentry

/-- Where no bytes lie between entries, and all of them have bytes, none moves. -/
theorem compact_of_packed (hc : c.Layout) (hpacked : c.top = c.liveBytes)
    (hbytes : ∀ i e, c.entryAt i = some e → e.slot.size.dataSize ≠ 0) : c.compact = (c, 0) := by
  obtain ⟨hsliding, hsame, hcount⟩ := compact_sliding hc
    (P := fun c' n => c' = { c with top := c'.top } ∧ n = 0) ⟨rfl, rfl⟩ fun c' n i e rest h hp => by
      obtain ⟨hentry, hfirst, -⟩ := h.waits (i, e) List.mem_cons_self
      have htop := h.offset_eq_top hc hpacked (hbytes i e hentry)
      rw [slideDown_of_eq hfirst htop, moved_slideDown_of_eq hfirst htop, if_neg Bool.false_ne_true]
      refine ⟨?_, hp.2⟩
      rw [hp.1]
  refine Prod.ext ?_ hcount
  rw [hsame, hsliding.top_eq, ← hpacked]

theorem settled_of_packed (hc : c.Layout) (hpacked : c.top = c.liveBytes) : c.Settled where
  stays _ _ := entryAt_compact_of_packed hc hpacked
  same := compact_of_packed hc hpacked

end

end TileCache

end BandedPage
