import Mathlib
import BandedPage.Proofs.Tile.Layout

/-!
# Tiles that reach a band

An arena that stored the bits a band was sent, each where the cache says, has every tile that the
cache takes the band to have. Of an offset only the low 32 bits travel, so the bits are at the right
place only in an arena that is not larger than that.
-/

namespace BandedPage

/-- The place of a tile as it is read back: of its offset the low 32 bits count. -/
def TileSlot.sent (slot : TileSlot) : TileSlot := { slot with offset := slot.offset % 4294967296 }

/-- The arena when it has stored some bits in a slot. -/
def TileArena.receive (a : TileArena) (index : Nat) (slot : TileSlot) (bits : Bytes) : TileArena where
  heap := Bits.overwrite a.heap slot.sent.offset bits.toList
  table := a.table.setIfInBounds index (some slot.sent)

namespace TileCache

variable {c c' : TileCache} {exact : Prop} {a : TileArena} {band index : Nat} {entry : TileEntry}
variable {sent : List Nat} {bits : Bytes}

/-- The arena has the tiles that the band is taken to have, those in `sent` among them; if it is to
be `exact`, with the same bits. -/
structure Reaches (c : TileCache) (exact : Prop) (band : Nat) (sent : List Nat) (a : TileArena) :
    Prop where
  heapSize : a.heap.size = c.heap.size
  tableSize : a.table.size = c.table.size
  slots : ∀ i e, c.entryAt i = some e → (e.bands.contains band = true ∨ i ∈ sent) →
    a.slot? i = some e.slot.sent
  bits : exact → c.heap.size < 4294967296 → ∀ i e, c.entryAt i = some e →
    (e.bands.contains band = true ∨ i ∈ sent) →
    a.heap.extract e.slot.offset e.slot.stop = c.bytesIn e.slot

theorem reaches_of_no_entries (hheap : a.heap.size = c.heap.size)
    (htable : a.table.size = c.table.size) (h : ∀ i, c.entryAt i = none) :
    c.Reaches exact band sent a where
  heapSize := hheap
  tableSize := htable
  slots i e he := by
    rw [h i] at he
    cases he
  bits _ _ i e he := by
    rw [h i] at he
    cases he

/-- Nothing more is asked of the arena than before. -/
theorem Reaches.of_entries {sent' : List Nat} (h : c.Reaches exact band sent a)
    (hheap : c'.heap.size = c.heap.size) (htable : c'.table.size = c.table.size)
    (hentries : ∀ i e', c'.entryAt i = some e' → (e'.bands.contains band = true ∨ i ∈ sent') →
      ∃ e, c.entryAt i = some e ∧ e.slot = e'.slot ∧ (e.bands.contains band = true ∨ i ∈ sent) ∧
        c'.bytesIn e'.slot = c.bytesIn e.slot) : c'.Reaches exact band sent' a := by
  refine ⟨h.heapSize.trans hheap.symm, h.tableSize.trans htable.symm, fun i e' he' hband => ?_,
    fun hexact hsmall i e' he' hband => ?_⟩
  · obtain ⟨e, he, hslot, hband', -⟩ := hentries i e' he' hband
    rw [← hslot]
    exact h.slots i e he hband'
  · obtain ⟨e, he, hslot, hband', hbytes⟩ := hentries i e' he' hband
    rw [hbytes, ← hslot]
    exact h.bits hexact (hheap ▸ hsmall) i e he hband'

/-- What a band was sent it has still when the cache was asked for a bitmap. -/
theorem Reaches.asked (h : c.Reaches exact band [] a) {id : BitmapId} {size : TileSize}
    (hc : Asked id size bits c c') : c'.Reaches exact band [] a :=
  h.of_entries hc.heapSize hc.tableSize fun i e' he' hband => by
    have hknown := hband.resolve_right List.not_mem_nil
    rcases hc.entries i e' he' with ⟨e, he, -, -, hbytes, hbands⟩ | ⟨-, -, -, hnone⟩
    · obtain ⟨hslot, hband'⟩ := hbands band hknown
      exact ⟨e, he, hslot, .inl hband', hbytes⟩
    · rw [hnone band] at hknown
      cases hknown

theorem Layout.stop_le (hc : c.Layout) (h : c.entryAt index = some entry) :
    entry.slot.stop ≤ c.heap.size := (hc.below index entry h).trans hc.top_le

theorem Layout.size_bytesIn (hc : c.Layout) (h : c.entryAt index = some entry) :
    (c.bytesIn entry.slot).size = entry.slot.size.dataSize := by
  have := hc.stop_le h
  rw [TileSlot.stop] at this
  rw [bytesIn, Array.size_extract, TileSlot.stop]
  omega

theorem TileSlot.sent_offset_le (slot : TileSlot) : slot.sent.offset ≤ slot.offset :=
  Nat.mod_le ..

/-- An arena of the same size stores bits for an entry. -/
theorem Layout.store_eq (hc : c.Layout) (h : c.entryAt index = some entry)
    (hheap : a.heap.size = c.heap.size) (htable : a.table.size = c.table.size)
    (hsize : bits.size = entry.slot.size.dataSize) :
    a.store index entry.slot.sent.offset entry.slot.size bits =
      .ok (a.receive index entry.slot bits) := by
  have hindex : index < c.table.size := (Array.getElem?_eq_some_iff.mp (used_of_entryAt h)).1
  have hstop := hc.stop_le h
  have hle := TileSlot.sent_offset_le entry.slot
  rw [TileSlot.stop] at hstop
  have htable' : ¬ a.table.size ≤ index := by omega
  have hbits : ¬ bits.size < entry.slot.size.dataSize := by omega
  have hfit : ¬ a.heap.size < entry.slot.sent.offset + bits.size := by omega
  rw [TileArena.store, if_neg htable', if_neg hbits]
  dsimp only
  rw [if_neg hfit]
  rfl

/-- A band that is sent the bits of an entry has them, and nothing that it had is lost. -/
theorem Reaches.receive (hc : c.Layout) (h : c.Reaches exact band sent a)
    (hentry : c.entryAt index = some entry) (hsize : bits.size = entry.slot.size.dataSize)
    (hbits : exact → bits = c.bytesIn entry.slot) :
    c.Reaches exact band (index :: sent) (a.receive index entry.slot bits) := by
  have hindex : index < c.table.size := (Array.getElem?_eq_some_iff.mp (used_of_entryAt hentry)).1
  have hsent : ∀ {i : Nat} {e : TileEntry}, i ≠ index →
      (e.bands.contains band = true ∨ i ∈ index :: sent) →
      e.bands.contains band = true ∨ i ∈ sent := fun hne hband =>
    hband.imp_right fun hmem => (List.mem_cons.mp hmem).resolve_left hne
  refine ⟨(Bits.size_overwrite ..).trans h.heapSize,
    (Array.size_setIfInBounds ..).trans h.tableSize, fun i e he hband => ?_,
    fun hexact hsmall i e he hband => ?_⟩
  · show (a.table.setIfInBounds index (some entry.slot.sent))[i]?.join = _
    rw [Array.getElem?_setIfInBounds]
    by_cases heq : index = i
    · subst heq
      cases hentry.symm.trans he
      rw [if_pos rfl, if_pos (h.tableSize.symm ▸ hindex)]
      rfl
    · rw [if_neg heq]
      exact h.slots i e he (hsent (Ne.symm heq) hband)
  · have hlength : bits.toList.length = entry.slot.size.dataSize := by
      rw [Array.length_toList, hsize]
    have hoffset : entry.slot.sent.offset = entry.slot.offset := by
      have := hc.stop_le hentry
      rw [TileSlot.stop] at this
      exact Nat.mod_eq_of_lt (by omega)
    show (Bits.overwrite a.heap entry.slot.sent.offset _).extract e.slot.offset e.slot.stop = _
    rw [hoffset]
    by_cases heq : i = index
    · subst heq
      cases hentry.symm.trans he
      have hfit := hc.stop_le hentry
      rw [TileSlot.stop, ← hlength, ← h.heapSize] at hfit
      rw [← hbits hexact]
      refine Array.toList_inj.mp ?_
      rw [TileSlot.stop, ← hlength]
      exact Bits.extract_overwrite hfit
    · rw [← h.bits hexact hsmall i e he (hsent heq hband)]
      refine Bits.extract_overwrite_of_disjoint ?_
      rw [hlength]
      exact hc.apart i index e entry heq he hentry

/-! ### Bands that are noted -/

@[simp] theorem tableSize_markBand (c : TileCache) (i band : Nat) :
    (c.markBand i band).table.size = c.table.size := Array.size_modify ..

/-- To note that bands were sent something changes nothing else. -/
theorem heap_foldl_markBand (sent : List Nat) (band : Nat) (c : TileCache) :
    (sent.foldl (·.markBand · band) c).heap = c.heap ∧
      (sent.foldl (·.markBand · band) c).top = c.top ∧
      (sent.foldl (·.markBand · band) c).table.size = c.table.size := by
  induction sent generalizing c with
  | nil => exact ⟨rfl, rfl, rfl⟩
  | cons i sent ih =>
    obtain ⟨hheap, htop, htable⟩ := ih (c.markBand i band)
    exact ⟨hheap, htop, htable.trans (tableSize_markBand ..)⟩

theorem Layout.foldl_markBand (hc : c.Layout) (sent : List Nat) (band : Nat) :
    (sent.foldl (·.markBand · band) c).Layout := by
  obtain ⟨hheap, htop, -⟩ := heap_foldl_markBand sent band c
  refine hc.of_slots htop (by rw [hheap]) fun i e he => ?_
  obtain ⟨before, hbefore, hslot, -⟩ := exists_of_entryAt_foldl_markBand he
  exact ⟨before, hbefore, hslot⟩

/-- What a band was sent it is taken to have from then on. -/
theorem Reaches.mark (h : c.Reaches exact band sent a) :
    (sent.foldl (·.markBand · band) c).Reaches exact band [] a := by
  obtain ⟨hheap, -, htable⟩ := heap_foldl_markBand sent band c
  refine h.of_entries (by rw [hheap]) htable fun i e he hband => ?_
  obtain ⟨before, hentry, hslot, -, hbands⟩ := exists_of_entryAt_foldl_markBand he
  refine ⟨before, hentry, hslot.symm, ?_, by rw [bytesIn, bytesIn, hslot, hheap]⟩
  exact (hbands band (hband.resolve_right List.not_mem_nil)).imp_right And.right

/-- What another band was sent makes no difference. -/
theorem Reaches.mark_other (h : c.Reaches exact band [] a) {other : Nat} (hne : band ≠ other)
    (sent : List Nat) : (sent.foldl (·.markBand · other) c).Reaches exact band [] a := by
  obtain ⟨hheap, -, htable⟩ := heap_foldl_markBand sent other c
  refine h.of_entries (by rw [hheap]) htable fun i e he hband => ?_
  obtain ⟨before, hentry, hslot, -, hbands⟩ := exists_of_entryAt_foldl_markBand he
  refine ⟨before, hentry, hslot.symm, .inl ?_, by rw [bytesIn, bytesIn, hslot, hheap]⟩
  exact (hbands band (hband.resolve_right List.not_mem_nil)).resolve_right fun h => hne h.1

end TileCache

end BandedPage
