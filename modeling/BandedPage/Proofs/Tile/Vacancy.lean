import Mathlib
import BandedPage.Proofs.Config
import BandedPage.Proofs.Tile.Lookup

/-!
# There is a place for every tile

No more entries are in the table than the cache counts, and it counts at most three quarters of the
table. The places where a name is looked for are all places of the table, so one of them is vacant, and
a bitmap is refused for its size only.
-/

namespace BandedPage

namespace CacheCell

def isUsed (cell : CacheCell) : Bool := cell.toEntry.isSome

@[simp] theorem isUsed_used (e : TileEntry) : (used e).isUsed = true := rfl

@[simp] theorem isUsed_vacated : vacated.isUsed = false := rfl

@[simp] theorem isUsed_free : free.isUsed = false := rfl

end CacheCell

namespace TileCache

variable {c c' : TileCache} {id : BitmapId} {index n need : Nat}

def used (c : TileCache) : Nat := c.table.toList.countP CacheCell.isUsed

def Counted (c : TileCache) : Prop := c.used ≤ c.count

theorem used_eq (c : TileCache) : c.used = c.entries.length := by
  rw [used, entries, List.length_filterMap_eq_countP, ← List.zipIdx_map_fst 0 c.table.toList,
    List.countP_map, List.zipIdx_map_fst]
  refine List.countP_congr fun p _ => ?_
  cases p.1 <;> simp [CacheCell.isUsed, CacheCell.toEntry]

/-- The same places are used. -/
theorem used_congr
    (h : ∀ i : Nat, c'.table[i]?.map CacheCell.isUsed = c.table[i]?.map CacheCell.isUsed) :
    c'.used = c.used := by
  have hmap : c'.table.toList.map CacheCell.isUsed = c.table.toList.map CacheCell.isUsed := by
    refine List.ext_getElem? fun i => ?_
    rw [List.getElem?_map, List.getElem?_map, Array.getElem?_toList, Array.getElem?_toList]
    exact h i
  have hcount : ∀ l : List CacheCell, l.countP CacheCell.isUsed =
      (l.map CacheCell.isUsed).countP id := fun l => by rw [List.countP_map, Function.id_comp]
  rw [used, used, hcount, hcount, hmap]

@[simp] theorem used_modifyEntry (c : TileCache) (i : Nat) (f : TileEntry → TileEntry) :
    (c.modifyEntry i f).used = c.used := by
  refine used_congr fun j => ?_
  rw [modifyEntry, Array.getElem?_modify]
  split
  · cases c.table[j]? with
    | none => rfl
    | some cell => cases cell <;> rfl
  · rfl

theorem counted_empty (bytes slots nbands : Nat) : (empty bytes slots nbands).Counted := by
  simp [Counted, used, empty, List.countP_replicate]

theorem counted_reset (c : TileCache) : c.reset.Counted := by
  simp [Counted, used, reset, List.countP_replicate]

theorem Counted.markBand (h : c.Counted) (i band : Nat) : (c.markBand i band).Counted := by
  rw [Counted, TileCache.markBand, used_modifyEntry]
  exact h

theorem Counted.evict (h : c.Counted) (i : Nat) : (c.evict i).Counted := by
  rw [TileCache.evict]
  split
  · next e he =>
    have hcell := used_of_entryAt he
    obtain ⟨hi, hcell⟩ := Array.getElem?_eq_some_iff.mp hcell
    have hused : c.table.toList.countP CacheCell.isUsed ≤ c.count := h
    show (c.table.setIfInBounds i .vacated).toList.countP CacheCell.isUsed ≤ c.count - 1
    rw [Array.toList_setIfInBounds, List.countP_set (by simpa using hi), Array.getElem_toList, hcell]
    simp only [CacheCell.isUsed_used, CacheCell.isUsed_vacated, if_true, Bool.false_eq_true, if_false]
    omega
  · exact h

theorem Counted.makeRoomFrom (h : c.Counted) (need : Nat) (queue : List Nat) :
    (makeRoomFrom need queue c).Counted := by
  induction queue generalizing c with
  | nil => exact h
  | cons i queue ih =>
    rw [TileCache.makeRoomFrom]
    split
    · exact h
    · exact ih (h.evict i)

/-- Moving an entry takes none away. -/
theorem slideDown_counts (c : TileCache) (i : Nat) :
    (c.slideDown i).1.used = c.used ∧ (c.slideDown i).1.count = c.count := by
  rw [slideDown]
  split
  · exact ⟨rfl, rfl⟩
  · dsimp only
    split
    · exact ⟨rfl, rfl⟩
    · exact ⟨used_modifyEntry c i _, rfl⟩

theorem compact_counts (c : TileCache) :
    c.compact.1.used = c.used ∧ c.compact.1.count = c.count := by
  refine compact_induction (P := fun c' => c'.used = c.used ∧ c'.count = c.count) ⟨rfl, rfl⟩
    fun c' i h => ?_
  obtain ⟨hused, hcount⟩ := slideDown_counts c' i
  exact ⟨hused.trans h.1, hcount.trans h.2⟩

theorem gather_counts (c : TileCache) (need : Nat) :
    (c.gather need).used = c.used ∧ (c.gather need).count = c.count := by
  rw [gather]
  split
  · exact compact_counts c
  · exact ⟨rfl, rfl⟩

theorem Counted.gather (h : c.Counted) (need : Nat) : (c.gather need).Counted := by
  obtain ⟨hused, hcount⟩ := gather_counts c need
  rw [Counted, hused, hcount]
  exact h

theorem Counted.place (h : c.Counted) (bits : Bytes) : (c.place bits).Counted := h

theorem Counted.enter (h : c.Counted) (index : Nat) (id : BitmapId) (slot : TileSlot) :
    (c.enter index id slot).Counted := by
  have hused : c.table.toList.countP CacheCell.isUsed ≤ c.count := h
  show (c.table.setIfInBounds index _).toList.countP CacheCell.isUsed ≤ c.count + 1
  rw [Array.toList_setIfInBounds]
  by_cases hi : index < c.table.toList.length
  · rw [List.countP_set hi]
    split <;> split <;> omega
  · rw [List.set_eq_of_length_le (Nat.not_lt.mp hi)]
    omega

/-! ### A vacant place -/

/-- All places where the name was looked for are used. -/
theorem entryAt_of_vacancyFrom_eq_none (h : c.vacancyFrom id n = none) {k : Nat}
    (hk : c.table.size ≤ k + n) (hlt : k < c.table.size) :
    (c.entryAt (c.probe id k)).isSome = true := by
  induction n with
  | zero => omega
  | succ n ih =>
    rw [vacancyFrom] at h
    by_cases heq : k = c.table.size - (n + 1)
    · rw [← heq] at h
      cases hentry : c.entryAt (c.probe id k) with
      | none =>
        rw [hentry] at h
        cases h
      | some e => rfl
    · split at h
      · exact ih h (by omega)
      · cases h

/-- A name is looked for in all places. -/
theorem exists_probe (hsize : Config.isPowerOfTwo c.table.size = true) (id : BitmapId)
    (hindex : index < c.table.size) : ∃ k < c.table.size, c.probe id k = index := by
  rw [Config.isPowerOfTwo, Bool.and_eq_true, bne_iff_ne, beq_iff_eq] at hsize
  obtain ⟨m, hm⟩ := (Nat.and_sub_one_eq_zero_iff_isPowerOfTwo hsize.1).mp hsize.2
  have hprobe : ∀ k, c.probe id k = (id.toNat % 2 ^ m + k * probeStep) % 2 ^ m := by
    intro k
    rw [probe, mask, hm, Nat.and_two_pow_sub_one_eq_mod, Nat.and_two_pow_sub_one_eq_mod]
  -- The step is odd, so no place is looked at twice.
  have hinjective : ∀ j < c.table.size, ∀ k < c.table.size, c.probe id j = c.probe id k → j = k := by
    intro j hj k hk heq
    rw [hprobe, hprobe] at heq
    have hcoprime : (2 ^ m).gcd probeStep = 1 := Nat.Coprime.pow_left m (by decide)
    have hmod : j ≡ k [MOD 2 ^ m] :=
      Nat.ModEq.cancel_right_of_coprime hcoprime (Nat.ModEq.add_left_cancel' _ heq)
    rw [hm] at hj hk
    exact Nat.ModEq.eq_of_lt_of_lt hmod hj hk
  obtain ⟨k, hk, heq⟩ := Finset.surj_on_of_inj_on_of_card_le (s := Finset.range c.table.size)
    (t := Finset.range c.table.size) (fun k _ => c.probe id k)
    (fun k _ => Finset.mem_range.mpr (probe_lt (by omega) id k))
    (fun j k hj hk => hinjective j (Finset.mem_range.mp hj) k (Finset.mem_range.mp hk))
    le_rfl index (Finset.mem_range.mpr hindex)
  exact ⟨k, Finset.mem_range.mp hk, heq.symm⟩

/-- Where there is room there is a place. -/
theorem Counted.exists_vacancy (h : c.Counted) (hsize : Config.isPowerOfTwo c.table.size = true)
    (hroom : c.count + 1 ≤ c.table.size * 3 / 4) (id : BitmapId) :
    ∃ index, c.vacancyFrom id c.table.size = some index := by
  cases hvacancy : c.vacancyFrom id c.table.size with
  | some index => exact ⟨index, rfl⟩
  | none =>
    have hall : ∀ cell ∈ c.table.toList, cell.isUsed = true := by
      intro cell hcell
      obtain ⟨index, hindex, rfl⟩ := List.mem_iff_getElem.mp hcell
      obtain ⟨k, hk, hprobe⟩ := exists_probe hsize id (by simpa using hindex)
      have hsome := entryAt_of_vacancyFrom_eq_none hvacancy (Nat.le_add_left ..) hk
      rw [hprobe, entryAt, ← Array.getElem?_toList, List.getElem?_eq_getElem hindex] at hsome
      exact hsome
    have hused : c.used = c.table.size := List.countP_eq_length.mpr hall
    have hle : c.used ≤ c.count := h
    omega

/-- A bitmap is refused only because it is too large. -/
theorem Counted.lookupOrAdd_error (h : c.Counted) (hsize : Config.isPowerOfTwo c.table.size = true)
    {size : TileSize} {bits : Bytes} {e : Error} (hrun : lookupOrAdd id size bits c = .error e c') :
    ∃ n limit, e = .bitmapTooLarge n limit := by
  rcases lookupOrAdd_cases id size bits c with ⟨i, -, hfound⟩ | ⟨-, ⟨-, hrefused⟩ | ⟨-, hrefused⟩ |
    ⟨hroom, -, -, gathered, placed, hgathered, hplaced, hlast⟩⟩
  · rw [hfound] at hrun
    cases hrun
  · rw [hrefused] at hrun
    cases hrun
    exact ⟨_, _, rfl⟩
  · rw [hrefused] at hrun
    cases hrun
    exact ⟨_, _, rfl⟩
  · have hmade : (c.makeRoom size.dataSize).Counted := h.makeRoomFrom _ c.queue
    have hcounted : placed.Counted := by
      rw [hplaced, hgathered]
      exact (hmade.gather _).place _
    have hmadeSize : (c.makeRoom size.dataSize).table.size = c.table.size :=
      (thinned_makeRoomFrom _ c.queue c).size
    have htable : placed.table.size = c.table.size := by
      rw [hplaced, hgathered]
      exact (thinned_placed ..).size
    have hcount : placed.count = (c.makeRoom size.dataSize).count := by
      rw [hplaced, hgathered]
      exact (gather_counts ..).2
    rw [hasRoom, Bool.and_eq_true, decide_eq_true_eq, hmadeSize] at hroom
    obtain ⟨i, hvacancy⟩ := hcounted.exists_vacancy (by rw [htable]; exact hsize)
      (by rw [hcount, htable]; exact hroom.1) id
    rcases hlast with ⟨hnone, -⟩ | ⟨i, -, hadded⟩
    · rw [hvacancy] at hnone
      cases hnone
    · rw [hadded] at hrun
      cases hrun

/-- However a bitmap is looked for, entries stay counted. -/
theorem Counted.lookupOrAdd (h : c.Counted) (id : BitmapId) (size : TileSize) (bits : Bytes) :
    (stateOf (lookupOrAdd id size bits c)).Counted := by
  have hmade : (c.makeRoom size.dataSize).Counted := h.makeRoomFrom _ c.queue
  rcases lookupOrAdd_cases id size bits c with ⟨i, -, hrun⟩ | ⟨-, ⟨-, hrun⟩ | ⟨-, hrun⟩ |
    ⟨-, -, -, gathered, placed, hgathered, hplaced, hlast⟩⟩
  · rw [hrun]
    exact h
  · rw [hrun]
    exact h
  · rw [hrun]
    exact hmade
  · have hcounted : placed.Counted := by
      rw [hplaced, hgathered]
      exact (hmade.gather _).place _
    rcases hlast with ⟨-, hrun⟩ | ⟨i, -, hrun⟩
    · rw [hrun]
      exact hcounted
    · rw [hrun]
      exact hcounted.enter ..

end TileCache

end BandedPage
