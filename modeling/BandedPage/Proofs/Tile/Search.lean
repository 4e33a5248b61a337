import Mathlib
import BandedPage.Proofs.Tile.Layout
import BandedPage.Proofs.Tile.Vacancy

/-!
# Where a name is looked for

A search ends at a place that was never used. Every entry is where its name is looked for before the
search can end, however many entries have left since it came; so a name is found just if it has an entry.
-/

namespace BandedPage.TileCache

variable {c c' : TileCache} {id : BitmapId} {index n k : Nat} {entry : TileEntry}

/-- A search for the name of an entry comes to it before it can end. -/
def Sought (c : TileCache) : Prop :=
  ∀ i e, c.entryAt i = some e → ∃ k < c.table.size, c.probe e.id k = i ∧
    ∀ j < k, c.table[c.probe e.id j]? ≠ some .free

/-- No name has two entries. -/
def Distinct (c : TileCache) : Prop :=
  ∀ i j e e', c.entryAt i = some e → c.entryAt j = some e' → e.id = e'.id → i = j

theorem entryAt_eq_none_of_free (h : c.table[index]? = some .free) : c.entryAt index = none := by
  rw [entryAt, h]
  rfl

theorem sought_of_no_entries (h : ∀ i, c.entryAt i = none) : c.Sought := by
  intro i e he
  rw [h i] at he
  cases he

/-- No place becomes free and no entry gets another name. -/
theorem Sought.of_cells (h : c.Sought) (hsize : c'.table.size = c.table.size)
    (hfree : ∀ i : Nat, c'.table[i]? = some .free → c.table[i]? = some .free)
    (hentries : ∀ i e', c'.entryAt i = some e' → ∃ e, c.entryAt i = some e ∧ e.id = e'.id) :
    c'.Sought := by
  intro i e' he'
  obtain ⟨e, he, hid⟩ := hentries i e' he'
  obtain ⟨k, hk, hprobe, hbefore⟩ := h i e he
  rw [hid] at hprobe hbefore
  refine ⟨k, hsize.symm ▸ hk, (probe_eq_of_size hsize _ k).trans hprobe, fun j hj hnone => ?_⟩
  rw [probe_eq_of_size hsize] at hnone
  exact hbefore j hj (hfree _ hnone)

theorem Thinned.sought (hthinned : c.Thinned c') (h : c.Sought) : c'.Sought := by
  have hcell : ∀ (i : Nat) (cell' : CacheCell), c'.table[i]? = some cell' →
      ∃ cell, c.table[i]? = some cell ∧ cell.Thins cell' := by
    intro i cell' hcell'
    obtain ⟨hi, -⟩ := Array.getElem?_eq_some_iff.mp hcell'
    obtain ⟨cell, hcell⟩ : ∃ cell, c.table[i]? = some cell :=
      ⟨_, Array.getElem?_eq_getElem (hthinned.size ▸ hi)⟩
    obtain ⟨cell'', hcell'', hthins⟩ := hthinned.cells i cell hcell
    rw [hcell', Option.some.injEq] at hcell''
    exact ⟨cell, hcell, hcell'' ▸ hthins⟩
  refine h.of_cells hthinned.size (fun i hfree => ?_) fun i e' he' => ?_
  · obtain ⟨cell, hcell, hthins⟩ := hcell i .free hfree
    cases hthins with
    | same => exact hcell
  · obtain ⟨cell, hcell, hthins⟩ := hcell i _ (used_of_entryAt he')
    cases hthins with
    | same => exact ⟨e', by rw [entryAt, hcell]; rfl, rfl⟩
    | moved e offset => exact ⟨e, by rw [entryAt, hcell]; rfl, rfl⟩

theorem Sought.modifyEntry (h : c.Sought) (i : Nat) {f : TileEntry → TileEntry}
    (hf : ∀ e, (f e).id = e.id) : (c.modifyEntry i f).Sought := by
  refine h.of_cells (Array.size_modify ..) (fun j hfree => ?_) fun j e' he' => ?_
  · rw [TileCache.modifyEntry, Array.getElem?_modify] at hfree
    split at hfree
    · obtain ⟨cell, hcell, hmapped⟩ := Option.map_eq_some_iff.mp hfree
      cases cell with
      | free => exact hcell
      | vacated => cases hmapped
      | used e => cases hmapped
    · exact hfree
  · rw [entryAt_modifyEntry] at he'
    split at he'
    · obtain ⟨e, he, rfl⟩ := Option.map_eq_some_iff.mp he'
      exact ⟨e, he, (hf e).symm⟩
    · exact ⟨e', he', rfl⟩

@[simp] theorem entryAt_forgetBands (c : TileCache) (i : Nat) :
    c.forgetBands.entryAt i = (c.entryAt i).map fun e => { e with bands := e.bands.clear } := by
  rw [entryAt, entryAt, forgetBands, Array.getElem?_map]
  cases c.table[i]? with
  | none => rfl
  | some cell => cases cell <;> rfl

theorem Sought.forgetBands (h : c.Sought) : c.forgetBands.Sought := by
  refine h.of_cells (Array.size_map ..) (fun j hfree => ?_) fun j e' he' => ?_
  · rw [TileCache.forgetBands, Array.getElem?_map] at hfree
    obtain ⟨cell, hcell, hmapped⟩ := Option.map_eq_some_iff.mp hfree
    cases cell with
    | free => exact hcell
    | vacated => cases hmapped
    | used e => cases hmapped
  · rw [entryAt_forgetBands] at he'
    obtain ⟨e, he, rfl⟩ := Option.map_eq_some_iff.mp he'
    exact ⟨e, he, rfl⟩

/-- The vacant place that a search finds comes after used ones only. -/
theorem exists_step_of_vacancyFrom (hn : n ≤ c.table.size) (h : c.vacancyFrom id n = some index) :
    ∃ k < c.table.size, c.probe id k = index ∧
      ∀ j < k, c.table.size ≤ j + n → (c.entryAt (c.probe id j)).isSome = true := by
  induction n with
  | zero => cases h
  | succ n ih =>
    rw [vacancyFrom] at h
    split at h
    · next e he =>
      obtain ⟨k, hk, hprobe, hbefore⟩ := ih (by omega) h
      refine ⟨k, hk, hprobe, fun j hj hlast => ?_⟩
      by_cases heq : j = c.table.size - (n + 1)
      · rw [heq, he]
        rfl
      · exact hbefore j hj (by omega)
    · cases h
      exact ⟨c.table.size - (n + 1), by omega, rfl, fun j hj hlast => by omega⟩

/-- A new entry is put where its name is looked for. -/
theorem Sought.enter (h : c.Sought) (hpos : 0 < c.table.size)
    (hvacancy : c.vacancyFrom id c.table.size = some index) (slot : TileSlot) :
    (c.enter index id slot).Sought := by
  obtain ⟨hindex, hnone⟩ := lt_size_of_vacancyFrom hpos hvacancy
  have hsize : (c.enter index id slot).table.size = c.table.size := Array.size_setIfInBounds ..
  have hfree : ∀ i : Nat, (c.enter index id slot).table[i]? = some .free →
      c.table[i]? = some .free := by
    intro i hi
    rw [TileCache.enter, Array.getElem?_setIfInBounds] at hi
    split at hi
    · cases hi
    · exact hi
  intro i e he
  rw [entryAt_enter id slot hindex] at he
  split at he
  · next heq =>
    cases he
    obtain ⟨k, hk, hprobe, hbefore⟩ := exists_step_of_vacancyFrom le_rfl hvacancy
    refine ⟨k, hsize.symm ▸ hk, ?_, fun j hj hcell => ?_⟩
    · rw [probe_eq_of_size hsize, hprobe, heq]
    · rw [probe_eq_of_size hsize] at hcell
      have hused := hbefore j hj (Nat.le_add_left ..)
      rw [entryAt_eq_none_of_free (hfree _ hcell)] at hused
      cases hused
  · obtain ⟨k, hk, hprobe, hbefore⟩ := h i e he
    refine ⟨k, hsize.symm ▸ hk, (probe_eq_of_size hsize _ k).trans hprobe, fun j hj hcell => ?_⟩
    rw [probe_eq_of_size hsize] at hcell
    exact hbefore j hj (hfree _ hcell)

/-- A search that comes to an entry of the name does not fail. -/
theorem isSome_findFrom (hn : n ≤ c.table.size) (hk : k < c.table.size) (hlast : c.table.size ≤ k + n)
    (hentry : c.entryAt (c.probe id k) = some entry) (hid : entry.id = id)
    (hbefore : ∀ j < k, c.table[c.probe id j]? ≠ some .free) : (c.findFrom id n).isSome = true := by
  induction n with
  | zero => omega
  | succ n ih =>
    rw [findFrom]
    by_cases heq : k = c.table.size - (n + 1)
    · rw [← heq, used_of_entryAt hentry]
      simp [hid]
    · have hrest := ih (by omega) (by omega)
      have hcell := hbefore (c.table.size - (n + 1)) (by omega)
      cases hplace : c.table[c.probe id (c.table.size - (n + 1))]? with
      | none => exact hrest
      | some cell =>
        cases cell with
        | free => exact absurd hplace hcell
        | vacated => exact hrest
        | used e =>
          dsimp only
          split
          · rfl
          · exact hrest

/-- A name is found where its entry is. -/
theorem Sought.find?_eq_some_iff (h : c.Sought) (hdistinct : c.Distinct) :
    c.find? id = some index ↔ ∃ e, c.entryAt index = some e ∧ e.id = id := by
  refine ⟨entryAt_of_findFrom, ?_⟩
  rintro ⟨e, he, rfl⟩
  obtain ⟨k, hk, hprobe, hbefore⟩ := h index e he
  obtain ⟨i, hfound⟩ := Option.isSome_iff_exists.mp
    (isSome_findFrom le_rfl hk (Nat.le_add_left ..) (hprobe.symm ▸ he) rfl hbefore)
  obtain ⟨e', he', hid⟩ := entryAt_of_findFrom hfound
  rw [find?, hfound, hdistinct i index e' e he' he hid]

end BandedPage.TileCache
