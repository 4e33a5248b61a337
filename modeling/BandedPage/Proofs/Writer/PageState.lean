import Mathlib
import BandedPage.Proofs.Replay.PageState
import BandedPage.Proofs.Writer.Selecting
import BandedPage.Writer.Page

/-!
# What belongs to a page, in step with replay

Parameters, the halftone and the transfer maps are told to all bands at once. They draw nothing and
change nothing that a band is taken to know, so an emptied page may be told them again.
-/

namespace BandedPage

/-- What belongs to the page as a whole can be sent. -/
structure WriterState.PageSendable {μ ν : Type} (s : WriterState μ ν) : Prop where
  params : ∀ params ∈ s.params, params.length < 4294967296
  halftone : ∀ halftone ∈ s.halftone, halftone.Sendable
  count : s.transfers.size ≤ transferMapCount
  transfers : ∀ map, some map ∈ s.transfers → map.Sendable

variable {μ ν : Type} [Medium μ] [LawfulMedium μ]

/-- Since `s` bands have been told about the page, and nothing else has happened. -/
structure Informed (q : Terms) (s : WriterState μ ν) (calls : Nat → List TargetCall)
    (s' : WriterState μ ν) : Prop where
  kept : s.Kept s'
  synced : ∃ more : Nat → List TargetCall,
    (∀ band, ∀ call ∈ more band, call.isSetting = true) ∧
      Synced q s' fun band => calls band ++ more band

variable {q : Terms} {s s' s'' : WriterState μ ν} {calls : Nat → List TargetCall}

namespace Informed

theorem refl (h : Synced q s calls) : Informed q s calls s :=
  ⟨.refl s, fun _ => [], fun _ _ hcall => absurd hcall List.not_mem_nil,
    h.congr fun _ _ => (List.append_nil _).symm⟩

/-- What bands are told next they may be told at once. -/
theorem bind {α : Type} (h : Informed q s calls s') {op : WriteM μ ν α}
    {E : Error → WriterState μ ν → Prop}
    (hop : ∀ calls', Synced q s' calls' → Meets op s' (fun _ => Informed q s' calls') E) :
    Meets op s' (fun _ => Informed q s calls) E := by
  obtain ⟨hkept, more, hmore, hsynced⟩ := h
  refine (hop _ hsynced).mono (fun _ s'' h' => ?_) fun _ _ h => h
  obtain ⟨hkept', more', hmore', hsynced'⟩ := h'
  refine ⟨hkept.trans hkept', fun band => more band ++ more' band, fun band call hcall => ?_, ?_⟩
  · exact (List.mem_append.mp hcall).elim (hmore band call) (hmore' band call)
  · exact hsynced'.congr fun band _ => List.append_assoc ..

end Informed

namespace Synced

variable [MemoryPolicy μ ν]

/-- All bands are told about the page, or none is. -/
theorem putSettings (h : Synced q s calls) {batch : List Command}
    (hbatch : ∀ box r, AfterHalftone box batch r fun _ => True) :
    Meets (WriterState.putAllBands batch) s (fun _ => Informed q s calls)
      fun _ s' => s.Kept s' ∧ Synced q s' calls := by
  rcases h.putAllBands batch with ⟨memory, buffer, hput, hheld⟩ | ⟨e, memory, hput⟩
  · obtain ⟨more, hmore, hsynced⟩ := @hheld q { s with memory, buffer }
      (fun _ calls => ∀ call ∈ calls, call.isSetting = true) rfl rfl rfl { h.cache with }
      fun band _ r hm ht => by
        obtain ⟨more, assembly, hreplays, hmore, -⟩ := hbatch (s.config.bandRect band) r
        exact ⟨more, { r with halftone := assembly }, hmore, hreplays, { hm with }, { ht with }⟩
    refine .of_ok hput ⟨⟨⟨rfl, rfl, rfl, rfl, rfl, rfl, rfl, rfl⟩, rfl⟩,
      fun band => if band < s.config.nbands then more band else [], fun band call hcall => ?_,
      hsynced.congr fun band hband => congrArg (calls band ++ ·) (if_pos hband).symm⟩
    dsimp only at hcall
    split at hcall
    · next hband => exact hmore band hband call hcall
    · exact absurd hcall List.not_mem_nil
  · exact .of_error hput ⟨⟨⟨rfl, rfl, rfl, rfl, rfl, rfl, rfl, rfl⟩, rfl⟩, h.withMemory memory⟩

theorem putParams (h : Synced q s calls) {params : List UInt8} (hparams : params.length < 4294967296) :
    Meets (WriterState.putParams params) s (fun _ => Informed q s calls)
      fun _ s' => s.Kept s' ∧ Synced q s' calls :=
  h.putSettings fun _ r =>
    ⟨_, r.halftone, .single (replays_params hparams), by simp [TargetCall.isSetting], trivial⟩

theorem putHalftone (h : Synced q s calls) {halftone : Halftone} (hhalftone : halftone.Sendable) :
    Meets (WriterState.putHalftone halftone) s (fun _ => Informed q s calls)
      fun _ s' => s.Kept s' ∧ Synced q s' calls :=
  h.putSettings fun _ _ => afterHalftone_halftone hhalftone

theorem putTransfer (h : Synced q s calls) {index : Nat} (hindex : index < transferMapCount)
    {map : TransferMap} (hmap : map.Sendable) :
    Meets (WriterState.putTransfer index map) s (fun _ => Informed q s calls)
      fun _ s' => s.Kept s' ∧ Synced q s' calls :=
  h.putSettings fun _ r =>
    ⟨_, r.halftone, .single (replays_transferMap hindex hmap), by simp [TargetCall.isSetting], trivial⟩

/-- Transfer maps are told one after another. -/
theorem forM_putTransfer (h : Synced q s calls) {maps : List (Option TransferMap × Nat)}
    (hmaps : ∀ map index, (some map, index) ∈ maps → index < transferMapCount ∧ map.Sendable) :
    Meets (maps.forM fun (map, index) => map.forM (WriterState.putTransfer index)) s
      (fun _ => Informed q s calls) fun _ _ => True := by
  induction maps generalizing s calls with
  | nil => exact Meets.pure (.refl h)
  | cons m maps ih =>
    obtain ⟨map, index⟩ := m
    have hrest : ∀ map index, (some map, index) ∈ maps → index < transferMapCount ∧ map.Sendable :=
      fun map index hmem => hmaps map index (List.mem_cons_of_mem _ hmem)
    refine Meets.bind (P := fun _ => Informed q s calls) ?_ fun _ s' h' =>
      h'.bind fun calls' hsynced => ih hsynced hrest
    cases map with
    | none => exact Meets.pure (.refl h)
    | some map =>
      obtain ⟨hindex, hmap⟩ := hmaps map index List.mem_cons_self
      exact (h.putTransfer hindex hmap).mono (fun _ _ h => h) fun _ _ _ => trivial

/-- A page is told everything that belongs to it. -/
theorem putPageState (h : Synced q s calls) (hs : s.PageSendable) :
    Meets WriterState.putPageState s (fun _ => Informed q s calls) fun _ _ => True := by
  refine .get_bind ?_
  refine Meets.bind (P := fun _ => Informed q s calls) ?_ fun _ s₁ h₁ => h₁.bind fun calls₁ hsynced₁ =>
    Meets.bind (P := fun _ => Informed q s₁ calls₁) ?_ fun _ s₂ h₂ => h₂.bind fun calls₂ hsynced₂ =>
      hsynced₂.forM_putTransfer fun map index hmem => ?_
  · cases hparams : s.params with
    | none => exact Meets.pure (.refl h)
    | some params =>
      exact (h.putParams (hs.params params hparams)).mono (fun _ _ h => h) fun _ _ _ => trivial
  · cases hhalftone : s.halftone with
    | none => exact Meets.pure (.refl hsynced₁)
    | some halftone =>
      exact (hsynced₁.putHalftone (hs.halftone halftone hhalftone)).mono (fun _ _ h => h)
        fun _ _ _ => trivial
  · obtain ⟨hindex, hmap⟩ := List.mem_zipIdx' hmem
    refine ⟨?_, hs.transfers map ?_⟩
    · have := hs.count
      simp only [Array.length_toList] at hindex
      omega
    · rw [hmap, Array.getElem_toList]
      exact Array.getElem_mem _

end Synced

end BandedPage
