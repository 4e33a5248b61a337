import Mathlib
import BandedPage.Proofs.Page.Session
import BandedPage.Writer.Session

/-!
# What requests leave in force

Some requests draw nothing. They only make something current, or tell all bands about the page.
-/

namespace BandedPage

def Undrawn (calls : List TargetCall) : Prop := drawing calls = []

theorem undrawn_nil : Undrawn [] := rfl

variable {μ ν : Type} [Medium μ] [LawfulMedium μ]

namespace Session

variable {S : Session}

/-- Something becomes current that leaves a writer in step. -/
theorem Serves.update {g : WriterState μ (Watched μ ν) → WriterState μ (Watched μ ν)}
    (hg : ∀ {s : WriterState μ (Watched μ ν)} {clip}, s.Ready S clip → ∃ clip',
      (g s).Ready S clip' ∧ (g s).memory.rendered = s.memory.rendered ∧
        ∀ calls, Synced (S.on clip) s calls → Synced (S.on clip') (g s) calls) :
    S.Serves (Writer.update g) fun _ => Undrawn := by
  have h := Serves.update_bind (S := S) (f := fun _ => Pure.pure ()) (.pure fun _ => undrawn_nil) hg
  rwa [bind_pure] at h

/-- Something else becomes current after a request. -/
theorem Serves.bind_update {m : WriterM μ (Watched μ ν) Unit} {P : Nat → List TargetCall → Prop}
    {g : WriterState μ (Watched μ ν) → WriterState μ (Watched μ ν)} (h : S.Serves m P)
    (hg : ∀ {s : WriterState μ (Watched μ ν)} {clip}, s.Ready S clip → ∃ clip',
      (g s).Ready S clip' ∧ (g s).memory.rendered = s.memory.rendered ∧
        ∀ calls, Synced (S.on clip) s calls → Synced (S.on clip') (g s) calls) :
    S.Serves (m >>= fun _ => Writer.update g) P := by
  intro clip w drawn hw
  refine Meets.bind (h clip w drawn hw) fun _ w' h' => ?_
  obtain ⟨clip', more, hmore, hw'⟩ := h'
  obtain ⟨clip'', hready, hrendered, hsynced⟩ := hg hw'.ready
  have hrun : Writer.update g w' = .ok () ⟨g w'.state, w'.disabled⟩ := rfl
  rw [hw'.told.enabled] at hrun
  exact .of_ok hrun
    ⟨clip'', more, hmore, hw'.told.keep hready.config_eq hrendered hsynced, hready⟩

theorem serves_setLogicalOp {op : LogicalOp} (hop : S.terms.exactImager → S.lops op) :
    S.Serves (Writer.setLogicalOp op : WriterM μ (Watched μ ν) Unit) fun _ => Undrawn :=
  .update fun {_ clip} hs => ⟨clip, { hs with
    imager := { hs.imager with }, lop := hop, page := { hs.page with } }, rfl,
    fun _ h => h.setLogicalOp op⟩

theorem serves_setColorSpace {space : ColorSpace} (hspace : space.Sendable) :
    S.Serves (Writer.setColorSpace space : WriterM μ (Watched μ ν) Unit) fun _ => Undrawn := by
  refine .update fun {_ clip} hs => ⟨clip, ?_, ?_, fun _ h => h.useColorSpace space⟩
  · rw [WriterState.useColorSpace]
    split
    · exact hs
    · exact { hs with space := hspace, page := { hs.page with } }
  · rw [WriterState.useColorSpace]
    split <;> rfl

variable [MemoryPolicy μ ν] {clip : Option ClipPath} {imager : ImagerState}

/-- What all bands are told about the page draws nothing. -/
theorem serves_withRecovery (hS : S.Sound) {op : WriteM μ (Watched μ ν) Unit}
    (hop : WriterState.RendersNothing op)
    (htells : ∀ (q : Terms) s calls, Synced q s calls → Meets op s (fun _ => Informed q s calls)
      fun _ s' => s.Kept s' ∧ Synced q s' calls) :
    S.Serves (Writer.withRecovery op) fun _ => Undrawn := by
  refine .of_makes fun clip imager _ _ w drawn htold hw => ?_
  have hI := WriterState.Ready.lasting (μ := μ) (ν := Watched μ ν) S clip imager
  have hcarries : Carries (S.on clip) (S.on clip) (S.Current clip imager) op .settings := by
    refine ⟨hop, fun s calls hs hsynced => (htells _ s calls hsynced).mono (fun _ s' h => ?_)
      fun _ s' h => ?_⟩
    · obtain ⟨hkept, more, hmore, hsynced'⟩ := h
      exact ⟨hI.alike hs hkept.alike, more, fun band => drawing_of_settings (hmore band), hsynced'⟩
    · refine ⟨hI.alike hs h.1.alike, fun _ => [], fun _ => rfl, h.2.congr fun _ _ => ?_⟩
      exact (List.append_nil _).symm
  refine (htold.withRecovery hI hw hcarries hS.nbands_le).mono (fun _ _ h => h) fun _ _ h => ?_
  exact h.imp_right fun ⟨hw', more, _, htold'⟩ => ⟨hw', more, trivial, htold'⟩

theorem serves_putParams (hS : S.Sound) {params : List UInt8} (hparams : params.length < 4294967296) :
    S.Serves (Writer.putParams params : WriterM μ (Watched μ ν) Unit) fun _ => Undrawn := by
  refine (serves_withRecovery hS (WriterState.rendersNothing_putAllBands _)
    fun q s calls h => h.putParams hparams).bind_update fun {s clip} hs => ⟨clip, ?_, rfl, fun _ h => ?_⟩
  · refine { hs with page := { hs.page with params := fun p hp => ?_ } }
    cases hp
    exact hparams
  · exact h.adapt rfl rfl rfl { h.cache with } fun _ _ _ hm ht => ⟨{ hm with }, { ht with }⟩

theorem serves_setHalftone (hS : S.Sound) {halftone : Halftone} (hhalftone : halftone.Sendable) :
    S.Serves (Writer.setHalftone halftone : WriterM μ (Watched μ ν) Unit) fun _ => Undrawn := by
  refine .get_bind fun w clip hw => ?_
  split
  · refine .update_bind (serves_withRecovery hS (WriterState.rendersNothing_putAllBands _)
      fun q s calls h => h.putHalftone hhalftone) fun {s clip} hs => ⟨clip, ?_, rfl, fun _ h => ?_⟩
    · refine { hs with page := { hs.page with halftone := fun h hh => ?_ } }
      cases hh
      exact hhalftone
    · exact h.adapt rfl rfl rfl { h.cache with } fun _ _ _ hm ht => ⟨{ hm with }, { ht with }⟩
  · exact .pure fun _ => undrawn_nil

/-- A transfer map of the right length is sent unless it is in force already. -/
theorem serves_sendTransferMap (hS : S.Sound) {index : Nat} (hindex : index < transferMapCount)
    {map : TransferMap} (hmap : map.Sendable) :
    S.Serves (get >>= fun w : Writer μ (Watched μ ν) =>
      if w.state.transfers[index]?.join ≠ some map then
        Writer.update (fun s => { s with transfers := s.transfers.setIfInBounds index (some map) }) >>=
          fun _ => Writer.withRecovery (WriterState.putTransfer index map)
      else pure ()) fun _ => Undrawn := by
  refine .get_bind fun w clip hw => ?_
  split
  · refine .update_bind (serves_withRecovery hS (WriterState.rendersNothing_putAllBands _)
      fun q s calls h => h.putTransfer hindex hmap) fun {s clip} hs => ⟨clip, ?_, rfl, fun _ h => ?_⟩
    · refine { hs with page := { hs.page with count := ?_, transfers := fun m hm => ?_ } }
      · simpa using hs.page.count
      · obtain ⟨i, hi, heq⟩ := Array.mem_iff_getElem.mp
          (show some m ∈ s.transfers.setIfInBounds index (some map) from hm)
        rw [Array.size_setIfInBounds] at hi
        rw [Array.getElem_setIfInBounds hi] at heq
        split at heq
        · cases heq
          exact hmap
        · exact hs.page.transfers m (Array.mem_iff_getElem.mpr ⟨i, hi, heq⟩)
    · exact h.adapt rfl rfl rfl { h.cache with } fun _ _ _ hm ht => ⟨{ hm with }, { ht with }⟩
  · exact .pure fun _ => undrawn_nil

theorem serves_setTransferMap (hS : S.Sound) {index : Nat} {map : TransferMap}
    (hmap : ∀ entries ∈ map, ∀ entry ∈ entries, entry < 65536) :
    S.Serves (Writer.setTransferMap index map : WriterM μ (Watched μ ν) Unit) fun _ => Undrawn := by
  unfold Writer.setTransferMap
  by_cases hindex : transferMapCount ≤ index
  · rw [if_pos hindex]
    exact .throw _
  rw [if_neg hindex]
  cases map with
  | none => exact serves_sendTransferMap hS (Nat.lt_of_not_le hindex) fun _ h => nomatch h
  | some entries =>
    dsimp only
    by_cases hlength : entries.length = transferMapSize
    · rw [if_neg (not_not.mpr hlength)]
      refine serves_sendTransferMap hS (Nat.lt_of_not_le hindex) fun entries' h => ?_
      cases h
      exact ⟨hlength, hmap _ rfl⟩
    · rw [if_pos hlength]
      exact .throw _

end Session

end BandedPage
