import Mathlib
import BandedPage.Proofs.Writer.ResemblingRequests
import BandedPage.Replay.Replayer
import BandedPage.Store.Memory
import BandedPage.Target.CallLog

/-!
# Pages that follow pages

A writer that starts a page tells the bands what the last page left in force, and forgets what it
took them to know. What it keeps of the last page without telling it, the imager state and the color
space and the bytes of tiles, makes no difference to the new page.
-/

namespace BandedPage

variable {μ : Type}

/-! ### What succeeded -/

theorem WriterState.of_onBuffer_eq_ok {ν α : Type} {s s' : WriterState μ ν} {m : BufferM μ α}
    {a : α} (h : onBuffer m s = .ok a s') :
    ∃ buffer, m s.buffer = .ok a buffer ∧ s' = { s with buffer } := by
  rw [onBuffer] at h
  split at h
  · next a buffer hrun =>
    cases h
    exact ⟨buffer, hrun, rfl⟩
  · cases h

namespace Writer

variable {ν α : Type} {w w' : Writer μ ν} {a : α}

theorem of_critical_eq_ok {m : WriteM μ ν α}
    (h : critical (onState m) w = .ok a w') :
    ∃ state, m w.state = .ok a state ∧ w' = { w with state } := by
  simp only [critical, disablingIf, onState] at h
  cases hm : m w.state with
  | ok b state =>
    rw [hm] at h
    cases h
    exact ⟨state, rfl, rfl⟩
  | error e state =>
    rw [hm] at h
    cases h

end Writer

variable [Medium μ] {config : Config}

/-! ### A page that left something in force -/

namespace WriterState

/-- The intents that put in force again what is in force. -/
def inForce {ν : Type} (s : WriterState μ ν) : List Intent :=
  s.params.toList.map .putParams ++ s.halftone.toList.map .setHalftone ++
    s.transfers.toList.zipIdx.filterMap fun (map, index) => map.map (.setTransferMap index)

variable {s s' : WriterState μ Unlimited}

/-- Commands for all bands are held in the same way whatever else is current. -/
theorem putAllBands_of_ok {batch : List Command} (h : putAllBands batch s = .ok () s') :
    s' = { s with buffer := s'.buffer } ∧ ∀ t : WriterState μ Unlimited, t.buffer = s.buffer →
      t.config = s.config → putAllBands batch t = .ok () { t with buffer := s'.buffer } := by
  have hrun : ∀ t : WriterState μ Unlimited, putAllBands batch t =
      onBuffer (if batch.isEmpty then pure () else
        CommandBuffer.append (.range t.config.allBands) batch) t := by
    intro t
    simp only [putAllBands, get_bind_run, putBatch]
    cases batch.isEmpty <;> rfl
  rw [hrun] at h
  obtain ⟨buffer, hbuffer, rfl⟩ := of_onBuffer_eq_ok h
  refine ⟨rfl, fun t ht hconfig => ?_⟩
  rw [← hconfig, ← ht] at hbuffer
  exact (hrun t).trans (onBuffer_of_ok hbuffer)

end WriterState

namespace Intent

variable {ν : Type} [MemoryPolicy μ ν]

/-- All intents succeed and leave the writer `w'`. -/
def Succeed (intents : List Intent) (w w' : Writer μ ν) : Prop :=
  serveAll intents w = (intents.map fun _ => .ok (), w')

variable {intents more : List Intent} {w w' w'' : Writer μ ν}

theorem Succeed.append (h : Succeed intents w w') (h' : Succeed more w' w'') :
    Succeed (intents ++ more) w w'' := by
  induction intents generalizing w with
  | nil =>
    cases h
    exact h'
  | cons intent intents ih =>
    simp only [Succeed, serveAll, List.map_cons, Prod.mk.injEq, List.cons.injEq] at h
    obtain ⟨⟨hone, hrest⟩, hlast⟩ := h
    have htail : Succeed intents (intent.serve w).2 w' := Prod.ext hrest hlast
    have hall := ih htail
    rw [Succeed] at hall
    simp only [Succeed, List.cons_append, serveAll, hall, hone, List.map_cons]

theorem succeed_nil (w : Writer μ ν) : Succeed [] w w := rfl

theorem succeed_singleton {intent : Intent} (h : intent.perform w = .ok () w') :
    Succeed [intent] w w' := by
  simp only [Succeed, serveAll, serve, h, List.map_cons, List.map_nil]

end Intent

namespace Writer

variable {s s' : WriterState μ Unlimited} {w : Writer μ Unlimited}

/-- A writer that was not told of any parameters is told them. -/
theorem succeed_params {params : Option (List UInt8)}
    (h : params.forM WriterState.putParams s = .ok () s') (hw : w.disabled = false)
    (hbuffer : w.state.buffer = s.buffer) (hconfig : w.state.config = s.config)
    (hnone : w.state.params = none) :
    s' = { s with buffer := s'.buffer } ∧
      Intent.Succeed (params.toList.map .putParams) w
        { w with state := { w.state with buffer := s'.buffer, params } } := by
  cases params with
  | none =>
    cases h
    refine ⟨rfl, ?_⟩
    show Intent.Succeed [] w _
    rw [← hbuffer, ← hnone]
    exact Intent.succeed_nil w
  | some params =>
    obtain ⟨hs', hput⟩ := WriterState.putAllBands_of_ok h
    refine ⟨hs', Intent.succeed_singleton ?_⟩
    exact bind_of_ok (withRecovery_of_ok hw (hput w.state hbuffer hconfig)) _

/-- A writer that was not told of any halftone is told it. -/
theorem succeed_halftone {halftone : Option Halftone}
    (h : halftone.forM WriterState.putHalftone s = .ok () s') (hw : w.disabled = false)
    (hbuffer : w.state.buffer = s.buffer) (hconfig : w.state.config = s.config)
    (hnone : w.state.halftone = none) :
    s' = { s with buffer := s'.buffer } ∧
      Intent.Succeed (halftone.toList.map .setHalftone) w
        { w with state := { w.state with buffer := s'.buffer, halftone } } := by
  cases halftone with
  | none =>
    cases h
    refine ⟨rfl, ?_⟩
    show Intent.Succeed [] w _
    rw [← hbuffer, ← hnone]
    exact Intent.succeed_nil w
  | some halftone =>
    obtain ⟨hs', hput⟩ := WriterState.putAllBands_of_ok h
    refine ⟨hs', Intent.succeed_singleton ?_⟩
    obtain ⟨t, ht⟩ : ∃ t : Writer μ Unlimited,
      t = { w with state := { w.state with halftone := some halftone } } := ⟨_, rfl⟩
    have hrun : setHalftone halftone w =
        withRecovery (WriterState.putHalftone halftone) t := by
      rw [setHalftone, get_bind_run, if_pos (by simp [hnone]), ht]
      rfl
    refine hrun.trans ?_
    have hput' := hput t.state (by rw [ht]; exact hbuffer) (by rw [ht]; exact hconfig)
    refine (withRecovery_of_ok (by rw [ht]; exact hw) hput').trans ?_
    rw [ht]

/-- A transfer map that is not in force is put in force. -/
theorem setTransferMap_of_ok {index : Nat} {map : TransferMap} {state : WriterState μ Unlimited}
    (hindex : index < transferMapCount)
    (hmap : ∀ entries, map = some entries → entries.length = transferMapSize)
    (hne : w.state.transfers[index]?.join ≠ some map) (hw : w.disabled = false)
    (h : WriterState.putTransfer index map { w.state with
      transfers := w.state.transfers.setIfInBounds index (some map) } = .ok () state) :
    setTransferMap index map w = .ok () { w with state } := by
  have hsend : (get >>= fun w : Writer μ Unlimited =>
      if w.state.transfers[index]?.join ≠ some map then do
        update fun s => { s with transfers := s.transfers.setIfInBounds index (some map) }
        withRecovery (WriterState.putTransfer index map)
      else pure ()) w = .ok () { w with state } := by
    rw [get_bind_run, if_pos hne]
    exact withRecovery_of_ok (w := { w with state := { w.state with
      transfers := w.state.transfers.setIfInBounds index (some map) } }) hw h
  rw [setTransferMap, if_neg (by omega)]
  cases map with
  | none => exact hsend
  | some entries =>
    dsimp only
    rw [if_neg (not_not.mpr (hmap entries rfl))]
    exact hsend

/-- A writer that was not told of any transfer map from some index on is told them. -/
theorem succeed_transfers (maps : List (Option TransferMap)) {told : List (Option TransferMap)}
    (h : ((maps.zipIdx told.length).forM fun (map, index) =>
      map.forM (WriterState.putTransfer index) : WriteM μ Unlimited PUnit) s = .ok () s')
    (hw : w.disabled = false)
    (hbuffer : w.state.buffer = s.buffer) (hconfig : w.state.config = s.config)
    (htransfers : w.state.transfers.toList = told ++ List.replicate maps.length none)
    (hcount : told.length + maps.length = transferMapCount)
    (hmaps : ∀ entries, some (some entries) ∈ maps → entries.length = transferMapSize) :
    s' = { s with buffer := s'.buffer } ∧
      Intent.Succeed
        ((maps.zipIdx told.length).filterMap fun (map, index) => map.map (.setTransferMap index)) w
        { w with state := { w.state with
          buffer := s'.buffer, transfers := (told ++ maps).toArray } } := by
  induction maps generalizing s w told with
  | nil =>
    cases h
    refine ⟨rfl, ?_⟩
    show Intent.Succeed [] w _
    simp only [List.length_nil, List.replicate_zero, List.append_nil] at htransfers ⊢
    rw [← hbuffer, ← htransfers]
    exact Intent.succeed_nil w
  | cons map maps ih =>
    rw [List.zipIdx_cons] at h ⊢
    obtain ⟨⟨⟩, s₁, hfirst, hrest⟩ := bind_eq_ok_iff.mp h
    have hlength : (told ++ [map]).length = told.length + 1 := by simp
    have hmaps' : ∀ entries, some (some entries) ∈ maps → entries.length = transferMapSize :=
      fun entries he => hmaps entries (List.mem_cons_of_mem _ he)
    rw [← hlength] at hrest ⊢
    have hcount' : (told ++ [map]).length + maps.length = transferMapCount := by
      simp only [List.length_cons] at hcount
      omega
    cases map with
    | none =>
      cases hfirst
      have hnext := ih hrest hw hbuffer hconfig
        (by rw [htransfers, List.length_cons, List.replicate_succ]; simp) hcount' hmaps'
      rw [List.append_assoc, List.singleton_append] at hnext
      exact hnext
    | some map =>
      obtain ⟨hs₁, hput⟩ := WriterState.putAllBands_of_ok hfirst
      have hat : w.state.transfers[told.length]? = some none := by
        rw [← Array.getElem?_toList, htransfers, List.length_cons, List.replicate_succ]
        simp
      have hset : (w.state.transfers.setIfInBounds told.length (some map)).toList =
          told ++ [some map] ++ List.replicate maps.length none := by
        rw [Array.toList_setIfInBounds, htransfers, List.length_cons, List.replicate_succ,
          List.set_append_right _ _ le_rfl]
        simp
      obtain ⟨t, ht⟩ : ∃ t : Writer μ Unlimited, t = { w with state := { w.state with
          buffer := s₁.buffer
          transfers := w.state.transfers.setIfInBounds told.length (some map) } } := ⟨_, rfl⟩
      have hsend : Intent.Succeed [.setTransferMap told.length map] w t := by
        rw [ht]
        refine Intent.succeed_singleton (setTransferMap_of_ok ?_ (fun entries he => ?_) ?_ hw ?_)
        · simp only [List.length_cons] at hcount
          omega
        · exact hmaps entries (by rw [he]; exact List.mem_cons_self)
        · rw [hat]
          simp
        · exact hput { w.state with
            transfers := w.state.transfers.setIfInBounds told.length (some map) } hbuffer hconfig
      have hnext := ih (w := t) hrest (by rw [ht]; exact hw)
        (by rw [ht]) (by rw [ht, hs₁]; exact hconfig) (by rw [ht]; exact hset) hcount' hmaps'
      obtain ⟨hs', hsucceed⟩ := hnext
      refine ⟨by rw [hs', hs₁], ?_⟩
      have hall := hsend.append hsucceed
      rw [ht] at hall
      simpa using hall

/-- What a page starts with, a writer that was told nothing can be told. -/
theorem succeed_inForce (h : WriterState.putPageState s = .ok () s') (hw : w.disabled = false)
    (hbuffer : w.state.buffer = s.buffer) (hconfig : w.state.config = s.config)
    (hparams : w.state.params = none) (hhalftone : w.state.halftone = none)
    (htransfers : w.state.transfers = Array.replicate transferMapCount none)
    (hcount : s.transfers.size = transferMapCount)
    (hmaps : ∀ entries, some (some entries) ∈ s.transfers → entries.length = transferMapSize) :
    s' = { s with buffer := s'.buffer } ∧
      Intent.Succeed s.inForce w
        { w with state := { w.state with
          buffer := s'.buffer, params := s.params, halftone := s.halftone
          transfers := s.transfers } } := by
  rw [WriterState.putPageState, get_bind_run] at h
  obtain ⟨⟨⟩, s₁, hfirst, h⟩ := bind_eq_ok_iff.mp h
  obtain ⟨⟨⟩, s₂, hsecond, hthird⟩ := bind_eq_ok_iff.mp h
  obtain ⟨hs₁, hgiven⟩ := succeed_params hfirst hw hbuffer hconfig hparams
  obtain ⟨hs₂, hscreened⟩ := succeed_halftone (w := { w with state := { w.state with
      buffer := s₁.buffer, params := s.params } }) hsecond hw rfl
    (hconfig.trans (by rw [hs₁])) hhalftone
  obtain ⟨hs', hmapped⟩ := succeed_transfers (w := { w with state := { w.state with
      buffer := s₂.buffer, params := s.params, halftone := s.halftone } })
    s.transfers.toList (show ((s.transfers.toList.zipIdx ([] : List (Option TransferMap)).length).forM
      fun (map, index) => map.forM (WriterState.putTransfer index) : WriteM μ Unlimited PUnit) s₂ =
        .ok () s' from hthird) hw rfl (hconfig.trans (by rw [hs₂, hs₁]))
    (by simp [htransfers, hcount]) (by simp [hcount])
    fun entries he => hmaps entries (Array.mem_toList_iff.mp he)
  refine ⟨by rw [hs', hs₂, hs₁], ?_⟩
  have hall := (hgiven.append hscreened).append hmapped
  simpa [WriterState.inForce] using hall

/-- A page that was closed has no open image. -/
theorem image_of_endPage {w' : Writer μ Unlimited} (h : endPage w = .ok () w') :
    w'.state.image = none := by
  have hclose : ∀ {v : Writer μ Unlimited}, v.state.image = none →
      (critical (onState (WriterState.onBuffer CommandBuffer.closePage)) >>= fun _ =>
        update (·.resetPage) : WriterM μ Unlimited Unit) v = .ok () w' → w'.state.image = none := by
    intro v hv hrun
    obtain ⟨⟨⟩, u, hrun, hreset⟩ := bind_eq_ok_iff.mp hrun
    obtain ⟨state, hstore, rfl⟩ := of_critical_eq_ok hrun
    obtain ⟨buffer, -, rfl⟩ := WriterState.of_onBuffer_eq_ok hstore
    cases hreset
    simp only [WriterState.resetPage, hv, Option.map_none]
  obtain ⟨-, h⟩ := of_check_bind_eq_ok h
  rw [get_bind_run] at h
  split at h
  · obtain ⟨⟨⟩, u, hend, h⟩ := bind_eq_ok_iff.mp h
    refine hclose ?_ h
    obtain ⟨-, hend⟩ := of_check_bind_eq_ok hend
    rw [get_bind_run] at hend
    cases him : w.state.image with
    | none =>
      rw [him] at hend
      cases hend
    | some im =>
      rw [him] at hend
      obtain ⟨⟨⟩, v, -, hlast⟩ := bind_eq_ok_iff.mp hend
      cases hlast
      rfl
  · next himage => exact hclose (by simpa using himage) h

/-- A page starts on an empty store, with what was in force. -/
theorem of_beginPage_eq_ok {w' : Writer μ Unlimited} (h : beginPage w = .ok () w') :
    w.disabled = false ∧ ∃ store state, BandStore.truncate w.state.buffer.store = .ok () store ∧
      WriterState.putPageState ({ w.state with
        buffer := { w.state.buffer with store } } : WriterState μ Unlimited).resetPage =
          .ok () state ∧ w' = { w with state } := by
  obtain ⟨hw, h⟩ := of_check_bind_eq_ok h
  obtain ⟨⟨⟩, u, hempty, h⟩ := bind_eq_ok_iff.mp h
  obtain ⟨⟨⟩, v, hreset, h⟩ := bind_eq_ok_iff.mp h
  obtain ⟨state, hput, rfl⟩ := of_critical_eq_ok h
  cases hreset
  refine ⟨hw, ?_⟩
  simp only [onState, WriterState.onBuffer, CommandBuffer.onStore] at hempty
  cases hrun : BandStore.truncate w.state.buffer.store with
  | ok a store =>
    rw [hrun] at hempty
    cases hempty
    exact ⟨store, state, rfl, hput, rfl⟩
  | error e store =>
    rw [hrun] at hempty
    cases hempty

end Writer

/-! ### The new page and a new writer -/

namespace WriterState

omit [Medium μ] in
/-- A new writer has the shape that its configuration asks for. -/
theorem resembles_fresh (hvalid : config.Valid) (store : BandStore μ) :
    (fresh config store ({} : Unlimited)).Resembles config ∅ (fresh config store {}) where
  rest := rfl
  shaped :=
    { config_eq := rfl
      bands := Array.size_replicate
      buffer := ⟨Array.size_replicate, rfl, rfl⟩
      heap := Array.size_replicate
      table := Array.size_replicate
      nbands := rfl
      slots := Config.pos_of_isPowerOfTwo hvalid.tileSlots.1
      transfers := Array.size_replicate
      maps := fun entries h => by simp [fresh] at h }
  tiles := .refl _
  layout := TileCache.layout_of_no_entries (Nat.zero_le _) (TileCache.entryAt_empty _ _ _)
  logOp := rfl
  current := ImagerState.current_default
  current' := ImagerState.current_default
  imager := fun _ _ => .refl _ _
  colorSpace := fun _ => rfl
  image := fun _ h => by cases h

omit [Medium μ] in
/-- An emptied buffer is a new one. -/
theorem discard_eq_empty {b : CommandBuffer μ}
    (hb : b.Shaped config) (store : BandStore μ) :
    ({ b with store } : CommandBuffer μ).discard =
      .empty store config.bufferSize config.nbands := by
  have hbands : b.bands.map (fun _ => (#[] : Array Command)) =
      Array.replicate config.nbands #[] := by
    rw [Array.map_const', hb.bands]
  simp only [CommandBuffer.discard, CommandBuffer.empty, hbands, hb.capacity, hb.range]
  rfl

omit [Medium μ] in
/-- Once a page was emptied, only its imager state, its color space and bytes that no tile takes
tell its writer from a new one with the same page state. -/
theorem resembles_new {s : WriterState μ Unlimited} (hs : s.Resembles config ∅ s)
    (himage : s.image = none) (store : BandStore μ) {buffer : CommandBuffer μ}
    (hbuffer : buffer.Shaped config) (op : LogicalOp) :
    Resembles config ∅
      { s.resetPage with buffer, imager := { s.imager with logOp := op } }
      { fresh config store ({} : Unlimited) with
        buffer, params := s.params, halftone := s.halftone, transfers := s.transfers
        imager := { logOp := op } } := by
  have hreset := hs.resetPage
  have hbands : s.bands.map (fun _ => ({} : BandState)) = Array.replicate config.nbands {} := by
    rw [Array.map_const', hs.shaped.bands]
  have hnone : ∀ f, ¬ s.resetPage.Relies ∅ f := by
    rintro f (hf | ⟨band, hf⟩)
    · simp at hf
    · have hband : s.resetPage.band band = {} := by
        simp only [WriterState.band, WriterState.resetPage, hbands]
        by_cases hlt : band < config.nbands <;> simp [hlt]
      rw [hband] at hf
      cases f <;> cases hf
  refine { hreset with
    rest := ?_
    shaped := { hreset.shaped with buffer := hbuffer }
    tiles := ⟨?_, ?_, fun i e he => ?_⟩
    logOp := rfl
    current := hs.current.withLogOp op
    current' := ImagerState.current_default.withLogOp op
    imager := fun f hf => (hnone f hf).elim
    colorSpace := fun hf => (hnone _ hf).elim }
  · simp only [WriterState.resetPage, fresh, himage, hbands, hs.shaped.config_eq, Option.map_none]
  · simp only [WriterState.resetPage, fresh, TileCache.reset, TileCache.empty, hs.shaped.table,
      hs.shaped.nbands]
  · simp only [WriterState.resetPage, fresh, TileCache.reset, TileCache.empty, hs.shaped.heap,
      Array.size_replicate]
  · cases (TileCache.entryAt_reset s.tiles i).symm.trans he

end WriterState

namespace Writer

/-- Pages do not leak into each other: what a writer stores for a page that it starts after another,
a new writer stores that was told what the page before left in force. This is said of what is stored,
bit by bit, so no number of an imager state may be a negative zero, for which a zero that was current
may be sent. -/
theorem nothing_leaks {store empty : BandStore μ} {w w₁ w₂ new : Writer μ Unlimited}
    {first second : List Intent} (op : LogicalOp)
    (hfirst : ∀ intent ∈ first, intent.Plain) (hsecond : ∀ intent ∈ second, intent.Plain)
    (hopen : ofConfig config store {} = .ok w)
    (hend : endPage (Intent.serveAll first w).2 = .ok () w₁)
    (hbegin : beginPage w₁ = .ok () w₂)
    (hempty : BandStore.truncate w₁.state.buffer.store = .ok () empty)
    (hnew : ofConfig config empty {} = .ok new) :
    let told := Intent.serveAll w₁.state.inForce new
    let page := .setLogicalOp op :: second ++ [.endPage]
    (∀ answer ∈ told.1, answer = .ok ()) ∧
      (Intent.serveAll page told.2).1 = (Intent.serveAll page w₂).1 ∧
      (Intent.serveAll page told.2).2.state.buffer.store =
        (Intent.serveAll page w₂).2.state.buffer.store ∧
      ∀ {τ : Type} [Target τ] (band : Nat) (r : Replayer τ),
        Replayer.playBand (Intent.serveAll page told.2).2.state.buffer.store band r =
          Replayer.playBand (Intent.serveAll page w₂).2.state.buffer.store band r := by
  obtain ⟨hconfig, -, rfl⟩ := ofConfig_eq_ok_iff.mp hopen
  obtain ⟨-, -, rfl⟩ := ofConfig_eq_ok_iff.mp hnew
  have hvalid := Config.valid_of_validate hconfig
  -- A writer resembles itself all along, so its state keeps its shape.
  have hself : Writer.Resembles config ∅ w₁ w₁ ∧ Writer.Resembles config ∅ w₂ w₂ := by
    have hpage := (Intent.serveAll_of_resembles hfirst
      (w := ({ state := .fresh config store {} } : Writer μ Unlimited))
      ⟨WriterState.resembles_fresh hvalid store, rfl⟩).2
    have hclosed := (lockstep_endPage _ _ hpage).of_ok_self hend
    exact ⟨hclosed, (lockstep_beginPage _ _ hclosed).of_ok_self hbegin⟩
  obtain ⟨hclosed, hbegun⟩ := hself
  obtain ⟨hon, empty', state, hempty', hput, rfl⟩ := of_beginPage_eq_ok hbegin
  cases hempty.symm.trans hempty'
  obtain ⟨hstate, htold⟩ := succeed_inForce
    (w := ({ state := .fresh config empty {} } : Writer μ Unlimited)) hput rfl
    (WriterState.discard_eq_empty hclosed.state.shaped.buffer empty).symm
    hclosed.state.shaped.config_eq.symm rfl rfl rfl
    hclosed.state.shaped.transfers hclosed.state.shaped.maps
  have hresembles := WriterState.resembles_new hclosed.state (image_of_endPage hend) empty
    hbegun.state.shaped.buffer op
  have hpage : ∀ intent ∈ second ++ [.endPage], intent.Plain := fun intent hintent => by
    rcases List.mem_append.mp hintent with hintent | hintent
    · exact hsecond intent hintent
    · cases List.mem_singleton.mp hintent
      trivial
  have hwriters : Writer.Resembles config ∅
      { w₁ with state := { state with imager := { state.imager with logOp := op } } }
      { state := { WriterState.fresh config empty ({} : Unlimited) with
        buffer := state.buffer, params := w₁.state.params, halftone := w₁.state.halftone
        transfers := w₁.state.transfers, imager := { logOp := op } } } :=
    ⟨by rw [hstate]; exact hresembles, hon.symm⟩
  have hsame := Intent.serveAll_of_resembles hpage hwriters
  have hstore := hsame.2.state.buffer
  have hinForce : Intent.serveAll w₁.state.inForce
      ({ state := .fresh config empty {} } : Writer μ Unlimited) = _ := htold
  have hset : ∀ (intents : List Intent) (v : Writer μ Unlimited),
      Intent.serveAll (.setLogicalOp op :: intents) v =
        (.ok () :: (Intent.serveAll intents { v with state := { v.state with
          imager := { v.state.imager with logOp := op } } }).1,
        (Intent.serveAll intents { v with state := { v.state with
          imager := { v.state.imager with logOp := op } } }).2) := fun _ _ => rfl
  simp only [hinForce, List.cons_append, hset]
  refine ⟨by simp, congrArg _ hsame.1, congrArg (·.store) hstore, fun band r => ?_⟩
  exact congrArg (fun b : CommandBuffer μ => Replayer.playBand b.store band r) hstore

/-- Whatever was in media that work, they are new when they are emptied. -/
theorem truncate_of_sound {store : BandStore MemoryMedium} (hcommands : store.commands.faults = {})
    (hindex : store.index.faults = {}) :
    BandStore.truncate store = .ok () { commands := {}, index := {} } := by
  obtain ⟨⟨bytes, faults⟩, ⟨bytes', faults'⟩, length, count⟩ := store
  cases hcommands
  cases hindex
  rfl

def inMemory (config : Config) : Writer MemoryMedium Unlimited :=
  { state := .fresh config { commands := {}, index := {} } {} }

def shortLine : Path := (({} : Path).moveTo ⟨2560, 2560⟩).lineTo ⟨5120, 5120⟩ 0

/-- A state in which a line has the width and, the matrix being singular, no extent. -/
def flatState (width : Single) : ImagerState :=
  { lineWidth := width, ctm := { xx := .zero, yy := .zero } }

/-- Parameters, a transfer map and a stroke are on the first page, a rectangle on the second. -/
theorem nothing_leaks_into_rectangle :
    let first := [.putParams [1, 2], .setTransferMap 2 none,
      .strokePath (flatState .one) shortLine (.pure 1) none]
    let page := [.setLogicalOp .default, .fillRectangle ⟨0, 60, 10, 68⟩ 5, .endPage]
    ∃ w₁ w₂, endPage (Intent.serveAll first (inMemory default)).2 = .ok () w₁ ∧
      beginPage w₁ = .ok () w₂ ∧ w₁.state.params = some [1, 2] ∧
      w₁.state.transfers[2]? = some (some none) ∧
      ∀ {τ : Type} [Target τ] (band : Nat) (r : Replayer τ),
        Replayer.playBand (Intent.serveAll page
            (Intent.serveAll w₁.state.inForce (inMemory default)).2).2.state.buffer.store band r =
          Replayer.playBand (Intent.serveAll page w₂).2.state.buffer.store band r := by
  intro first page
  have hone : Single.one ≠ .negZero := fun h => by cases h
  have hzero : Single.zero ≠ .negZero := fun h => by cases h
  have hstroke : (flatState .one).Plain :=
    { ImagerState.current_default.plain with
      ctm := ⟨hzero, hzero, hzero, hzero, hzero, hzero⟩
      lineWidth := hone }
  have hfirst : ∀ intent ∈ first, intent.Plain := by
    simp only [first, List.forall_mem_cons]
    exact ⟨trivial, trivial, hstroke, fun _ h => absurd h List.not_mem_nil⟩
  have hsecond : ∀ intent ∈ [Intent.fillRectangle ⟨0, 60, 10, 68⟩ 5], intent.Plain := fun _ h =>
    List.mem_singleton.mp h ▸ trivial
  have hend := eq_ok_of_isOk (r := endPage (Intent.serveAll first (inMemory default)).2)
    (by decide +kernel)
  have hbegin := eq_ok_of_isOk (r := beginPage (stateOf
    (endPage (Intent.serveAll first (inMemory default)).2))) (by decide +kernel)
  have hopen : ofConfig default ({ commands := {}, index := {} } : BandStore MemoryMedium)
      ({} : Unlimited) = .ok (inMemory default) := rfl
  have hpage : page =
      .setLogicalOp .default :: [.fillRectangle ⟨0, 60, 10, 68⟩ 5] ++ [.endPage] := rfl
  obtain ⟨-, -, -, hreplay⟩ := nothing_leaks .default hfirst hsecond hopen hend hbegin
    (truncate_of_sound (by decide +kernel) (by decide +kernel)) hopen
  rw [← hpage] at hreplay
  exact ⟨_, _, hend, hbegin, by decide +kernel, by decide +kernel, hreplay⟩

/-- A line width of negative zero is current when the second page uses zero. The two are equal, so
the current one stays and its bits are sent, where a new writer sends those of zero. Read as numbers
they make no difference. Here they are read as commands: base 32 of a color is sent as it is, and
what follows it is taken for more of the color. -/
theorem unmasked_base_tells_zeros_apart :
    let config : Config := { width := 64, height := 1024, bandHeight := 1024 }
    let path := (({} : Path).moveTo ⟨6752, 245760⟩).lineTo ⟨23136, 0⟩ 0
    let page := [.setLogicalOp .default,
      .fillPath {} path .nonZero (.colored [0, 32, 0, 0] [7]) none,
      .strokePath (flatState .zero) shortLine (.pure 1) none, .endPage]
    let ended := endPage (Intent.serveAll [.strokePath (flatState ⟨0x80000000⟩) shortLine (.pure 1)
      none] (inMemory config)).2
    let begun := beginPage (stateOf ended)
    let leaked := Intent.serveAll page (stateOf begun)
    let fresh := Intent.serveAll page (inMemory config)
    let replayed (w : Writer MemoryMedium Unlimited) := stateOf (Replayer.playBand
      w.state.buffer.store 0 { config, target := ({ clipBox := config.pageRect } : CallLog) })
    (answerOf ended).isOk = true ∧ (answerOf begun).isOk = true ∧
      (∀ answer ∈ leaked.1 ++ fresh.1, answer.isOk = true) ∧
      (stateOf ended).state.inForce = [] ∧
      (replayed leaked.2).target.calls.size = 0 ∧ (replayed fresh.2).target.calls.size = 1 := by
  decide +kernel

end Writer

end BandedPage
