import Mathlib
import BandedPage.Proofs.Config
import BandedPage.Proofs.Store.Content
import BandedPage.Proofs.Writer.Buffer
import BandedPage.Proofs.Writer.Recovery
import BandedPage.Writer.Session

/-!
# Commands reach the store in the order in which they were put

Commands are put to single bands and to ranges of bands, and the buffer is flushed now and then, at
whatever moments. When the page ends, the runs that the index assigns to a band are made of the
commands put to it, whole and in order, for buffers of any size.
-/

namespace BandedPage

/-- What a writer may be asked of a page that is sent ready-made commands. -/
inductive PageRequest where
  /-- Put a command to some bands. -/
  | command (bands : BandRange) (command : Command)
  /-- Store what is held. -/
  | flush
  deriving DecidableEq, Repr

namespace PageRequest

def commandsTo (band : Nat) (requests : List PageRequest) : List Command :=
  requests.flatMap fun
    | command bands c => if bands.contains band then [c] else []
    | flush => []

/-- The bands are on the page, and the command is one that the buffer can hold. -/
def Fits (config : Config) : PageRequest → Prop
  | command bands c => bands.min ≤ bands.max ∧ bands.max < config.nbands ∧ c ≠ [] ∧
      c.length ≤ config.bufferSize
  | flush => True

theorem ne_nil_of_mem_commandsTo {config : Config} {requests : List PageRequest}
    (h : ∀ r ∈ requests, r.Fits config) {band : Nat} {c : Command}
    (hc : c ∈ commandsTo band requests) : c ≠ [] := by
  obtain ⟨r, hr, hc⟩ := List.mem_flatMap.mp hc
  cases r with
  | command bands c' =>
    dsimp only at hc
    split at hc
    · rw [List.mem_singleton.mp hc]
      exact (h _ hr).2.2.1
    · exact absurd hc List.not_mem_nil
  | flush => exact absurd hc List.not_mem_nil

def perform {μ ν : Type} [Medium μ] [MemoryPolicy μ ν] : PageRequest → WriterM μ ν Unit
  | command bands c => Writer.putCommand bands c
  | flush => Writer.flush

end PageRequest

namespace Writer

variable {μ : Type} [Medium μ]

/-- The writer of a page keeps what each of its bands was `sent`, the store in these runs. -/
structure Follows [LawfulMedium μ] (w : Writer μ Unlimited) (config : Config)
    (runs : List CommandRun) (sent : Nat → List Command) : Prop where
  enabled : w.disabled = false
  config_eq : w.state.config = config
  image : w.state.image = none
  capacity : w.state.buffer.capacity = config.bufferSize
  keeps : w.state.buffer.Keeps config.nbands runs sent

variable [LawfulMedium μ] {config : Config}

namespace Follows

variable {w : Writer μ Unlimited} {runs : List CommandRun} {sent : Nat → List Command}

theorem putCommand (h : w.Follows config runs sent) {bands : BandRange} {c : Command}
    (hfit : (PageRequest.command bands c).Fits config) :
    ∃ w' runs', Writer.putCommand bands c w = .ok () w' ∧
      w'.Follows config runs' fun band => sent band ++ if bands.contains band then [c] else [] := by
  obtain ⟨hle, hmax, hne, hlen⟩ := hfit
  obtain ⟨whom, hwhom, hwithin, hincludes⟩ : ∃ whom,
      (if bands.isSingle then Addressee.band bands.min else .range bands) = whom ∧
        whom.Within config.nbands ∧ ∀ band, whom.includes band = bands.contains band := by
    by_cases hsingle : bands.isSingle = true
    · have heq : bands.min = bands.max := by simpa [BandRange.isSingle] using hsingle
      refine ⟨.band bands.min, if_pos hsingle, heq ▸ hmax, fun band => ?_⟩
      have hbands : bands = .single bands.min := by
        obtain ⟨min, max⟩ := bands
        exact congrArg _ heq.symm
      rw [hbands, BandRange.contains_single]
      rfl
    · exact ⟨.range bands, if_neg hsingle, ⟨hle, hmax⟩, fun band => rfl⟩
  have hshort : ∀ c' ∈ [c], c'.length ≤ w.state.buffer.capacity := by
    intro c' hc'
    rw [List.mem_singleton.mp hc', h.capacity]
    exact hlen
  obtain ⟨buffer, runs', hrun, hk, hcap⟩ := h.keeps.append hwithin hshort
  have hbatch : [c].filter (!·.isEmpty) = [c] := by simpa using hne
  have hput : WriterState.putBatch whom [c] w.state = .ok () { w.state with buffer } :=
    WriterState.onBuffer_of_ok hrun
  refine ⟨{ w with state := { w.state with buffer } }, runs', ?_,
    h.enabled, h.config_eq, h.image, hcap.trans h.capacity, ?_⟩
  · have hpage : ¬ w.state.config.nbands ≤ bands.max := by
      rw [h.config_eq]
      omega
    simp only [Writer.putCommand, get_bind_run, if_neg hpage, hwhom, hbatch]
    exact withRecovery_of_ok h.enabled hput
  · simpa only [hincludes] using hk

theorem flush (h : w.Follows config runs sent) :
    ∃ w' runs', Writer.flush w = .ok () w' ∧ w'.Follows config runs' sent ∧
      (w.state.buffer.held = [] → w'.state.buffer.store = w.state.buffer.store) := by
  obtain ⟨store, runs', hrun, hk, hsame⟩ := h.keeps.flush
  refine ⟨{ w with state := { w.state with buffer := { w.state.buffer.discard with store } } }, runs',
    ?_, ⟨h.enabled, h.config_eq, h.image, h.capacity, hk⟩, hsame⟩
  rw [Writer.flush, bind_of_ok (check_eq h.enabled)]
  exact disablingIf_of_ok (onState_of_ok (WriterState.onBuffer_of_ok hrun))

theorem perform (h : w.Follows config runs sent) {r : PageRequest} (hr : r.Fits config) :
    ∃ w' runs', r.perform w = .ok () w' ∧
      w'.Follows config runs' fun band => sent band ++ PageRequest.commandsTo band [r] := by
  cases r with
  | command bands c =>
    obtain ⟨w', runs', hrun, hw'⟩ := h.putCommand hr
    exact ⟨w', runs', hrun, by simpa [PageRequest.commandsTo] using hw'⟩
  | flush =>
    obtain ⟨w', runs', hrun, hw', -⟩ := h.flush
    exact ⟨w', runs', hrun, by simpa [PageRequest.commandsTo] using hw'⟩

theorem forM_perform (h : w.Follows config runs sent) {requests : List PageRequest}
    (hr : ∀ r ∈ requests, r.Fits config) :
    ∃ w' runs', requests.forM PageRequest.perform w = .ok () w' ∧
      w'.Follows config runs' fun band => sent band ++ PageRequest.commandsTo band requests := by
  induction requests generalizing w runs sent with
  | nil => exact ⟨w, runs, rfl, by simpa [PageRequest.commandsTo] using h⟩
  | cons r requests ih =>
    obtain ⟨w₁, runs₁, hrun₁, hw₁⟩ := h.perform (hr r List.mem_cons_self)
    obtain ⟨w₂, runs₂, hrun₂, hw₂⟩ := ih hw₁ fun r' hr' => hr r' (List.mem_cons_of_mem _ hr')
    refine ⟨w₂, runs₂, ?_, by simpa [PageRequest.commandsTo] using hw₂⟩
    show (r.perform >>= fun _ => requests.forM PageRequest.perform) w = _
    rw [bind_of_ok hrun₁]
    exact hrun₂

/-- A flush finds nothing to store when no bytes are held. -/
theorem held_eq_nil (h : w.Follows config runs sent)
    (hsent : ∀ band < config.nbands, ∀ c ∈ sent band, c ≠ [])
    (hbytes : w.state.buffer.heldBytes = 0) : w.state.buffer.held = [] := by
  rw [List.eq_nil_iff_forall_not_mem]
  intro c hc
  have hnil : c = [] := by
    have hall := List.length_eq_zero_iff.mp hbytes
    exact List.flatten_eq_nil_iff.mp hall c hc
  obtain ⟨band, hband, hmem⟩ := h.keeps.exists_mem_sent hc
  exact hsent band hband c hmem hnil

/-- The page ends with a run for each band, and what the runs hold is what the band was sent. -/
theorem endPage (h : w.Follows config runs sent) (hbands : config.nbands ≤ 2147483648) :
    ∃ w', Writer.endPage w = .ok () w' ∧
      (w'.state.buffer.store.commandLength < 9223372036854775808 →
        ∀ band < config.nbands, ∃ (runs : List (List Command)) (final : List Command),
          w'.state.buffer.store.runsFor band =
            .ok (runs.map (·.flatten ++ [Opcode.endRun]) ++ [final.flatten ++ [Opcode.endPage]]) ∧
          (runs ++ [final]).flatten = sent band) := by
  obtain ⟨store, hrun, runs', final, hwithin, hc, hbandRuns⟩ := h.keeps.closePage
  have haddressable := CommandRun.addressable hwithin hbands
  refine ⟨_, endPage_of_closePage h.enabled h.image hrun, ?_⟩
  intro hlen band hband
  obtain ⟨commands, hfinal, hsent⟩ := hbandRuns band hband
  refine ⟨(runs'.filter (·.bands.contains band)).map CommandRun.commands, commands, ?_, ?_⟩
  · have hfilter : ∀ (rs : List CommandRun) (last : UInt8),
        ((rs.map (CommandRun.entry last)).filter (·.isFor band)).map StoreEntry.bytes =
          (rs.filter (·.bands.contains band)).map fun r => r.commands.flatten ++ [last] := by
      intro rs last
      rw [List.filter_map, List.map_map]
      rfl
    have hsentinel : [StoreEntry.sentinel].filter (·.isFor band) = [] := rfl
    refine (BandStore.runsFor_eq hc haddressable (hlen.trans (by norm_num)) band).trans ?_
    rw [List.filter_append, List.filter_append, hsentinel, List.append_nil, List.map_append,
      hfilter, hfilter, hfinal, List.map_map]
    rfl
  · rw [hsent, List.flatten_append, CommandRun.commandsFor, List.flatMap_def]
    simp

end Follows

/-- The commands put to a band are what its runs hold when the page ends, each command whole in one
run and all of them in order; only the last run ends the page. Until then the bytes that are held
are counted and fit the buffer, and a flush that finds none stores nothing. The bands of the page can
be counted, or else there is no writer. -/
theorem runs_keep_command_order {store : BandStore μ} (hconfig : config.validate = .ok ())
    (hheight : config.height < 2147483648)
    (hsum : Word.fits32 (config.height + config.bandHeight) = true) (hstore : store.Contains [])
    {requests : List PageRequest} (hrequests : ∀ r ∈ requests, r.Fits config) :
    ∃ w₀ : Writer μ Unlimited, ofConfig config store {} = .ok w₀ ∧
      (∀ before after, requests = before ++ after → ∃ w,
        before.forM PageRequest.perform w₀ = .ok () w ∧
        w.state.buffer.heldBytes = w.state.buffer.pending ∧
        w.state.buffer.pending ≤ config.bufferSize ∧
        (w.state.buffer.heldBytes = 0 → ∃ w', flush w = .ok () w' ∧
          w'.state.buffer.store = w.state.buffer.store)) ∧
      ∃ w, (do requests.forM PageRequest.perform; endPage) w₀ = .ok () w ∧
        (w.state.buffer.store.commandLength < 9223372036854775808 →
          ∀ band < config.nbands, ∃ (runs : List (List Command)) (final : List Command),
            w.state.buffer.store.runsFor band =
              .ok (runs.map (·.flatten ++ [Opcode.endRun]) ++
                [final.flatten ++ [Opcode.endPage]]) ∧
            (runs ++ [final]).flatten = PageRequest.commandsTo band requests) := by
  have hvalid := Config.valid_of_validate hconfig
  have hnbands := hvalid.nbands_le
  have hpos := hvalid.nbands_pos
  have hfresh : Follows (μ := μ) { state := .fresh config store {} } config []
      fun _ => [] :=
    ⟨rfl, rfl, rfl, rfl, CommandBuffer.keeps_empty hstore config.bufferSize hpos⟩
  refine ⟨{ state := .fresh config store {} }, ofConfig_eq_ok_iff.mpr ⟨hconfig, hsum, rfl⟩, ?_, ?_⟩
  · rintro before after rfl
    obtain ⟨w, runs, hrun, hw⟩ := hfresh.forM_perform fun r hr =>
      hrequests r (List.mem_append_left after hr)
    refine ⟨w, hrun, hw.keeps.pending.symm, hw.capacity ▸ hw.keeps.fits, fun hnone => ?_⟩
    obtain ⟨w', -, hflush, -, hsame⟩ := hw.flush
    refine ⟨w', hflush, hsame (hw.held_eq_nil ?_ hnone)⟩
    rintro band - c hc
    have hmem : c ∈ PageRequest.commandsTo band before := by simpa using hc
    exact PageRequest.ne_nil_of_mem_commandsTo
      (fun r hr => hrequests r (List.mem_append_left after hr)) hmem
  · obtain ⟨w, runs, hrun, hw⟩ := hfresh.forM_perform hrequests
    obtain ⟨w', hend, hruns⟩ := hw.endPage (by omega)
    refine ⟨w', ?_, hruns⟩
    rw [bind_of_ok hrun]
    exact hend

/-- The second band of a default page finds a command for three bands before its own. -/
theorem second_band_keeps_command_order :
    (default : Config).validate = .ok () ∧ ∃ w₀ w : Writer MemoryMedium Unlimited,
      ofConfig default { commands := {}, index := {} } {} = .ok w₀ ∧
      (do [PageRequest.command ⟨0, 2⟩ [1, 2], .flush, .command ⟨1, 1⟩ [3]].forM PageRequest.perform
          endPage) w₀ = .ok () w ∧
      (w.state.buffer.store.commandLength < 9223372036854775808 →
        ∃ (runs : List (List Command)) (final : List Command),
          w.state.buffer.store.runsFor 1 =
            .ok (runs.map (·.flatten ++ [Opcode.endRun]) ++ [final.flatten ++ [Opcode.endPage]]) ∧
          (runs ++ [final]).flatten = [[1, 2], [3]]) := by
  have hvalid : (default : Config).validate = .ok () := rfl
  have hempty : BandStore.Contains ({ commands := {}, index := {} } : BandStore MemoryMedium) [] :=
    ⟨MemoryMedium.sound_empty, MemoryMedium.sound_empty, rfl, rfl⟩
  have hfit : ∀ r ∈ [PageRequest.command ⟨0, 2⟩ [1, 2], .flush, .command ⟨1, 1⟩ [3]],
      r.Fits default := by
    simp only [List.forall_mem_cons, PageRequest.Fits]
    exact ⟨by decide, trivial, by decide, fun r hr => absurd hr List.not_mem_nil⟩
  obtain ⟨w₀, hopen, -, w, hrun, hruns⟩ := runs_keep_command_order hvalid (by decide) (by decide) hempty hfit
  exact ⟨hvalid, w₀, w, hopen, hrun, fun hlen => hruns hlen 1 (by decide)⟩

/-- No command reaches the store of a page whose bands cannot be counted: the page has two rows, its
bands have as many as 32 bits can tell, and the configuration is valid. -/
theorem uncountable_bands_have_no_writer :
    let config : Config := { width := 1, height := 2, bandHeight := 2147483647 }
    let store : BandStore MemoryMedium := { commands := {}, index := {} }
    config.validate = .ok () ∧ config.nbands = 1 ∧
      (do let w ← ofConfig config store ({} : Unlimited)
          match (do [PageRequest.command ⟨0, 0⟩ [1]].forM PageRequest.perform; endPage) w with
          | .ok _ w => w.state.buffer.store.runsFor 0
          | .error e _ => .error e) = .error .uncountable :=
  ⟨rfl, rfl, rfl⟩

end Writer

end BandedPage
