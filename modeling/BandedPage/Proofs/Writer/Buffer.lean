import Mathlib
import BandedPage.Proofs.Store.Content
import BandedPage.Writer.Buffer

/-!
# The command buffer keeps every band's commands in order

What a band was sent is in three places: in the runs that are stored for it, in the list for a
range that it may be in, and in its own list, in this order. `Keeps` says so. It says too that
commands for a range are never held behind others, since nothing else would keep the order when the
buffer is stored.
-/

namespace BandedPage

/-- Commands that are stored together, for the same bands. -/
structure CommandRun where
  bands : BandRange
  commands : List Command

namespace CommandRun

/-- The entry of the run in the store, if it ends with the command `last`. -/
def entry (last : UInt8) (r : CommandRun) : StoreEntry := .run r.bands r.commands.flatten last

def commandsFor (runs : List CommandRun) (band : Nat) : List Command :=
  (runs.filter (·.bands.contains band)).flatMap commands

@[simp] theorem commandsFor_nil (band : Nat) : commandsFor [] band = [] := rfl

@[simp] theorem commandsFor_append (runs runs' : List CommandRun) (band : Nat) :
    commandsFor (runs ++ runs') band = commandsFor runs band ++ commandsFor runs' band := by
  simp [commandsFor]

@[simp] theorem commandsFor_flatMap {α : Type} (l : List α) (f : α → List CommandRun) (band : Nat) :
    commandsFor (l.flatMap f) band = l.flatMap fun a => commandsFor (f a) band := by
  induction l with
  | nil => rfl
  | cons a l ih => simp [ih]

/-- The entries of a closed page are addressable if its bands are. -/
theorem addressable {runs final : List CommandRun} {nbands : Nat}
    (hwithin : ∀ r ∈ runs ++ final, r.bands.min ≤ r.bands.max ∧ r.bands.max < nbands)
    (hbands : nbands ≤ 2147483648) :
    ∀ e ∈ runs.map (entry Opcode.endRun) ++ final.map (entry Opcode.endPage) ++ [.sentinel],
      e.Addressable := by
  intro e he
  have hrun : ∀ r ∈ runs ++ final, ∀ last, (r.entry last).Addressable := fun r hr last => by
    obtain ⟨hle, hmax⟩ := hwithin r hr
    have hlt := Nat.lt_of_lt_of_le hmax hbands
    exact ⟨Nat.lt_of_le_of_lt hle hlt, hlt⟩
  simp only [List.mem_append, List.mem_map, List.mem_singleton] at he hrun
  rcases he with (⟨r, hr, rfl⟩ | ⟨r, hr, rfl⟩) | rfl
  · exact hrun r (.inl hr) _
  · exact hrun r (.inr hr) _
  · trivial

end CommandRun

namespace Addressee

/-- The addressee is, or includes, the band. -/
def includes (band : Nat) : Addressee → Bool
  | .band i => i == band
  | .range bands => bands.contains band

/-- All bands meant are bands of a page with so many bands. -/
def Within (nbands : Nat) : Addressee → Prop
  | .band i => i < nbands
  | .range bands => bands.min ≤ bands.max ∧ bands.max < nbands

end Addressee

@[simp] theorem BandRange.contains_single (i band : Nat) :
    (BandRange.single i).contains band = (i == band) := by
  by_cases heq : i = band
  · subst heq
    simp [contains, single]
  · have hout : ¬ (i ≤ band ∧ band ≤ i) := by omega
    rw [beq_false_of_ne heq, contains, ← Bool.decide_and, single]
    exact decide_eq_false hout

namespace CommandBuffer

/-- The run that a list of commands is stored as. Without commands there is none, unless its end
says more than that it ended. -/
def runOf (bands : BandRange) (last : UInt8) (commands : Array Command) : List CommandRun :=
  if !commands.isEmpty || last != Opcode.endRun then [⟨bands, commands.toList⟩] else []

theorem mem_runOf {bands : BandRange} {last : UInt8} {commands : Array Command} {r : CommandRun}
    (h : r ∈ runOf bands last commands) : r = ⟨bands, commands.toList⟩ := by
  rw [runOf] at h
  split at h
  · exact List.mem_singleton.mp h
  · exact absurd h List.not_mem_nil

@[simp] theorem commandsFor_runOf (bands : BandRange) (last : UInt8) (commands : Array Command)
    (band : Nat) :
    CommandRun.commandsFor (runOf bands last commands) band =
      if bands.contains band then commands.toList else [] := by
  by_cases hfor : bands.contains band = true
  · by_cases hempty : commands.isEmpty = true
    · have hnil : commands = #[] := Array.isEmpty_iff.mp hempty
      subst hnil
      rw [if_pos hfor, runOf]
      split <;> simp [CommandRun.commandsFor, hfor]
    · simp [runOf, hempty, CommandRun.commandsFor, hfor]
  · rw [if_neg hfor, runOf]
    split <;> simp [CommandRun.commandsFor, hfor]

variable {μ : Type}

def held (b : CommandBuffer μ) : List Command :=
  b.shared.toList ++ b.bands.toList.flatMap Array.toList

def heldBytes (b : CommandBuffer μ) : Nat := b.held.flatten.length

@[simp] theorem held_discard (b : CommandBuffer μ) (store : BandStore μ) :
    held { b.discard with store } = [] := by
  simp [held, discard]

@[simp] theorem shared_discard (b : CommandBuffer μ) : b.discard.shared = #[] := rfl

@[simp] theorem getD_bands_discard (b : CommandBuffer μ) (band : Nat) :
    b.discard.bands.getD band #[] = #[] := by
  by_cases hband : band < b.bands.size
  · simp [discard, hband]
  · simp [discard, hband]

theorem shared_of_held {b : CommandBuffer μ} (h : b.held = []) : b.shared = #[] := by
  simpa using (List.append_eq_nil_iff.mp h).1

theorem getD_bands_of_held {b : CommandBuffer μ} (h : b.held = []) (band : Nat) :
    b.bands.getD band #[] = #[] := by
  by_cases hband : band < b.bands.size
  · have hmem : b.bands[band] ∈ b.bands.toList := by simp
    have := List.flatMap_eq_nil_iff.mp (List.append_eq_nil_iff.mp h).2 _ hmem
    simpa [hband] using this
  · simp [hband]

def bandRuns (b : CommandBuffer μ) (last : UInt8) : List CommandRun :=
  (List.range b.bands.size).flatMap fun band => runOf (.single band) last (b.bands.getD band #[])

def flushed (b : CommandBuffer μ) (last : UInt8) : List StoreEntry :=
  (runOf b.range Opcode.endRun b.shared).map (CommandRun.entry Opcode.endRun) ++
    (b.bandRuns last).map (CommandRun.entry last)

variable [Medium μ] [LawfulMedium μ]

theorem flushShared_eq {b : CommandBuffer μ} {entries : List StoreEntry}
    (h : b.store.Contains entries) :
    ∃ store, store.Contains (entries ++
        (runOf b.range Opcode.endRun b.shared).map (CommandRun.entry Opcode.endRun)) ∧
      flushShared b = .ok () { b with store, shared := #[] } ∧
      (b.shared = #[] → store = b.store) := by
  by_cases hempty : b.shared.isEmpty = true
  · have hnil : b.shared = #[] := Array.isEmpty_iff.mp hempty
    refine ⟨b.store, by simpa [runOf, hnil] using h, ?_, fun _ => rfl⟩
    simp only [flushShared, get_bind_run, hempty]
    rw [← hnil]
    rfl
  · obtain ⟨store, hw, hc⟩ := BandStore.writeRun_eq h b.range b.shared.toList.flatten Opcode.endRun
    refine ⟨store, ?_, ?_, fun hnil => absurd (Array.isEmpty_iff.mpr hnil) hempty⟩
    · simpa [runOf, hempty, CommandRun.entry] using hc
    · have hrun : onStore (BandStore.writeRun b.range b.shared.toList.flatten Opcode.endRun) b =
          .ok () { b with store } := by
        simp only [onStore, hw]
      simp only [flushShared, get_bind_run, hempty, Bool.not_false, if_true]
      simp [bind_of_ok hrun]

theorem flushBand_eq {b : CommandBuffer μ} {entries : List StoreEntry}
    (h : b.store.Contains entries) (last : UInt8) (band : Nat) :
    ∃ store, store.Contains (entries ++
        (runOf (.single band) last (b.bands.getD band #[])).map (CommandRun.entry last)) ∧
      flushBand last band b =
        .ok () { b with store, bands := b.bands.setIfInBounds band #[] } ∧
      (b.bands.getD band #[] = #[] → last = Opcode.endRun → store = b.store) := by
  by_cases hkept : (!(b.bands.getD band #[]).isEmpty || last != Opcode.endRun) = true
  · obtain ⟨store, hw, hc⟩ := BandStore.writeRun_eq h (.single band)
      (b.bands.getD band #[]).toList.flatten last
    refine ⟨store, by rw [runOf, if_pos hkept]; exact hc, ?_, ?_⟩
    · have hrun : onStore (BandStore.writeRun (.single band)
          (b.bands.getD band #[]).toList.flatten last) b = .ok () { b with store } := by
        simp only [onStore, hw]
      simp only [flushBand, get_bind_run, hkept, if_true]
      rw [bind_of_ok hrun, modify_run]
    · intro hnil hlast
      rw [hnil, hlast] at hkept
      exact absurd hkept (by decide)
  · have hnil : b.bands.getD band #[] = #[] := by
      rw [Bool.or_eq_true, not_or, Bool.not_eq_true', Bool.not_eq_false] at hkept
      exact Array.isEmpty_iff.mp hkept.1
    have hset : b.bands.setIfInBounds band #[] = b.bands := by
      refine Array.ext (by simp) fun i hi hi' => ?_
      rw [Array.getElem_setIfInBounds hi']
      split
      · next heq =>
        subst heq
        simpa [Array.getD, hi'] using hnil.symm
      · rfl
    refine ⟨b.store, by rw [runOf, if_neg hkept]; simpa using h, ?_, fun _ _ => rfl⟩
    simp only [flushBand, get_bind_run, hkept, hset]
    rfl

/-- Storing the lists of bands, each of which is met once. -/
theorem forM_flushBand_eq {b : CommandBuffer μ} {entries : List StoreEntry} {bands : List Nat}
    (h : b.store.Contains entries) (hb : bands.Nodup) (last : UInt8) :
    ∃ store, store.Contains (entries ++ (bands.flatMap fun band =>
        runOf (.single band) last (b.bands.getD band #[])).map (CommandRun.entry last)) ∧
      bands.forM (flushBand last) b =
        .ok () { b with store, bands := bands.foldl (·.setIfInBounds · #[]) b.bands } ∧
      ((∀ band ∈ bands, b.bands.getD band #[] = #[]) → last = Opcode.endRun →
        store = b.store) := by
  induction bands generalizing b entries with
  | nil => exact ⟨b.store, by simpa using h, rfl, fun _ _ => rfl⟩
  | cons band bands ih =>
    obtain ⟨hband, hrest⟩ := List.nodup_cons.mp hb
    obtain ⟨store₁, hc₁, hrun₁, hsame₁⟩ := flushBand_eq h last band
    -- The lists still to be stored are not the one that was emptied.
    have hother : ∀ i ∈ bands, (b.bands.setIfInBounds band #[]).getD i #[] = b.bands.getD i #[] := by
      intro i hi
      have hne : band ≠ i := fun heq => hband (heq ▸ hi)
      simp [hne]
    obtain ⟨store₂, hc₂, hrun₂, hsame₂⟩ := ih
      (b := { b with store := store₁, bands := b.bands.setIfInBounds band #[] }) hc₁ hrest
    refine ⟨store₂, ?_, ?_, ?_⟩
    · have hruns : (bands.flatMap fun i => runOf (.single i) last
          ((b.bands.setIfInBounds band #[]).getD i #[])) =
          bands.flatMap fun i => runOf (.single i) last (b.bands.getD i #[]) :=
        List.flatMap_congr fun i hi => congrArg _ (hother i hi)
      rw [List.flatMap_cons, List.map_append, ← List.append_assoc, ← hruns]
      exact hc₂
    · show (flushBand last band >>= fun _ => bands.forM (flushBand last)) b = _
      rw [bind_of_ok hrun₁]
      exact hrun₂
    · intro hnil hlast
      rw [hsame₂ (fun i hi => by rw [hother i hi]; exact hnil i (List.mem_cons_of_mem _ hi)) hlast,
        hsame₁ (hnil band List.mem_cons_self) hlast]

theorem foldl_setIfInBounds_range (bands : Array (Array Command)) :
    (List.range bands.size).foldl (·.setIfInBounds · #[]) bands = bands.map fun _ => #[] := by
  have hinitial : ∀ n ≤ bands.size, (List.range n).foldl (·.setIfInBounds · #[]) bands =
      bands.mapIdx fun i commands => if i < n then #[] else commands := by
    intro n hn
    induction n with
    | zero => exact Array.ext (by simp) fun i hi hi' => by simp
    | succ n ih =>
      rw [List.range_succ, List.foldl_append, ih (by omega), List.foldl_cons, List.foldl_nil]
      refine Array.ext (by simp) fun i hi hi' => ?_
      rw [Array.getElem_setIfInBounds (by simpa using hi), Array.getElem_mapIdx,
        Array.getElem_mapIdx]
      by_cases hi : n = i
      · rw [if_pos hi, if_pos (by omega)]
      · have hsucc : i < n + 1 ↔ i < n := by omega
        rw [if_neg hi]
        simp only [hsucc]
  rw [hinitial bands.size (Nat.le_refl _)]
  refine Array.ext (by simp) fun i hi hi' => ?_
  have hbound : i < bands.size := by simpa using hi
  simp [hbound]

/-- Storing everything leaves an empty buffer, and adds what was held to the store. -/
theorem flush_eq {b : CommandBuffer μ} {entries : List StoreEntry}
    (h : b.store.Contains entries) (last : UInt8) :
    ∃ store, store.Contains (entries ++ b.flushed last) ∧
      flush last b = .ok () { b.discard with store } ∧
      (b.held = [] → last = Opcode.endRun → store = b.store) := by
  obtain ⟨store₁, hc₁, hrun₁, hsame₁⟩ := flushShared_eq h
  obtain ⟨store₂, hc₂, hrun₂, hsame₂⟩ := forM_flushBand_eq
    (b := { b with store := store₁, shared := #[] }) hc₁ List.nodup_range last
  refine ⟨store₂, ?_, ?_, ?_⟩
  · rw [flushed, ← List.append_assoc]
    exact hc₂
  · simp only [flush]
    rw [bind_of_ok hrun₁, get_bind_run, bind_of_ok hrun₂, modify_run]
    simp only [foldl_setIfInBounds_range]
    rfl
  · intro hnil hlast
    rw [hsame₂ (fun band _ => getD_bands_of_held hnil band) hlast, hsame₁ (shared_of_held hnil)]

theorem flatMap_range_ite {α : Type} (f : Nat → List α) (band n : Nat) :
    ((List.range n).flatMap fun i => if (i == band) = true then f i else []) =
      if band < n then f band else [] := by
  induction n with
  | zero => simp
  | succ n ih =>
    rw [List.range_succ, List.flatMap_append, ih, List.flatMap_singleton]
    by_cases hlt : band < n
    · rw [if_pos hlt, if_neg (by simp; omega), if_pos (by omega), List.append_nil]
    · by_cases heq : n = band
      · rw [if_neg hlt, if_pos (by simpa using heq), if_pos (by omega), List.nil_append, heq]
      · rw [if_neg hlt, if_neg (by simpa using heq), if_neg (by omega), List.nil_append]

omit [Medium μ] [LawfulMedium μ] in
@[simp] theorem commandsFor_bandRuns (b : CommandBuffer μ) (last : UInt8) (band : Nat) :
    CommandRun.commandsFor (b.bandRuns last) band = (b.bands.getD band #[]).toList := by
  simp only [bandRuns, CommandRun.commandsFor_flatMap, commandsFor_runOf,
    BandRange.contains_single, flatMap_range_ite]
  by_cases hband : band < b.bands.size
  · rw [if_pos hband]
  · simp [hband]

omit [Medium μ] [LawfulMedium μ] in
/-- When the end of a run says more than that it ended, every band has one. -/
theorem filter_bandRuns (b : CommandBuffer μ) {last : UInt8} (hl : last ≠ Opcode.endRun)
    {band : Nat} (hband : band < b.bands.size) :
    (b.bandRuns last).filter (·.bands.contains band) =
      [⟨.single band, (b.bands.getD band #[]).toList⟩] := by
  have hrun : ∀ i, (runOf (.single i) last (b.bands.getD i #[])).filter (·.bands.contains band) =
      if (i == band) = true then [⟨.single i, (b.bands.getD i #[]).toList⟩] else [] := by
    intro i
    have hkept : (!(b.bands.getD i #[]).isEmpty || last != Opcode.endRun) = true := by
      rw [bne_iff_ne.mpr hl, Bool.or_true]
    rw [runOf, if_pos hkept, List.filter_cons, BandRange.contains_single, List.filter_nil]
  simp only [bandRuns, List.filter_flatMap, hrun]
  rw [flatMap_range_ite, if_pos hband]

/-- The buffer and its store keep what each of the bands was `sent`, the store in these runs. -/
structure Keeps (b : CommandBuffer μ) (nbands : Nat) (runs : List CommandRun)
    (sent : Nat → List Command) : Prop where
  store : b.store.Contains (runs.map (CommandRun.entry Opcode.endRun))
  within : ∀ r ∈ runs, r.bands.min ≤ r.bands.max ∧ r.bands.max < nbands
  size : b.bands.size = nbands
  range : b.range.min ≤ b.range.max ∧ b.range.max < nbands
  sent_eq : ∀ band < nbands, sent band = CommandRun.commandsFor runs band ++
    ((if b.range.contains band then b.shared.toList else []) ++ (b.bands.getD band #[]).toList)
  pending : b.pending = b.heldBytes
  fits : b.pending ≤ b.capacity
  /-- The mark is taken away only when nothing is held. -/
  last_none : b.last = none → b.held = []
  /-- Behind a command for a range nothing is held for a single band. -/
  last_range : ∀ bands, b.last = some (.range bands) →
    b.range = bands ∧ ∀ band, b.bands.getD band #[] = #[]

/-- The list for the range may take a command for `whom`. -/
def TurnedTo (b : CommandBuffer μ) (whom : Addressee) : Prop :=
  ∀ bands, whom = .range bands → b.range = bands ∧ ∀ band, b.bands.getD band #[] = #[]

theorem keeps_empty {store : BandStore μ} (h : store.Contains []) (capacity : Nat) {nbands : Nat}
    (hpos : 0 < nbands) : Keeps (empty store capacity nbands) nbands [] fun _ => [] := by
  have hheld : (empty store capacity nbands).held = [] := by simp [held, empty]
  refine ⟨h, fun r hr => absurd hr List.not_mem_nil, by simp [empty], ?_, ?_, ?_, ?_,
    fun _ => hheld, fun bands hlast => absurd hlast (by simp [empty])⟩
  · simp only [empty, BandRange.all]
    omega
  · intro band hband
    simp [shared_of_held hheld, getD_bands_of_held hheld]
  · rw [heldBytes, hheld]
    rfl
  · exact Nat.zero_le _

namespace Keeps

variable {b : CommandBuffer μ} {nbands : Nat} {runs : List CommandRun} {sent : Nat → List Command}

theorem flushed_runs (h : b.Keeps nbands runs sent) (last : UInt8) :
    ∀ r ∈ runOf b.range Opcode.endRun b.shared ++ b.bandRuns last,
      r.bands.min ≤ r.bands.max ∧ r.bands.max < nbands := by
  intro r hr
  rcases List.mem_append.mp hr with hr | hr
  · rw [mem_runOf hr]
    exact h.range
  · obtain ⟨band, hband, hr⟩ := List.mem_flatMap.mp hr
    rw [mem_runOf hr]
    refine ⟨Nat.le_refl _, ?_⟩
    rw [← h.size]
    exact List.mem_range.mp hband

/-- What is held was sent to some band. -/
theorem exists_mem_sent (h : b.Keeps nbands runs sent) {c : Command} (hc : c ∈ b.held) :
    ∃ band < nbands, c ∈ sent band := by
  rcases List.mem_append.mp hc with hc | hc
  · have hfor : b.range.contains b.range.max = true := by
      simpa [BandRange.contains] using h.range.1
    refine ⟨b.range.max, h.range.2, ?_⟩
    rw [h.sent_eq _ h.range.2, if_pos hfor]
    simp [hc]
  · obtain ⟨commands, hmem, hc⟩ := List.mem_flatMap.mp hc
    obtain ⟨band, hband, rfl⟩ := List.getElem_of_mem hmem
    have hband : band < b.bands.size := by simpa using hband
    refine ⟨band, h.size ▸ hband, ?_⟩
    rw [h.sent_eq _ (h.size ▸ hband)]
    simp only [Array.getElem_toList] at hc
    simp [hband, hc]

/-- Storing everything that is held changes nothing for any band. -/
theorem flush (h : b.Keeps nbands runs sent) :
    ∃ store runs', CommandBuffer.flush Opcode.endRun b = .ok () { b.discard with store } ∧
      Keeps { b.discard with store } nbands runs' sent ∧ (b.held = [] → store = b.store) := by
  obtain ⟨store, hc, hrun, hsame⟩ := flush_eq h.store Opcode.endRun
  refine ⟨store, runs ++ (runOf b.range Opcode.endRun b.shared ++ b.bandRuns Opcode.endRun), hrun,
    ?_, fun hnil => hsame hnil rfl⟩
  constructor
  · simpa [flushed] using hc
  · intro r hr
    rcases List.mem_append.mp hr with hr | hr
    · exact h.within r hr
    · exact h.flushed_runs _ r hr
  · simpa [discard] using h.size
  · exact h.range
  · intro band hband
    rw [h.sent_eq band hband, CommandRun.commandsFor_append, CommandRun.commandsFor_append,
      commandsFor_runOf, commandsFor_bandRuns]
    rw [getD_bands_discard, shared_discard]
    simp
  · rw [heldBytes, held_discard]
    rfl
  · exact Nat.zero_le _
  · exact fun _ => held_discard b store
  · intro bands hlast
    exact absurd hlast (by simp [discard])

/-- The list for a range is turned to another range when nothing is held. -/
theorem turnTo (h : b.Keeps nbands runs sent) {whom : Addressee} (hw : whom.Within nbands) :
    ∃ b' runs', CommandBuffer.turnTo whom b = .ok () b' ∧ b'.Keeps nbands runs' sent ∧
      b'.TurnedTo whom ∧ b'.capacity = b.capacity := by
  cases whom with
  | band i =>
    exact ⟨b, runs, rfl, h, fun bands heq => Addressee.noConfusion heq, rfl⟩
  | range bands =>
    -- Nothing is held for another range once the buffer has been stored, or was empty anyway.
    have turned : ∀ {b : CommandBuffer μ} {runs}, b.Keeps nbands runs sent →
        (b.last = none ∨ b.last = some (.range bands)) →
        Keeps { b with range := bands } nbands runs sent ∧
          TurnedTo { b with range := bands } (.range bands) := by
      intro b runs h hlast
      have hshared : b.range = bands ∨ b.shared = #[] := by
        rcases hlast with hlast | hlast
        · exact .inr (shared_of_held (h.last_none hlast))
        · exact .inl (h.last_range bands hlast).1
      have hbands : ∀ band, b.bands.getD band #[] = #[] := by
        rcases hlast with hlast | hlast
        · exact getD_bands_of_held (h.last_none hlast)
        · exact (h.last_range bands hlast).2
      refine ⟨⟨h.store, h.within, h.size, hw, ?_, h.pending, h.fits, h.last_none, ?_⟩, ?_⟩
      · intro band hband
        rw [h.sent_eq band hband]
        rcases hshared with heq | hnil
        · rw [heq]
        · simp [hnil]
      · intro bands' hlast'
        refine ⟨?_, hbands⟩
        rcases hlast with hlast | hlast
        · exact absurd (hlast.symm.trans hlast') (by simp)
        · rw [hlast] at hlast'
          cases hlast'
          rfl
      · rintro _ ⟨⟩
        exact ⟨rfl, hbands⟩
    by_cases hflush : (b.last.isSome && b.last ≠ some (.range bands)) = true
    · obtain ⟨store, runs', hrun, hk, -⟩ := h.flush
      obtain ⟨hk', ht⟩ := turned hk (.inl rfl)
      refine ⟨_, runs', ?_, hk', ht, rfl⟩
      simp only [CommandBuffer.turnTo, get_bind_run, hflush, if_true]
      simp [bind_of_ok hrun]
    · have hlast : b.last = none ∨ b.last = some (.range bands) := by
        cases hl : b.last with
        | none => exact .inl rfl
        | some whom => simpa [hl] using hflush
      obtain ⟨hk', ht⟩ := turned h hlast
      refine ⟨_, runs, ?_, hk', ht, rfl⟩
      simp only [CommandBuffer.turnTo, get_bind_run, hflush]
      rfl

/-- A command that there is room for is held behind all others for its bands. -/
theorem hold (h : b.Keeps nbands runs sent) {whom : Addressee} (hw : whom.Within nbands)
    (ht : b.TurnedTo whom) {c : Command} (hroom : b.pending + c.length ≤ b.capacity) :
    (b.hold whom c).Keeps nbands runs
      (fun band => sent band ++ if whom.includes band then [c] else []) := by
  cases whom with
  | band i =>
    have hi : i < b.bands.size := by
      rw [h.size]
      exact hw
    refine ⟨h.store, h.within, ?_, h.range, ?_, ?_, hroom, ?_, ?_⟩
    · simpa [CommandBuffer.hold] using h.size
    · intro band hband
      rw [h.sent_eq band hband, List.append_assoc, List.append_assoc]
      have hget : ((b.bands.modify i (·.push c)).getD band #[]).toList =
          (b.bands.getD band #[]).toList ++ if i == band then [c] else [] := by
        by_cases heq : i = band
        · subst heq
          simp [hi, Array.getElem_modify]
        · simp [Array.getElem?_modify, heq]
      simp only [CommandBuffer.hold, hget, Addressee.includes]
      rfl
    · obtain ⟨l₁, a, l₂, hsplit, -, hmod⟩ :=
        List.exists_of_modify (·.push c) (l := b.bands.toList) (i := i) (by simpa using hi)
      have hp := h.pending
      simp only [heldBytes, held, hsplit] at hp
      simp only [heldBytes, held, CommandBuffer.hold, Array.toList_modify, hmod, hp]
      simp
      omega
    · exact fun hlast => absurd hlast (by simp [CommandBuffer.hold])
    · intro bands hlast
      simp [CommandBuffer.hold] at hlast
  | range bands =>
    obtain ⟨hrange, hbands⟩ := ht bands rfl
    refine ⟨h.store, h.within, h.size, h.range, ?_, ?_, hroom, ?_, ?_⟩
    · intro band hband
      have hnil := hbands band
      rw [h.sent_eq band hband, hnil]
      simp only [CommandBuffer.hold, hnil, hrange, Addressee.includes]
      by_cases hfor : bands.contains band = true
      · simp [hfor]
      · simp [hfor]
    · have hp := h.pending
      simp only [heldBytes, held] at hp
      simp only [heldBytes, held, CommandBuffer.hold, hp]
      simp
      omega
    · exact fun hlast => absurd hlast (by simp [CommandBuffer.hold])
    · intro bands' hlast
      cases hlast
      exact ⟨hrange, hbands⟩

/-- A command that is not longer than the buffer is held. -/
theorem appendOne (h : b.Keeps nbands runs sent) {whom : Addressee} (hw : whom.Within nbands)
    {c : Command} (hc : c.length ≤ b.capacity) :
    ∃ b' runs', CommandBuffer.appendOne whom c b = .ok () b' ∧
      b'.Keeps nbands runs' (fun band => sent band ++ if whom.includes band then [c] else []) ∧
      b'.capacity = b.capacity := by
  obtain ⟨b₁, runs₁, hrun₁, hk₁, ht₁, hcap₁⟩ := h.turnTo hw
  by_cases hroom : b₁.capacity < b₁.pending + c.length
  · obtain ⟨store, runs₂, hrun₂, hk₂, -⟩ := hk₁.flush
    have ht₂ : TurnedTo { b₁.discard with store } whom :=
      fun bands heq => ⟨(ht₁ bands heq).1, getD_bands_discard b₁⟩
    refine ⟨_, runs₂, ?_, hk₂.hold hw ht₂ (c := c) ?_, ?_⟩
    · simp only [CommandBuffer.appendOne]
      simp [bind_of_ok hrun₁, hroom, bind_of_ok hrun₂]
    · simpa [discard, hcap₁] using hc
    · cases whom <;> exact hcap₁
  · refine ⟨_, runs₁, ?_, hk₁.hold hw ht₁ (c := c) (by omega), ?_⟩
    · simp only [CommandBuffer.appendOne]
      rw [bind_of_ok hrun₁, get_bind_run, if_neg hroom]
      rfl
    · cases whom <;> exact hcap₁

theorem forM_appendOne (h : b.Keeps nbands runs sent) {whom : Addressee}
    (hw : whom.Within nbands) {batch : List Command} (hc : ∀ c ∈ batch, c.length ≤ b.capacity) :
    ∃ b' runs', batch.forM (CommandBuffer.appendOne whom) b = .ok () b' ∧
      b'.Keeps nbands runs' (fun band => sent band ++ if whom.includes band then batch else []) ∧
      b'.capacity = b.capacity := by
  induction batch generalizing b runs sent with
  | nil => exact ⟨b, runs, rfl, by simpa using h, rfl⟩
  | cons c batch ih =>
    obtain ⟨b₁, runs₁, hrun₁, hk₁, hcap₁⟩ := h.appendOne hw (hc c List.mem_cons_self)
    obtain ⟨b₂, runs₂, hrun₂, hk₂, hcap₂⟩ := ih hk₁ fun c' hc' => by
      rw [hcap₁]
      exact hc c' (List.mem_cons_of_mem _ hc')
    refine ⟨b₂, runs₂, ?_, ?_, hcap₂.trans hcap₁⟩
    · show (CommandBuffer.appendOne whom c >>= fun _ =>
        batch.forM (CommandBuffer.appendOne whom)) b = _
      rw [bind_of_ok hrun₁]
      exact hrun₂
    · have hsent : (fun band => (sent band ++ if whom.includes band then [c] else []) ++
          if whom.includes band then batch else []) =
          fun band => sent band ++ if whom.includes band then c :: batch else [] := by
        funext band
        by_cases hfor : whom.includes band = true
        · simp [hfor]
        · simp [hfor]
      rw [← hsent]
      exact hk₂

omit [Medium μ] [LawfulMedium μ] in
@[simp] theorem foldl_max_length_le (batch : List Command) (n limit : Nat) :
    batch.foldl (fun n c => max n c.length) n ≤ limit ↔
      n ≤ limit ∧ ∀ c ∈ batch, c.length ≤ limit := by
  induction batch generalizing n with
  | nil => simp
  | cons c batch ih =>
    rw [List.foldl_cons, ih]
    simp [and_assoc]

/-- A batch is held as a whole, unless one of its commands is longer than the buffer. -/
theorem append (h : b.Keeps nbands runs sent) {whom : Addressee} (hw : whom.Within nbands)
    {batch : List Command} (hc : ∀ c ∈ batch, c.length ≤ b.capacity) :
    ∃ b' runs', CommandBuffer.append whom batch b = .ok () b' ∧
      b'.Keeps nbands runs' (fun band => sent band ++ if whom.includes band then batch else []) ∧
      b'.capacity = b.capacity := by
  obtain ⟨b', runs', hrun, hk, hcap⟩ := h.forM_appendOne hw hc
  have hfit : ¬ b.capacity < batch.foldl (fun n c => max n c.length) 0 := by
    rw [Nat.not_lt, foldl_max_length_le]
    exact ⟨Nat.zero_le _, hc⟩
  refine ⟨b', runs', ?_, hk, hcap⟩
  simp only [CommandBuffer.append, get_bind_run, if_neg hfit]
  exact hrun

/-- When a page is closed, each band's runs hold what it was sent, and the last of them says that
the page ended. -/
theorem closePage (h : b.Keeps nbands runs sent) :
    ∃ store, CommandBuffer.closePage b = .ok () { b.discard with store } ∧
      ∃ runs' final, (∀ r ∈ runs' ++ final, r.bands.min ≤ r.bands.max ∧ r.bands.max < nbands) ∧
        store.Contains (runs'.map (CommandRun.entry Opcode.endRun) ++
          final.map (CommandRun.entry Opcode.endPage) ++ [.sentinel]) ∧
        ∀ band < nbands, ∃ commands, final.filter (·.bands.contains band) = [⟨.single band, commands⟩] ∧
          sent band = CommandRun.commandsFor runs' band ++ commands := by
  obtain ⟨store₁, hc₁, hrun₁, -⟩ := flush_eq h.store Opcode.endPage
  obtain ⟨store₂, hrun₂, hc₂⟩ := BandStore.writeSentinel_eq hc₁
  refine ⟨store₂, ?_, runs ++ runOf b.range Opcode.endRun b.shared, b.bandRuns Opcode.endPage,
    ?_, ?_, ?_⟩
  · have hsentinel : onStore BandStore.writeSentinel { b.discard with store := store₁ } =
        .ok () { b.discard with store := store₂ } := by
      simp only [onStore, hrun₂]
    rw [CommandBuffer.closePage, bind_of_ok hrun₁, hsentinel]
  · intro r hr
    rw [List.append_assoc] at hr
    rcases List.mem_append.mp hr with hr | hr
    · exact h.within r hr
    · exact h.flushed_runs _ r hr
  · simpa [flushed] using hc₂
  · intro band hband
    refine ⟨(b.bands.getD band #[]).toList, ?_, ?_⟩
    · exact b.filter_bandRuns (by decide) (h.size ▸ hband)
    · simp [h.sent_eq band hband]

end Keeps

end CommandBuffer

end BandedPage
