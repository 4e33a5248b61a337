import Mathlib
import BandedPage.Proofs.Source.Lawful
import BandedPage.Proofs.Store.Content
import BandedPage.Store.Feed

/-!
# Reading one band back

The feed of a band hands out the bytes of the entries that are for the band, in order, up to the
first sentinel. It is a lawful feed, so a replay may read it through a buffer of any size.
-/

namespace BandedPage

namespace StoreEntry

def firstPage (es : List StoreEntry) : List StoreEntry := es.takeWhile (· != sentinel)

def bandBytes (es : List StoreEntry) (band : Nat) : List UInt8 :=
  ((firstPage es).filter (isFor band)).flatMap bytes

/-- The runs that the first page holds for `band`. -/
def bandRuns (es : List StoreEntry) (band : Nat) : List (List UInt8) :=
  ((firstPage es).filter (isFor band)).map bytes

@[simp] theorem flatten_bandRuns (es : List StoreEntry) (band : Nat) :
    (bandRuns es band).flatten = bandBytes es band :=
  (List.flatMap_def ..).symm

@[simp] theorem bandRuns_nil (band : Nat) : bandRuns [] band = [] := rfl

@[simp] theorem bandRuns_sentinel (es : List StoreEntry) (band : Nat) :
    bandRuns (sentinel :: es) band = [] := rfl

@[simp]
theorem bandRuns_run (bands : BandRange) (body : List UInt8) (last : UInt8) (es : List StoreEntry)
    (band : Nat) :
    bandRuns (run bands body last :: es) band =
      (if bands.contains band then [body ++ [last]] else []) ++ bandRuns es band := by
  have hne : (run bands body last != sentinel) = true := rfl
  by_cases hfor : bands.contains band = true
  · simp [bandRuns, firstPage, hne, isFor, hfor, bytes]
  · simp [bandRuns, firstPage, hne, isFor, hfor]

theorem ne_nil_of_mem_bandRuns {es : List StoreEntry} {band : Nat} {run : List UInt8}
    (h : run ∈ bandRuns es band) : run ≠ [] := by
  obtain ⟨e, he, rfl⟩ := List.mem_map.mp h
  cases e with
  | run bands body last => simp [bytes]
  | sentinel => exact absurd (List.mem_filter.mp he).2 Bool.false_ne_true

@[simp] theorem bandBytes_nil (band : Nat) : bandBytes [] band = [] := rfl

@[simp] theorem bandBytes_sentinel (es : List StoreEntry) (band : Nat) :
    bandBytes (sentinel :: es) band = [] := rfl

@[simp] theorem bandBytes_run (bands : BandRange) (body : List UInt8) (last : UInt8)
    (es : List StoreEntry) (band : Nat) :
    bandBytes (run bands body last :: es) band =
      (if bands.contains band then body ++ [last] else []) ++ bandBytes es band := by
  rw [← flatten_bandRuns, bandRuns_run, List.flatten_append, flatten_bandRuns]
  by_cases hfor : bands.contains band = true
  · simp [hfor]
  · simp [hfor]

theorem length_bandBytes_le (es : List StoreEntry) (band n : Nat)
    (h : ∀ e ∈ es, e.bytes.length ≤ n) : (bandBytes es band).length ≤ es.length * n := by
  induction es with
  | nil => simp
  | cons e es ih =>
    have hrest := ih fun e he => h e (List.mem_cons_of_mem _ he)
    have hfirst := h e List.mem_cons_self
    cases e with
    | sentinel => simp
    | run bands body last =>
      rw [bandBytes_run, List.length_append, List.length_cons, Nat.succ_mul]
      rw [bytes] at hfirst
      by_cases hfor : bands.contains band = true
      · rw [if_pos hfor]
        omega
      · rw [if_neg hfor, List.length_nil]
        omega

end StoreEntry

namespace BandFeed

open StoreEntry

variable {μ : Type} [Medium μ] [LawfulMedium μ]

/-- The feed is within a run of which `rest` is to come; then come these runs, of the entries that it
has not looked at. -/
def Faces (f : BandFeed μ) (rest : List UInt8) (runs : List (List UInt8)) : Prop :=
  ∃ before after : List StoreEntry, f.store.Contains (before ++ after) ∧
    (∀ e ∈ before ++ after, e.Addressable) ∧ f.store.commandLength < 18446744073709551616 ∧
    f.next = before.length ∧
    rest = (((before ++ after).flatMap bytes).drop f.position).take (f.stop - f.position) ∧
    runs = (if f.done then [] else bandRuns after f.band) ∧
    f.stop ≤ ((before ++ after).flatMap bytes).length

theorem Faces.lt_stop_iff {f : BandFeed μ} {rest : List UInt8} {runs : List (List UInt8)}
    (h : Faces f rest runs) : f.position < f.stop ↔ rest ≠ [] := by
  obtain ⟨before, after, -, -, -, -, rfl, -, hstop⟩ := h
  rw [← List.length_pos_iff, List.length_take, List.length_drop]
  omega

/-- A run that is read to its end gives way to the next one. -/
def nextRun : List UInt8 → List (List UInt8) → List UInt8 × List (List UInt8)
  | [], first :: runs => (first, runs)
  | rest, runs => (rest, runs)

theorem nextRun_of_ne {rest : List UInt8} (h : rest ≠ []) (runs : List (List UInt8)) :
    nextRun rest runs = (rest, runs) := by
  cases rest with
  | nil => exact absurd rfl h
  | cons b rest => rfl

/-! ### The step to the next record -/

section

omit [LawfulMedium μ]

variable {f : BandFeed μ} {r : BlockRecord}

@[simp] theorem advance_of_lt (h : f.position < f.stop) (n : Nat) : advance n f = .ok f := by
  cases n with
  | zero => rfl
  | succ n => simp [advance, h, pure, Except.pure]

@[simp] theorem advance_of_done (h : f.done = true) (n : Nat) : advance n f = .ok f := by
  cases n with
  | zero => rfl
  | succ n => simp [advance, h, pure, Except.pure]

theorem advance_of_none (hdone : f.done = false) (hend : ¬ f.position < f.stop)
    (hr : f.store.record? f.next = .ok none) (n : Nat) :
    advance (n + 1) f = .ok { f with done := true } := by
  have hlook : (f.done || decide (f.position < f.stop)) = false := by simp [hdone, hend]
  simp only [advance, hlook, hr, bind, Except.bind, pure, Except.pure]
  rfl

/-- Behind a record the scan ends, goes on, or stays in the run of the record. -/
theorem advance_of_some (hdone : f.done = false) (hend : ¬ f.position < f.stop)
    (hr : f.store.record? f.next = .ok (some r)) (n : Nat) :
    advance (n + 1) f =
      if r.isSentinel then .ok { f with next := f.next + 1, done := true }
      else if r.appliesTo f.band then
        f.store.runEnd (f.next + 1) >>= fun stop =>
          advance n { f with next := f.next + 1, position := r.position, stop }
      else advance n { f with next := f.next + 1 } := by
  have hlook : (f.done || decide (f.position < f.stop)) = false := by simp [hdone, hend]
  simp only [advance, hlook, hr, bind, Except.bind, pure, Except.pure]
  rfl

end

/-- A feed that has come to a run is in front of its bytes. -/
theorem faces_run {f : BandFeed μ} {before after : List StoreEntry} {bands : BandRange}
    {body : List UInt8} {last : UInt8}
    (hc : f.store.Contains (before ++ [run bands body last] ++ after))
    (ha : ∀ e ∈ before ++ [run bands body last] ++ after, e.Addressable)
    (hlen : f.store.commandLength < 18446744073709551616) (hnext : f.next = before.length)
    (hdone : f.done = false) :
    Faces { f with
      next := f.next + 1
      position := (before.flatMap bytes).length
      stop := ((before ++ [run bands body last]).flatMap bytes).length }
      (body ++ [last]) (bandRuns after f.band) := by
  refine ⟨before ++ [run bands body last], after, hc, ha, hlen, ?_, ?_, ?_, ?_⟩
  · simp [hnext]
  · simp [bytes, List.take_append]
  · simp [hdone]
  · simp

/-- Looking for the next run finds it if there is one, and stays within a run that is not at its
end. -/
theorem advance_eq {f : BandFeed μ} {rest : List UInt8} {runs : List (List UInt8)}
    (h : Faces f rest runs) {n : Nat} (hn : f.store.recordCount - f.next < n) :
    ∃ f', advance n f = .ok f' ∧ Faces f' (nextRun rest runs).1 (nextRun rest runs).2 := by
  induction n generalizing f with
  | zero => omega
  | succ n ih =>
    by_cases hpos : f.position < f.stop
    · refine ⟨f, advance_of_lt hpos _, ?_⟩
      rwa [nextRun_of_ne (h.lt_stop_iff.mp hpos)]
    have hnil : rest = [] := by
      by_contra hne
      exact hpos (h.lt_stop_iff.mpr hne)
    subst hnil
    have hface := h
    obtain ⟨before, after, hc, ha, hlen, hnext, hrest, hruns, hstop⟩ := h
    cases hdone : f.done with
    | true =>
      have hnone : runs = [] := by simpa [hdone] using hruns
      subst hnone
      exact ⟨f, advance_of_done hdone _, hface⟩
    | false =>
      replace hruns : runs = bandRuns after f.band := by simpa [hdone] using hruns
      cases after with
      | nil =>
        rw [bandRuns_nil] at hruns
        subst hruns
        have hread := BandStore.record?_of_le hc (i := f.next) (by simp [hnext])
        exact ⟨_, advance_of_none hdone hpos hread n, before, [], hc, ha, hlen, hnext, hrest, rfl,
          hstop⟩
      | cons e after =>
        have hae := ha e (by simp)
        have hread := BandStore.record?_eq hc rfl hae
        rw [← hnext] at hread
        have hstep := advance_of_some hdone hpos hread n
        have hnext' : f.next + 1 = (before ++ [e]).length := by simp [hnext]
        rw [List.append_cons before e after] at hc ha hrest hstop
        rw [isSentinel_record hae, appliesTo_record hae] at hstep
        cases e with
        | sentinel =>
          rw [bandRuns_sentinel] at hruns
          subst hruns
          exact ⟨_, hstep, before ++ [sentinel], after, hc, ha, hlen, hnext', hrest, rfl, hstop⟩
        | run bands body last =>
          have hsentinel : ¬ (run bands body last == sentinel) = true := Bool.false_ne_true
          have hisFor : isFor f.band (run bands body last) = bands.contains f.band := rfl
          rw [if_neg hsentinel, hisFor] at hstep
          rw [bandRuns_run] at hruns
          by_cases hfor : bands.contains f.band = true
          · -- The run's bytes are the ones between the ends of its two records.
            have hend := BandStore.runEnd_eq hc rfl
              (fun e he => ha e (List.mem_append_right _ he)) hlen
            rw [← hnext'] at hend
            have hoffset : (before.flatMap bytes).length < 18446744073709551616 := by
              rw [hc.commandLength, List.flatMap_append, List.flatMap_append, List.length_append,
                List.length_append] at hlen
              omega
            have hfaces := faces_run hc ha hlen hnext hdone
            rw [if_pos hfor, hend, position_record _ hoffset] at hstep
            rw [if_pos hfor] at hruns
            subst hruns
            exact ⟨_, hstep.trans (advance_of_lt (hfaces.lt_stop_iff.mpr (by simp)) n), hfaces⟩
          · rw [if_neg hfor] at hstep hruns
            have hcount : f.store.recordCount - (f.next + 1) < n := by
              have := hc.recordCount
              simp only [List.length_append] at this hnext'
              omega
            rw [hstep]
            refine ih (f := { f with next := f.next + 1 }) ⟨before ++ [run bands body last], after,
              hc, ha, hlen, hnext', hrest, ?_, hstop⟩ hcount
            simpa [hdone] using hruns

/-- A portion is the beginning of what is to come of one run, as far as there is room for it. -/
theorem read_faces {f : BandFeed μ} {rest : List UInt8} {runs : List (List UInt8)}
    (h : Faces f rest runs) {n : Nat} (hn : 0 < n) :
    ∃ f', read f n = .ok ((nextRun rest runs).1.take n, f') ∧
      Faces f' ((nextRun rest runs).1.drop n) (nextRun rest runs).2 := by
  obtain ⟨f', hf', hh⟩ := advance_eq h (n := f.store.recordCount - f.next + 2) (by omega)
  generalize (nextRun rest runs).1 = present at hh ⊢
  generalize (nextRun rest runs).2 = runs' at hh ⊢
  have hlt := hh.lt_stop_iff
  by_cases hpos : f'.position < f'.stop
  · obtain ⟨before, after, hc, ha, hlen, hnext, hrest, hruns, hstop⟩ := hh
    generalize hstream : (before ++ after).flatMap bytes = stream at hrest hstop
    have hread := LawfulMedium.readAt_eq hc.commands f'.position (min n (f'.stop - f'.position))
    have hportion : (stream.drop f'.position).take (min n (f'.stop - f'.position)) = present.take n := by
      rw [hrest, List.take_take]
    have hlength : (present.take n).length = min n (f'.stop - f'.position) := by
      rw [← hportion, List.length_take, List.length_drop]
      omega
    rw [hstream, hportion] at hread
    have hne : (present.take n).isEmpty = false := by
      rw [List.isEmpty_eq_false_iff, ← List.length_pos_iff]
      omega
    refine ⟨{ f' with position := f'.position + (present.take n).length }, ?_, before, after, hc, ha, hlen,
      hnext, ?_, hruns, by rw [hstream]; exact hstop⟩
    · simp only [read, Nat.pos_iff_ne_zero.mp hn, if_false, hf', bind, Except.bind, hpos, if_true,
        hread, BandStore.ofMedium, Except.mapError, hne, pure, Except.pure]
      rfl
    · dsimp only
      rw [hstream, hlength, hrest, List.drop_take, List.drop_drop]
      by_cases hle : n ≤ f'.stop - f'.position
      · rw [Nat.min_eq_left hle]
        congr 1
        omega
      · have hzero : f'.stop - f'.position - n = 0 := by omega
        have hzero' : f'.stop - (f'.position + min n (f'.stop - f'.position)) = 0 := by omega
        rw [hzero, hzero', List.take_zero, List.take_zero]
  · have hnil : present = [] := by
      by_contra hne
      exact hpos (hlt.mpr hne)
    rw [hnil] at hh ⊢
    rw [List.take_nil, List.drop_nil]
    refine ⟨f', ?_, hh⟩
    simp only [read, Nat.pos_iff_ne_zero.mp hn, if_false, hf', bind, Except.bind, hpos, pure,
      Except.pure]

/-- The feed is in front of these bytes. -/
def Holds (f : BandFeed μ) (remaining : List UInt8) : Prop :=
  ∃ rest runs, Faces f rest runs ∧ remaining = rest ++ runs.flatten

@[simp] theorem nextRun_append (rest : List UInt8) (runs : List (List UInt8)) :
    (nextRun rest runs).1 ++ (nextRun rest runs).2.flatten = rest ++ runs.flatten := by
  cases rest with
  | nil => cases runs <;> simp [nextRun]
  | cons b rest => rfl

/-- There are no runs without a byte. -/
theorem Faces.nextRun_eq_nil {f : BandFeed μ} {rest : List UInt8} {runs : List (List UInt8)}
    (h : Faces f rest runs) (hnil : (nextRun rest runs).1 = []) : rest = [] ∧ runs = [] := by
  cases rest with
  | cons b rest => exact absurd hnil (List.cons_ne_nil b rest)
  | nil =>
    cases runs with
    | nil => exact ⟨rfl, rfl⟩
    | cons run runs =>
      obtain ⟨before, after, -, -, -, -, -, hruns, -⟩ := h
      split at hruns
      · cases hruns
      · exact absurd hnil (ne_nil_of_mem_bandRuns (hruns ▸ List.mem_cons_self))

theorem read_eq {f : BandFeed μ} {remaining : List UInt8} (h : Holds f remaining) {n : Nat}
    (hn : 0 < n) :
    ∃ portion rest f', read f n = .ok (portion, f') ∧ Holds f' rest ∧
      remaining = portion ++ rest ∧ portion.length ≤ n ∧ (portion = [] → rest = []) := by
  obtain ⟨rest, runs, hfaces, rfl⟩ := h
  obtain ⟨f', hread, hfaces'⟩ := read_faces hfaces hn
  refine ⟨_, _, f', hread, ⟨_, _, hfaces', rfl⟩, ?_, List.length_take_le .., fun hnil => ?_⟩
  · rw [← List.append_assoc, List.take_append_drop, nextRun_append]
  · have hrun : (nextRun rest runs).1 = [] := by
      cases hcase : (nextRun rest runs).1 with
      | nil => rfl
      | cons b run =>
        obtain ⟨m, rfl⟩ := Nat.exists_eq_succ_of_ne_zero (Nat.pos_iff_ne_zero.mp hn)
        rw [hcase, List.take_succ_cons] at hnil
        cases hnil
    obtain ⟨rfl, rfl⟩ := hfaces.nextRun_eq_nil hrun
    simp [nextRun]

instance : LawfulFeed (BandFeed μ) where
  Holds := Holds
  read_eq := read_eq
  length_le_remaining := by
    rintro f remaining ⟨rest, runs, ⟨before, after, hc, -, -, hnext, hrest, hruns, -⟩, rfl⟩
    have hsize := LawfulMedium.size_eq hc.commands
    have hcount : f.store.recordCount - f.next = after.length := by
      rw [hc.recordCount, hnext, List.length_append, Nat.add_sub_cancel_left]
    have hbytes := length_bandBytes_le after f.band ((before ++ after).flatMap bytes).length
      fun e he => by
        obtain ⟨l₁, l₂, rfl⟩ := List.append_of_mem he
        simp only [List.flatMap_append, List.flatMap_cons, List.length_append]
        omega
    rw [hrest, hruns, List.length_append, List.length_take]
    refine Nat.add_le_add (Nat.min_le_left _ _) ?_
    rw [hcount, hsize]
    split
    · exact Nat.zero_le _
    · rw [flatten_bandRuns]
      exact hbytes

/-- A feed that has read nothing is in front of all runs that the first page holds for its band. -/
theorem faces_bandFeed {s : BandStore μ} {entries : List StoreEntry} (h : s.Contains entries)
    (ha : ∀ e ∈ entries, e.Addressable) (hlen : s.commandLength < 18446744073709551616)
    (band : Nat) : Faces (s.bandFeed band) [] (bandRuns entries band) :=
  ⟨[], entries, h, ha, hlen, rfl, by simp [BandStore.bandFeed], rfl, Nat.zero_le _⟩

/-- A feed that has read nothing is in front of everything the first page holds for its band. -/
theorem holds_bandFeed {s : BandStore μ} {entries : List StoreEntry} (h : s.Contains entries)
    (ha : ∀ e ∈ entries, e.Addressable) (hlen : s.commandLength < 18446744073709551616)
    (band : Nat) : LawfulFeed.Holds (s.bandFeed band) (StoreEntry.bandBytes entries band) :=
  ⟨[], bandRuns entries band, faces_bandFeed h ha hlen band, by rw [flatten_bandRuns, List.nil_append]⟩

end BandFeed

end BandedPage
