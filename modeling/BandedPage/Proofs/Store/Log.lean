import Mathlib
import BandedPage.Proofs.Computation
import BandedPage.Proofs.Store.Feed
import BandedPage.Proofs.Store.Content

/-!
# The band store is a log

Whatever is asked of a store, it contains the entries that were written since it was last emptied,
and so gives every band back the runs that were written for it. However they are read, they arrive
byte for byte and in order, and no portion takes from two of them.
-/

namespace BandedPage

/-- A request to a store. -/
inductive StoreRequest where
  | run (bands : BandRange) (body : List UInt8) (last : UInt8)
  | sentinel
  | truncate
  deriving DecidableEq, Repr

namespace StoreRequest

variable {μ : Type} [Medium μ]

def perform : StoreRequest → StoreM μ Unit
  | run bands body last => BandStore.writeRun bands body last
  | sentinel => BandStore.writeSentinel
  | truncate => BandStore.truncate

/-- What becomes of the entries of a store. -/
def apply (entries : List StoreEntry) : StoreRequest → List StoreEntry
  | run bands body last => entries ++ [.run bands body last]
  | sentinel => entries ++ [.sentinel]
  | truncate => []

/-- The entries written since the store was last emptied. -/
def written (requests : List StoreRequest) : List StoreEntry := requests.foldl apply []

/-- A record can name the bands. -/
def Addressable : StoreRequest → Prop
  | run bands _ _ => bands.min < 2147483648 ∧ bands.max < 2147483648
  | sentinel | truncate => True

theorem addressable_apply {entries : List StoreEntry} {r : StoreRequest}
    (hentries : ∀ e ∈ entries, e.Addressable) (hr : r.Addressable) :
    ∀ e ∈ apply entries r, e.Addressable := by
  intro e he
  cases r with
  | truncate => exact absurd he List.not_mem_nil
  | run bands body last =>
    rcases List.mem_append.mp he with he | he
    · exact hentries e he
    · rw [List.mem_singleton.mp he]
      exact hr
  | sentinel =>
    rcases List.mem_append.mp he with he | he
    · exact hentries e he
    · rw [List.mem_singleton.mp he]
      trivial

theorem addressable_foldl_apply {requests : List StoreRequest} {entries : List StoreEntry}
    (hentries : ∀ e ∈ entries, e.Addressable) (hrequests : ∀ r ∈ requests, r.Addressable) :
    ∀ e ∈ requests.foldl apply entries, e.Addressable := by
  induction requests generalizing entries with
  | nil => exact hentries
  | cons r requests ih =>
    exact ih (addressable_apply hentries (hrequests r List.mem_cons_self))
      fun r' hr' => hrequests r' (List.mem_cons_of_mem r hr')

variable [LawfulMedium μ] {s : BandStore μ} {entries : List StoreEntry}

/-- No request fails, and each has on the media the effect that it has on the entries. -/
theorem perform_eq (h : s.Contains entries) (r : StoreRequest) :
    ∃ s', r.perform s = .ok () s' ∧ s'.Contains (apply entries r) := by
  cases r with
  | run bands body last => exact BandStore.writeRun_eq h bands body last
  | sentinel => exact BandStore.writeSentinel_eq h
  | truncate => exact BandStore.truncate_eq h

theorem forM_perform_eq (h : s.Contains entries) (requests : List StoreRequest) :
    ∃ s', requests.forM perform s = .ok () s' ∧ s'.Contains (requests.foldl apply entries) := by
  induction requests generalizing s entries with
  | nil => exact ⟨s, rfl, h⟩
  | cons r requests ih =>
    obtain ⟨s₁, hrun₁, h₁⟩ := perform_eq h r
    obtain ⟨s₂, hrun₂, h₂⟩ := ih h₁
    exact ⟨s₂, (bind_of_ok hrun₁ _).trans hrun₂, h₂⟩

end StoreRequest

namespace BandStore

variable {μ : Type} [Medium μ] [LawfulMedium μ] {s : BandStore μ} {entries : List StoreEntry}

/-- The records that are read are those of the entries. -/
theorem records_eq (h : s.Contains entries) (ha : ∀ e ∈ entries, e.Addressable) :
    s.records = .ok (StoreEntry.records 0 entries) := by
  have hfound : (List.range s.recordCount).mapM s.record? =
      .ok ((List.range s.recordCount).map fun i => (StoreEntry.records 0 entries)[i]?) := by
    refine mapM_eq_ok fun i hi => ?_
    have hi : i < entries.length := by
      rw [← h.recordCount]
      exact List.mem_range.mp hi
    have hsplit : entries = entries.take i ++ entries[i] :: entries.drop (i + 1) := by
      rw [← List.drop_eq_getElem_cons hi, List.take_append_drop]
    have hbefore : (entries.take i).length = i := List.length_take_of_le (Nat.le_of_lt hi)
    have hread := record?_eq h hsplit (ha _ (List.getElem_mem hi))
    have hrecord := StoreEntry.getElem?_records 0 (entries.take i) entries[i] (entries.drop (i + 1))
    rw [← hsplit, Nat.zero_add] at hrecord
    rw [← hbefore, hread, hrecord]
  have hall : (List.range s.recordCount).map (fun i => (StoreEntry.records 0 entries)[i]?) =
      (StoreEntry.records 0 entries).map some := by
    refine List.ext_getElem (by simp [h.recordCount]) fun i hi hi' => ?_
    have hi : i < (StoreEntry.records 0 entries).length := by simpa using hi'
    simp [List.getElem?_eq_getElem hi]
  simp only [records, hfound, hall, bind, Except.bind, pure, Except.pure, List.filterMap_map]
  simp

end BandStore

namespace ByteFeed

variable {ρ : Type} [ByteFeed ρ]

/-- Read portions of at most the given sizes one after another. -/
def reads : List Nat → ρ → Except Error (List (List UInt8) × ρ)
  | [], feed => .ok ([], feed)
  | n :: sizes, feed => do
    let (portion, feed) ← read feed n
    let (portions, feed) ← reads sizes feed
    return (portion :: portions, feed)

variable [LawfulFeed ρ]

/-- With as many portions as there are bytes all of them are read. -/
theorem readPortions_eq {feed : ρ} {bytes : List UInt8} (h : LawfulFeed.Holds feed bytes) {n : Nat}
    (hn : bytes.length < n) : readPortions n feed = .ok bytes := by
  induction n generalizing feed bytes with
  | zero => omega
  | succ n ih =>
    obtain ⟨portion, rest, feed', hread, hrest, rfl, -, hend⟩ :=
      LawfulFeed.read_eq h (Nat.succ_pos (remaining feed))
    rw [Nat.succ_eq_add_one] at hread
    cases portion with
    | nil =>
      rw [hend rfl]
      simp only [readPortions, hread, bind, Except.bind, pure, Except.pure]
      rfl
    | cons b portion =>
      have hlength : rest.length < n := by
        simp only [List.cons_append, List.length_cons, List.length_append] at hn
        omega
      simp only [readPortions, hread, bind, Except.bind, ih hrest hlength, pure, Except.pure]

theorem readAll_eq {feed : ρ} {bytes : List UInt8} (h : LawfulFeed.Holds feed bytes) :
    readAll feed = .ok bytes :=
  readPortions_eq h (Nat.lt_succ_of_le (LawfulFeed.length_le_remaining h))

end ByteFeed

/-- So many bytes from `start` on, of runs that lie one after another, are bytes of one run: no run
ends between them. -/
def WithinRun (runs : List (List UInt8)) (start length : Nat) : Prop :=
  ∀ k, (runs.take k).flatten.length ≤ start ∨ start + length ≤ (runs.take k).flatten.length

/-- The portions are what reading runs with these sizes may give. -/
structure Delivers (runs : List (List UInt8)) (sizes : List Nat) (portions : List (List UInt8)) :
    Prop where
  lengths : List.Forall₂ (fun portion n => portion.length ≤ n) portions sizes
  inOrder : portions.flatten <+: runs.flatten
  within : ∀ before portion after, portions = before ++ portion :: after →
    WithinRun runs before.flatten.length portion.length
  /-- An empty portion that had room for a byte says that there are no more. -/
  complete : ∀ p ∈ portions.zip sizes, p.1 = [] → 0 < p.2 → portions.flatten = runs.flatten

namespace Delivers

variable {rest : List UInt8} {runs : List (List UInt8)} {sizes : List Nat}
variable {portions : List (List UInt8)}

theorem withinRun_cons_nil {start length : Nat} (h : WithinRun ([] :: runs) start length) :
    WithinRun runs start length :=
  fun k => h (k + 1)

theorem WithinRun.cons_nil {start length : Nat} (h : WithinRun runs start length) :
    WithinRun ([] :: runs) start length := by
  intro k
  cases k with
  | zero => exact .inl (Nat.zero_le _)
  | succ k => exact h k

/-- A run that has no bytes left makes no difference. -/
@[simp] theorem nil_iff : Delivers ([] :: runs) sizes portions ↔ Delivers runs sizes portions :=
  ⟨fun h => ⟨h.lengths, h.inOrder, fun b p a heq => withinRun_cons_nil (h.within b p a heq),
    h.complete⟩,
  fun h => ⟨h.lengths, h.inOrder, fun b p a heq => WithinRun.cons_nil (h.within b p a heq),
    h.complete⟩⟩

/-- One more portion in front, of the first run. -/
theorem cons {present : List UInt8} {n : Nat}
    (h : Delivers (present.drop n :: runs) sizes portions)
    (hend : 0 < n → present.take n = [] → present = [] ∧ runs = []) :
    Delivers (present :: runs) (n :: sizes) (present.take n :: portions) := by
  have hsplit : (present :: runs).flatten = present.take n ++ (present.drop n :: runs).flatten := by
    rw [List.flatten_cons, List.flatten_cons, ← List.append_assoc, List.take_append_drop]
  refine ⟨.cons (List.length_take_le ..) h.lengths, ?_, fun before portion after heq k => ?_, ?_⟩
  · rw [hsplit, List.flatten_cons]
    exact (List.prefix_append_right_inj _).mpr h.inOrder
  · cases k with
    | zero => exact .inl (Nat.zero_le _)
    | succ k =>
      have hlength : ((present :: runs).take (k + 1)).flatten.length =
          (present.take n).length + ((present.drop n :: runs).take (k + 1)).flatten.length := by
        simp only [List.take_succ_cons, List.flatten_cons, List.length_append, List.length_take,
          List.length_drop]
        omega
      rw [hlength]
      cases before with
      | nil =>
        obtain ⟨rfl, -⟩ := List.cons.inj heq
        exact .inr (by simp)
      | cons first before =>
        obtain ⟨rfl, -⟩ := List.cons.inj heq
        have := h.within before portion after (List.cons.inj heq).2 (k + 1)
        simp only [List.flatten_cons, List.length_append]
        omega
  · intro p hp hnil hpos
    rw [List.zip_cons_cons, List.mem_cons] at hp
    rcases hp with rfl | hp
    · obtain ⟨rfl, rfl⟩ := hend hpos hnil
      have := h.inOrder
      simpa using this
    · rw [hsplit, List.flatten_cons, h.complete p hp hnil hpos]

end Delivers

namespace BandFeed

variable {μ : Type} [Medium μ] [LawfulMedium μ] {f : BandFeed μ} {rest : List UInt8}
variable {runs : List (List UInt8)}

/-- However a feed is read, it delivers what is to come. -/
theorem reads_faces (h : Faces f rest runs) (sizes : List Nat) :
    ∃ portions f', ByteFeed.reads sizes f = .ok (portions, f') ∧
      Delivers (rest :: runs) sizes portions := by
  induction sizes generalizing f rest runs with
  | nil =>
    refine ⟨[], f, rfl, .nil, List.nil_prefix, fun before portion after heq => ?_, fun p hp => ?_⟩
    · exact absurd heq (by simp)
    · exact absurd hp List.not_mem_nil
  | cons n sizes ih =>
    rcases Nat.eq_zero_or_pos n with rfl | hn
    · obtain ⟨portions, f', hreads, hdelivers⟩ := ih h
      have hread : ByteFeed.read f 0 = .ok (rest.take 0, f) := by
        simp only [ByteFeed.read, read, if_true, List.take_zero, pure, Except.pure]
      refine ⟨_, f', ?_, Delivers.cons (n := 0) hdelivers fun hpos => absurd hpos (Nat.lt_irrefl 0)⟩
      simp only [ByteFeed.reads, hread, hreads, bind, Except.bind, pure, Except.pure]
    · obtain ⟨f₁, hread, h₁⟩ := read_faces h hn
      obtain ⟨portions, f', hreads, hdelivers⟩ := ih h₁
      have hend : 0 < n → (nextRun rest runs).1.take n = [] →
          (nextRun rest runs).1 = [] ∧ (nextRun rest runs).2 = [] := by
        intro hpos hnil
        have hpresent : (nextRun rest runs).1 = [] := by
          simpa [Nat.pos_iff_ne_zero.mp hpos] using hnil
        obtain ⟨rfl, rfl⟩ := h.nextRun_eq_nil hpresent
        exact ⟨rfl, rfl⟩
      have hall := hdelivers.cons hend
      refine ⟨(nextRun rest runs).1.take n :: portions, f', ?_, ?_⟩
      · change ByteFeed.read f n = _ at hread
        simp only [ByteFeed.reads, hread, hreads, bind, Except.bind, pure, Except.pure]
      · cases rest with
        | cons b rest => exact hall
        | nil =>
          cases runs with
          | nil => exact hall
          | cons first runs => exact Delivers.nil_iff.mpr hall

end BandFeed

/-- A store gives back what was written to it since it was last emptied: the lengths, the records,
and for every band the runs up to the first sentinel, in whatever portions they are read. -/
theorem BandStore.log_is_faithful {μ : Type} [Medium μ] [LawfulMedium μ] {store : BandStore μ}
    (hstore : store.Contains []) {requests : List StoreRequest}
    (hrequests : ∀ r ∈ requests, r.Addressable)
    (hlength : ((StoreRequest.written requests).flatMap StoreEntry.bytes).length <
      18446744073709551616) :
    ∃ s, requests.forM StoreRequest.perform store = .ok () s ∧
      s.commandLength = ((StoreRequest.written requests).flatMap StoreEntry.bytes).length ∧
      s.recordCount = (StoreRequest.written requests).length ∧
      s.records = .ok (StoreEntry.records 0 (StoreRequest.written requests)) ∧
      ∀ band, s.bandBytes band =
          .ok (StoreEntry.bandRuns (StoreRequest.written requests) band).flatten ∧
        ∀ sizes, ∃ portions feed,
          ByteFeed.reads sizes (s.bandFeed band) = .ok (portions, feed) ∧
            Delivers (StoreEntry.bandRuns (StoreRequest.written requests) band) sizes portions := by
  obtain ⟨s, hrun, hs⟩ := StoreRequest.forM_perform_eq hstore requests
  have hnone : ∀ e ∈ ([] : List StoreEntry), e.Addressable := by simp
  have ha := StoreRequest.addressable_foldl_apply hnone hrequests
  rw [← StoreRequest.written] at hs ha
  have hlen : s.commandLength < 18446744073709551616 := hs.commandLength ▸ hlength
  refine ⟨s, hrun, hs.commandLength, hs.recordCount, records_eq hs ha, fun band => ⟨?_, fun sizes => ?_⟩⟩
  · rw [StoreEntry.flatten_bandRuns]
    exact ByteFeed.readAll_eq (BandFeed.holds_bandFeed hs ha hlen band)
  · obtain ⟨portions, feed, hreads, hdelivers⟩ :=
      BandFeed.reads_faces (BandFeed.faces_bandFeed hs ha hlen band) sizes
    exact ⟨portions, feed, hreads, Delivers.nil_iff.mp hdelivers⟩

/-- Runs for several bands, of which the third band gets two before the page ends: what was there
before the store was emptied and what came after the sentinel is not among them. -/
theorem BandStore.third_band_of_log_is_faithful :
    ∃ s : BandStore MemoryMedium,
      [StoreRequest.run ⟨2, 2⟩ [9, 9] 0, .truncate, .run ⟨0, 0⟩ [1, 2] 0, .run ⟨0, 2⟩ [3] 0,
        .run ⟨2, 2⟩ [4, 5, 6] 0, .run ⟨1, 1⟩ [] 1, .sentinel, .run ⟨2, 2⟩ [7] 0].forM
        StoreRequest.perform ({ commands := {}, index := {} } : BandStore MemoryMedium) = .ok () s ∧
      s.commandLength = 12 ∧ s.recordCount = 6 ∧ s.bandBytes 2 = .ok [3, 0, 4, 5, 6, 0] ∧
      ∃ portions feed, ByteFeed.reads [1, 0, 9, 3, 9, 9] (s.bandFeed 2) = .ok (portions, feed) ∧
        Delivers [[3, 0], [4, 5, 6, 0]] [1, 0, 9, 3, 9, 9] portions := by
  have hempty : BandStore.Contains ({ commands := {}, index := {} } : BandStore MemoryMedium) [] :=
    ⟨MemoryMedium.sound_empty, MemoryMedium.sound_empty, rfl, rfl⟩
  have hrequests : ∀ r ∈ [StoreRequest.run ⟨2, 2⟩ [9, 9] 0, .truncate, .run ⟨0, 0⟩ [1, 2] 0,
      .run ⟨0, 2⟩ [3] 0, .run ⟨2, 2⟩ [4, 5, 6] 0, .run ⟨1, 1⟩ [] 1, .sentinel,
      .run ⟨2, 2⟩ [7] 0], r.Addressable := by
    simp [StoreRequest.Addressable]
  obtain ⟨s, hrun, hlength, hcount, -, hbands⟩ :=
    BandStore.log_is_faithful hempty hrequests (by decide)
  obtain ⟨hbytes, hreads⟩ := hbands 2
  exact ⟨s, hrun, hlength, hcount, hbytes, hreads [1, 0, 9, 3, 9, 9]⟩

end BandedPage
