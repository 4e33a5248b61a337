import Mathlib
import BandedPage.Proofs.Bits.Basic
import BandedPage.Proofs.Computation
import BandedPage.Proofs.Word
import BandedPage.Store.Basic
import BandedPage.Store.Memory

/-!
# What a band store contains

A lawful medium is known by the bytes it holds. Its operations succeed on a medium that is in
order, writing at its end appends, and reading gives what is there. Writing anywhere else is never
needed: a band store only grows, and is emptied as a whole. `MemoryMedium` is lawful as long as
nothing about it is broken.

A store is a list of entries: runs of commands, each for a range of bands, and the sentinels that
close pages. `Contains` says that both media hold just what these entries amount to. Every
operation is an operation on the list, and the records read from the index are those of the
entries, with the offsets at which the runs begin.
-/

namespace BandedPage

/-- A medium that is known by the bytes it holds while it is in order. -/
class LawfulMedium (μ : Type) [Medium μ] where
  /-- The medium is in order and holds these bytes. -/
  Holds : μ → List UInt8 → Prop
  writeAt_end {m : μ} {bytes : List UInt8} (h : Holds m bytes) (more : List UInt8) :
    ∃ m', Medium.writeAt m bytes.length more = .ok m' ∧ Holds m' (bytes ++ more)
  readAt_eq {m : μ} {bytes : List UInt8} (h : Holds m bytes) (position n : Nat) :
    Medium.readAt m position n = .ok ((bytes.drop position).take n)
  truncate_eq {m : μ} {bytes : List UInt8} (h : Holds m bytes) :
    ∃ m', Medium.truncate m = .ok m' ∧ Holds m' []
  size_eq {m : μ} {bytes : List UInt8} (h : Holds m bytes) : Medium.size m = bytes.length

namespace MemoryMedium

/-- Writing at the end fills no gap and replaces nothing. -/
@[simp] theorem written_end (bytes : Bytes) (data : List UInt8) :
    (written bytes bytes.size data).toList = bytes.toList ++ data := by
  have hlen : bytes.size + data.length ≤
      (bytes ++ Array.replicate (bytes.size + data.length - bytes.size) (0 : UInt8)).size := by
    simp
  rw [written, Bits.toList_overwrite hlen]
  simp

/-- The medium of `bytes`, with nothing broken. -/
def Sound (m : MemoryMedium) (bytes : List UInt8) : Prop := m.faults = {} ∧ m.bytes.toList = bytes

instance : LawfulMedium MemoryMedium where
  Holds := Sound
  writeAt_end := by
    rintro ⟨stored, _⟩ _ ⟨rfl, rfl⟩ more
    refine ⟨⟨written stored stored.size more, {}⟩, rfl, rfl, ?_⟩
    exact written_end stored more
  readAt_eq := by
    rintro ⟨stored, _⟩ _ ⟨rfl, rfl⟩ position n
    change Except.ok _ = _
    rw [Array.toList_extract, List.extract_eq_take_drop, Nat.add_sub_cancel_left]
  truncate_eq := by
    rintro ⟨stored, _⟩ _ ⟨rfl, rfl⟩
    exact ⟨⟨#[], {}⟩, rfl, rfl, rfl⟩
  size_eq := by
    rintro ⟨stored, _⟩ _ ⟨rfl, rfl⟩
    exact Array.length_toList.symm

theorem sound_empty : Sound {} [] := ⟨rfl, rfl⟩

end MemoryMedium

/-- What one record of the block index stands for. -/
inductive StoreEntry where
  /-- Commands for some bands, and the command that ends them. -/
  | run (bands : BandRange) (body : List UInt8) (last : UInt8)
  /-- The end of a page. -/
  | sentinel
  deriving DecidableEq, Repr

namespace StoreEntry

/-- The bytes of the entry in the command stream. -/
def bytes : StoreEntry → List UInt8
  | run _ body last => body ++ [last]
  | sentinel => []

def record (offset : Nat) : StoreEntry → BlockRecord
  | run bands _ _ => .ofRun bands offset
  | sentinel => .sentinel offset

/-- The range of bands is one that a record can name. -/
def Addressable : StoreEntry → Prop
  | run bands _ _ => bands.min < 2147483648 ∧ bands.max < 2147483648
  | sentinel => True

def isFor (band : Nat) : StoreEntry → Bool
  | run bands _ _ => bands.contains band
  | sentinel => false

/-- The records of entries whose bytes begin at `offset`. -/
def records : Nat → List StoreEntry → List BlockRecord
  | _, [] => []
  | offset, e :: es => e.record offset :: records (offset + e.bytes.length) es

@[simp] theorem length_records (offset : Nat) (es : List StoreEntry) :
    (records offset es).length = es.length := by
  induction es generalizing offset with
  | nil => rfl
  | cons e es ih => simp [records, ih]

@[simp] theorem records_append (offset : Nat) (es es' : List StoreEntry) :
    records offset (es ++ es') =
      records offset es ++ records (offset + (es.flatMap bytes).length) es' := by
  induction es generalizing offset with
  | nil => simp [records]
  | cons e es ih => simp [records, ih, Nat.add_assoc]

/-- The record of the entry behind the entries `es`. -/
@[simp] theorem getElem?_records (offset : Nat) (es : List StoreEntry) (e : StoreEntry)
    (es' : List StoreEntry) :
    (records offset (es ++ e :: es'))[es.length]? =
      some (e.record (offset + (es.flatMap bytes).length)) := by
  rw [records_append, List.getElem?_append_right (by simp)]
  simp [records]

end StoreEntry

namespace BlockRecord

/-- A record whose numbers fit their fields. -/
def Fits (r : BlockRecord) : Prop :=
  Word.fits32 r.bandMin = true ∧ Word.fits32 r.bandMax = true ∧
    -9223372036854775808 ≤ r.offset ∧ r.offset < 9223372036854775808

theorem ofBytes_toBytes {r : BlockRecord} (h : r.Fits) : ofBytes r.toBytes = r := by
  obtain ⟨hmin, hmax, hlo, hhi⟩ := h
  have words : r.toBytes.take 4 = Word.littleEndian 4 (Word.pattern32 r.bandMin) ∧
      (r.toBytes.drop 4).take 4 = Word.littleEndian 4 (Word.pattern32 r.bandMax) ∧
      (r.toBytes.drop 8).take 8 = Word.littleEndian 8 (Word.pattern 64 r.offset) := by
    simp [toBytes, List.drop_append, List.take_of_length_le]
  obtain ⟨w₁, w₂, w₃⟩ := words
  rw [ofBytes, w₁, w₂, w₃,
    Word.ofLittleEndian_littleEndian_of_lt (by exact Word.pattern32_lt _),
    Word.ofLittleEndian_littleEndian_of_lt (by exact Word.pattern32_lt _),
    Word.ofLittleEndian_littleEndian_of_lt (by exact Word.pattern_lt 64 _),
    Word.wrap32_pattern32_of_fits32 hmin, Word.wrap32_pattern32_of_fits32 hmax,
    Word.signed64_pattern64 hlo hhi]

end BlockRecord

namespace StoreEntry

theorem fits_record {e : StoreEntry} (h : e.Addressable) (offset : Nat) :
    (e.record offset).Fits := by
  have hsigned := Word.signed64_eq_bmod offset
  rw [Int.bmod_def] at hsigned
  cases e with
  | run bands body last =>
    obtain ⟨hmin, hmax⟩ := h
    simp only [record, BlockRecord.ofRun, BlockRecord.Fits, Word.wrap32_natCast hmin,
      Word.wrap32_natCast hmax, Word.fits32_iff]
    omega
  | sentinel =>
    simp only [record, BlockRecord.sentinel, BlockRecord.Fits, Word.fits32_iff]
    omega

@[simp] theorem isSentinel_record {e : StoreEntry} (h : e.Addressable) (offset : Nat) :
    (e.record offset).isSentinel = (e == sentinel) := by
  cases e with
  | run bands body last =>
    have hwrap : Word.wrap32 bands.min = bands.min := Word.wrap32_natCast h.1
    have hne : ((bands.min : Int) == -1) = false := by
      simp
    simp only [record, BlockRecord.ofRun, BlockRecord.isSentinel, hwrap, hne, Bool.false_and]
    rfl
  | sentinel => rfl

@[simp] theorem appliesTo_record {e : StoreEntry} (h : e.Addressable) (offset band : Nat) :
    (e.record offset).appliesTo band = e.isFor band := by
  have hsentinel := isSentinel_record h offset
  cases e with
  | run bands body last =>
    have hmin : Word.wrap32 bands.min = bands.min := Word.wrap32_natCast h.1
    have hmax : Word.wrap32 bands.max = bands.max := Word.wrap32_natCast h.2
    have hrun : (run bands body last == sentinel) = false := rfl
    rw [hrun] at hsentinel
    simp only [BlockRecord.appliesTo, hsentinel, isFor, BandRange.contains]
    simp [record, BlockRecord.ofRun, hmin, hmax]
  | sentinel => rfl

@[simp]
theorem position_record (e : StoreEntry) {offset : Nat} (ho : offset < 18446744073709551616) :
    (e.record offset).position = offset := by
  have hposition := Word.pattern64_signed64 ho
  cases e <;>
    simp [record, BlockRecord.ofRun, BlockRecord.sentinel, BlockRecord.position, hposition]

end StoreEntry

/-- A cell of a table of cells of equal size. -/
theorem take_drop_flatMap {α β : Type} {f : α → List β} {size : Nat}
    (h : ∀ a, (f a).length = size) (l : List α) (i : Nat) :
    ((l.flatMap f).drop (i * size)).take size = (l[i]?.map f).getD [] := by
  induction l generalizing i with
  | nil => simp
  | cons a l ih =>
    cases i with
    | zero => simp [h a]
    | succ i =>
      have hsize : (i + 1) * size = (f a).length + i * size := by
        rw [h a, Nat.succ_mul, Nat.add_comm]
      rw [List.flatMap_cons, hsize, ← List.drop_drop, List.drop_left, ih]
      simp

namespace BandStore

variable {μ : Type} [Medium μ] [LawfulMedium μ]

/-- The media hold these entries. -/
structure Contains (s : BandStore μ) (entries : List StoreEntry) : Prop where
  commands : LawfulMedium.Holds s.commands (entries.flatMap StoreEntry.bytes)
  index : LawfulMedium.Holds s.index
    ((StoreEntry.records 0 entries).flatMap BlockRecord.toBytes)
  commandLength : s.commandLength = (entries.flatMap StoreEntry.bytes).length
  recordCount : s.recordCount = entries.length

variable {s : BandStore μ} {entries : List StoreEntry}

@[simp] theorem length_flatMap_toBytes (records : List BlockRecord) :
    (records.flatMap BlockRecord.toBytes).length = records.length * BlockRecord.size := by
  induction records with
  | nil => simp
  | cons r records ih =>
    simp [ih, Nat.succ_mul, Nat.add_comm]

/-- A record goes to the end of the index and changes nothing else. -/
theorem putRecord_eq {records : List BlockRecord}
    (hi : LawfulMedium.Holds s.index (records.flatMap BlockRecord.toBytes))
    (hc : s.recordCount = records.length) (r : BlockRecord) :
    ∃ index, LawfulMedium.Holds index ((records ++ [r]).flatMap BlockRecord.toBytes) ∧
      putRecord r s = .ok () { s with index, recordCount := s.recordCount + 1 } := by
  obtain ⟨index, hw, hh⟩ := LawfulMedium.writeAt_end hi r.toBytes
  rw [length_flatMap_toBytes, ← hc] at hw
  refine ⟨index, by simpa using hh, ?_⟩
  simp only [putRecord, get_bind_run, ofMedium, hw, Except.mapError, lift_ok_bind_run, set_run]

/-- A run is appended to the stream, and its record to the index. -/
theorem writeRun_eq (h : s.Contains entries) (bands : BandRange) (run : List UInt8)
    (last : UInt8) :
    ∃ s', writeRun bands run last s = .ok () s' ∧
      s'.Contains (entries ++ [.run bands run last]) := by
  obtain ⟨commands, hw, hh⟩ := LawfulMedium.writeAt_end h.commands (run ++ [last])
  rw [← h.commandLength] at hw
  have hcount : s.recordCount = (StoreEntry.records 0 entries).length := by
    simp [h.recordCount]
  obtain ⟨index, hindex, hput⟩ := putRecord_eq (s := { s with commands }) h.index hcount
    (.ofRun bands s.commandLength)
  refine ⟨{ commands, index, commandLength := s.commandLength + run.length + 1
            recordCount := s.recordCount + 1 }, ?_, ?_⟩
  · simp only [writeRun, get_bind_run, ofMedium, hw, Except.mapError, lift_ok_bind_run,
      set_bind_run]
    simp [bind_of_ok hput]
  · constructor
    · simpa [StoreEntry.bytes] using hh
    · rw [StoreEntry.records_append, Nat.zero_add, ← h.commandLength]
      exact hindex
    · simp [h.commandLength, StoreEntry.bytes, Nat.add_assoc]
    · simp [h.recordCount]

/-- A sentinel has a record and no commands. -/
theorem writeSentinel_eq (h : s.Contains entries) :
    ∃ s', writeSentinel s = .ok () s' ∧ s'.Contains (entries ++ [.sentinel]) := by
  have hcount : s.recordCount = (StoreEntry.records 0 entries).length := by
    simp [h.recordCount]
  obtain ⟨index, hindex, hput⟩ := putRecord_eq h.index hcount (.sentinel s.commandLength)
  refine ⟨{ s with index, recordCount := s.recordCount + 1 }, ?_, ?_⟩
  · simp [writeSentinel, hput]
  · constructor
    · simpa [StoreEntry.bytes] using h.commands
    · rw [StoreEntry.records_append, Nat.zero_add, ← h.commandLength]
      exact hindex
    · simp [h.commandLength, StoreEntry.bytes]
    · simp [h.recordCount]

/-- An emptied store contains nothing. -/
theorem truncate_eq (h : s.Contains entries) :
    ∃ s', truncate s = .ok () s' ∧ s'.Contains [] := by
  obtain ⟨commands, htc, hc⟩ := LawfulMedium.truncate_eq h.commands
  obtain ⟨index, hti, hi⟩ := LawfulMedium.truncate_eq h.index
  refine ⟨{ commands, index }, ?_, ?_⟩
  · simp only [truncate, get_bind_run, ofMedium, htc, hti, Except.mapError, lift_ok_bind_run,
      set_bind_run, set_run]
  · exact ⟨hc, hi, rfl, rfl⟩

/-- The record of each entry is found in its place. -/
theorem record?_eq (h : s.Contains entries) {before after : List StoreEntry} {e : StoreEntry}
    (hsplit : entries = before ++ e :: after) (ha : e.Addressable) :
    s.record? before.length =
      .ok (some (e.record (before.flatMap StoreEntry.bytes).length)) := by
  have hcount : ¬ s.recordCount ≤ before.length := by
    rw [h.recordCount, hsplit, List.length_append, List.length_cons]
    omega
  have hcell := take_drop_flatMap BlockRecord.length_toBytes (StoreEntry.records 0 entries)
    before.length
  rw [hsplit, StoreEntry.getElem?_records, Nat.zero_add, Option.map_some, Option.getD_some] at hcell
  have hread := LawfulMedium.readAt_eq h.index (before.length * BlockRecord.size) BlockRecord.size
  rw [hsplit, hcell] at hread
  have hfits := BlockRecord.ofBytes_toBytes
    (StoreEntry.fits_record ha (before.flatMap StoreEntry.bytes).length)
  simp only [record?, if_neg hcount, hread, ofMedium, Except.mapError, bind, Except.bind, pure,
    Except.pure, BlockRecord.length_toBytes, lt_irrefl, if_false, hfits]

/-- There is no record behind the last entry. -/
theorem record?_of_le (h : s.Contains entries) {i : Nat} (hi : entries.length ≤ i) :
    s.record? i = .ok none := by
  have hcount : s.recordCount ≤ i := by
    rw [h.recordCount]
    exact hi
  simp only [record?, if_pos hcount, pure, Except.pure]

/-- A run ends where the next record's bytes begin. -/
theorem runEnd_eq (h : s.Contains entries) {before after : List StoreEntry}
    (hsplit : entries = before ++ after) (ha : ∀ e ∈ after, e.Addressable)
    (hlen : s.commandLength < 18446744073709551616) :
    s.runEnd before.length = .ok (before.flatMap StoreEntry.bytes).length := by
  cases after with
  | nil =>
    have hall : entries = before := by simpa using hsplit
    rw [runEnd, record?_of_le h (by rw [hall])]
    simp only [bind, Except.bind, pure, Except.pure, h.commandLength, hall]
  | cons e after =>
    have hoffset : (before.flatMap StoreEntry.bytes).length < 18446744073709551616 := by
      rw [h.commandLength, hsplit, List.flatMap_append, List.length_append] at hlen
      omega
    rw [runEnd, record?_eq h hsplit (ha e (by simp))]
    simp only [bind, Except.bind, pure, Except.pure, StoreEntry.position_record e hoffset]

end BandStore

end BandedPage

/-!
## The runs that the index assigns to a band

A reader of the block index finds the runs of a band one by one: a run is for the band if its
record applies to it, and reaches from the record's position to that of the next record. What it
finds are the entries that are for the band.
-/

namespace BandedPage.BandStore

section

variable {μ : Type} [Medium μ]

/-- The bytes of run number `i` if its record applies to `band`. -/
def runFor? (s : BandStore μ) (band i : Nat) : Except Error (Option (List UInt8)) := do
  match ← s.record? i with
  | some r =>
    if r.appliesTo band then
      let stop ← s.runEnd (i + 1)
      return some (← ofMedium (Medium.readAt s.commands r.position (stop - r.position)))
    else return none
  | none => return none

/-- The runs whose records apply to `band`, in index order. -/
def runsFor (s : BandStore μ) (band : Nat) : Except Error (List (List UInt8)) := do
  let found ← (List.range s.recordCount).mapM (s.runFor? band)
  return found.filterMap id

end

theorem mapM_eq_ok {α β : Type} {f : α → Except Error β} {g : α → β} {l : List α}
    (h : ∀ a ∈ l, f a = .ok (g a)) : l.mapM f = .ok (l.map g) := by
  induction l with
  | nil => rfl
  | cons a l ih =>
    rw [List.mapM_cons, h a List.mem_cons_self, ih fun b hb => h b (List.mem_cons_of_mem _ hb)]
    rfl

theorem filterMap_ite {α β : Type} (p : α → Bool) (f : α → β) (l : List α) :
    l.filterMap (fun a => if p a then some (f a) else none) = (l.filter p).map f := by
  induction l with
  | nil => rfl
  | cons a l ih =>
    by_cases hp : p a = true
    · simp [hp, ih]
    · simp [hp, ih]

variable {μ : Type} [Medium μ] [LawfulMedium μ] {s : BandStore μ} {entries : List StoreEntry}

theorem runFor?_eq (h : s.Contains entries) (ha : ∀ e ∈ entries, e.Addressable)
    (hlen : s.commandLength < 18446744073709551616) (band : Nat) {i : Nat} (hi : i < entries.length) :
    s.runFor? band i =
      .ok (if entries[i].isFor band then some entries[i].bytes else none) := by
  have hsplit : entries = entries.take i ++ entries[i] :: entries.drop (i + 1) := by
    rw [← List.drop_eq_getElem_cons hi, List.take_append_drop]
  have hbefore : (entries.take i).length = i := List.length_take_of_le (Nat.le_of_lt hi)
  generalize entries[i] = e at hsplit ⊢
  generalize entries.take i = before at hsplit hbefore
  generalize entries.drop (i + 1) = after at hsplit
  subst hsplit
  have hae : e.Addressable := ha e (by simp)
  have hread := record?_eq h rfl hae
  have hoffset : (before.flatMap StoreEntry.bytes).length < 18446744073709551616 := by
    rw [h.commandLength, List.flatMap_append, List.length_append] at hlen
    omega
  rw [hbefore] at hread
  by_cases hfor : e.isFor band = true
  · have hentries : before ++ e :: after = (before ++ [e]) ++ after := by simp
    have hend := runEnd_eq h hentries
      (fun e' he' => ha e' (by simp [he'])) hlen
    have hcount : (before ++ [e]).length = i + 1 := by simp [hbefore]
    have hbytes := LawfulMedium.readAt_eq h.commands (before.flatMap StoreEntry.bytes).length
      (((before ++ [e]).flatMap StoreEntry.bytes).length -
        (before.flatMap StoreEntry.bytes).length)
    have hrun : (((before ++ e :: after).flatMap StoreEntry.bytes).drop
        (before.flatMap StoreEntry.bytes).length).take
        (((before ++ [e]).flatMap StoreEntry.bytes).length -
          (before.flatMap StoreEntry.bytes).length) = e.bytes := by
      simp
    rw [hrun] at hbytes
    rw [hcount] at hend
    simp only [runFor?, hread, bind, Except.bind, StoreEntry.appliesTo_record hae, hfor, if_true,
      hend, StoreEntry.position_record e hoffset, hbytes, ofMedium, Except.mapError, pure,
      Except.pure]
  · simp only [runFor?, hread, bind, Except.bind, StoreEntry.appliesTo_record hae, hfor, pure,
      Except.pure]
    rfl

/-- The runs of a band are the entries for it. -/
theorem runsFor_eq (h : s.Contains entries) (ha : ∀ e ∈ entries, e.Addressable)
    (hlen : s.commandLength < 18446744073709551616) (band : Nat) :
    s.runsFor band = .ok ((entries.filter (·.isFor band)).map StoreEntry.bytes) := by
  have hfound : (List.range s.recordCount).mapM (s.runFor? band) =
      .ok ((List.range s.recordCount).map fun i => entries[i]?.bind fun e =>
        if e.isFor band then some e.bytes else none) := by
    refine mapM_eq_ok fun i hi => ?_
    have hi : i < entries.length := by
      rw [← h.recordCount]
      exact List.mem_range.mp hi
    rw [runFor?_eq h ha hlen band hi, List.getElem?_eq_getElem hi]
    rfl
  have hentries : ((List.range s.recordCount).map fun i => entries[i]?.bind fun e =>
      if e.isFor band then some e.bytes else none) =
      entries.map fun e => if e.isFor band then some e.bytes else none := by
    refine List.ext_getElem (by simp [h.recordCount]) fun i hi hi' => ?_
    have hi : i < entries.length := by simpa using hi'
    simp [List.getElem?_eq_getElem hi]
  have hkept : (entries.map fun e => if e.isFor band then some e.bytes else none).filterMap id =
      (entries.filter (·.isFor band)).map StoreEntry.bytes := by
    rw [List.filterMap_map]
    exact filterMap_ite (·.isFor band) StoreEntry.bytes entries
  simp only [runsFor, hfound, hentries, bind, Except.bind, pure, Except.pure, hkept]

end BandedPage.BandStore
