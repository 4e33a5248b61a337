import Mathlib
import BandedPage.Proofs.Tile.Search

/-!
# A shelf of bitmaps

A cache without its arena and its table is a list of bitmaps, the oldest first: a new one comes last,
and as many of the first leave as must for it to have room. What a cache finds, counts and has room for
can be told from the shelf whose bitmaps it keeps.
-/

namespace BandedPage

/-- A bitmap with the bits that it was added with. -/
structure KeptBitmap where
  id : BitmapId
  size : TileSize
  bits : Bytes
  deriving DecidableEq, Repr

/-- Bitmaps, oldest first. -/
structure Shelf where
  /-- The most bytes that they may have. -/
  bytes : Nat
  /-- Three quarters of the slots may be filled. -/
  slots : Nat
  kept : List KeptBitmap := []

/-- What can be asked of a cache. -/
inductive CacheRequest where
  | lookup (id : BitmapId) (size : TileSize) (bits : Bytes)
  | mark (index band : Nat)
  | forget
  | compact
  | reset

namespace Shelf

/-- Bytes of some bitmaps. -/
def weight (kept : List KeptBitmap) : Nat := (kept.map (·.size.dataSize)).sum

/-- One more bitmap, of `need` bytes, has room beside `kept`. -/
def hasRoom (s : Shelf) (need : Nat) (kept : List KeptBitmap) : Bool :=
  kept.length + 1 ≤ s.slots * 3 / 4 && weight kept + need ≤ s.bytes

/-- How many of the oldest bitmaps leave for a new one, as few as it takes. Of one that has more than
half of the bytes, or comes without its bits, there is no number: it cannot come. -/
def leaving? (s : Shelf) (size : TileSize) (bits : Bytes) : Option Nat :=
  if s.bytes / 2 < size.dataSize || bits.size < size.dataSize then none
  else (List.range (s.kept.length + 1)).find? fun n => s.hasRoom size.dataSize (s.kept.drop n)

def holds (s : Shelf) (id : BitmapId) : Bool := s.kept.any (·.id = id)

/-- The `n` oldest bitmaps leave and a new one comes. -/
def replace (s : Shelf) (n : Nat) (id : BitmapId) (size : TileSize) (bits : Bytes) : Shelf :=
  { s with kept := s.kept.drop n ++ [{ id, size, bits := bits.extract 0 size.dataSize }] }

def perform (s : Shelf) : CacheRequest → Shelf
  | .lookup id size bits =>
    if s.holds id then s
    else
      match s.leaving? size bits with
      | some n => s.replace n id size bits
      | none => s
  | .reset => { s with kept := [] }
  | _ => s

variable {s : Shelf} {size : TileSize} {bits : Bytes} {n : Nat}

@[simp]
theorem slots_perform (s : Shelf) (request : CacheRequest) : (s.perform request).slots = s.slots := by
  cases request with
  | lookup id size bits =>
    rw [perform]
    split
    · rfl
    · split <;> rfl
  | mark | forget | compact | reset => rfl

/-- No fewer than `n` bitmaps leave, and there is room then. -/
theorem leaving?_eq_some (hsize : size.dataSize ≤ s.bytes / 2) (hbits : size.dataSize ≤ bits.size)
    (hn : n ≤ s.kept.length) (hroom : s.hasRoom size.dataSize (s.kept.drop n) = true)
    (hleast : ∀ m < n, s.hasRoom size.dataSize (s.kept.drop m) = false) :
    s.leaving? size bits = some n := by
  have hfits : ¬ (decide (s.bytes / 2 < size.dataSize) || decide (bits.size < size.dataSize)) = true := by
    simp [hsize, hbits]
  rw [leaving?, if_neg hfits, List.find?_range_eq_some]
  exact ⟨hroom, List.mem_range.mpr (Nat.lt_succ_of_le hn), fun m hm => by rw [hleast m hm]; rfl⟩

theorem leaving?_eq_none (h : ∀ m, s.hasRoom size.dataSize (s.kept.drop m) = false) :
    s.leaving? size bits = none := by
  rw [leaving?]
  split
  · rfl
  · rw [List.find?_eq_none]
    intro m _
    rw [h m]
    exact Bool.false_ne_true

end Shelf

namespace TileCache

def perform (c : TileCache) : CacheRequest → TileCache
  | .lookup id size bits => stateOf (lookupOrAdd id size bits c)
  | .mark index band => c.markBand index band
  | .forget => c.forgetBands
  | .compact => c.compact.1
  | .reset => c.reset

/-- The entry at `index` is the bitmap, and has its bits. -/
def Has (c : TileCache) (index : Nat) (b : KeptBitmap) : Prop :=
  ∃ e, c.entryAt index = some e ∧ e.id = b.id ∧ e.slot.size = b.size ∧ c.bits? index = some b.bits

/-- The entries of a cache are the bitmaps of a shelf, in the order in which they came. -/
structure Keeps (c : TileCache) (s : Shelf) : Prop where
  layout : c.Layout
  sought : c.Sought
  heapSize : c.heap.size = s.bytes
  tableSize : c.table.size = s.slots
  bitmaps : List.Forall₂ c.Has c.queue s.kept
  /-- There are no other entries. -/
  queued : ∀ i e, c.entryAt i = some e → i ∈ c.queue
  named : (s.kept.map (·.id)).Nodup
  count : c.count = s.kept.length
  count_le : s.kept.length ≤ s.slots * 3 / 4

/-- What a cache may answer that is asked for a bitmap, and what is left of it then. -/
inductive Answer (c : TileCache) (s : Shelf) (id : BitmapId) (size : TileSize) (bits : Bytes) :
    EStateM.Result Error TileCache CacheLookup → Prop where
  | found {i : Nat} (hheld : s.holds id = true) (hfind : c.find? id = some i) :
    Answer c s id size bits (.ok (.found i) c)
  | added {i n : Nat} {c' : TileCache} (hnew : s.holds id = false)
    (hleaving : s.leaving? size bits = some n) (hqueue : c'.queue = c.queue.drop n ++ [i])
    (hkeeps : c'.Keeps (s.replace n id size bits)) :
    Answer c s id size bits (.ok (.added i) c')
  | refused {e : Error} (hnew : s.holds id = false) (hnone : s.leaving? size bits = none) :
    Answer c s id size bits (.error e c)

variable {c : TileCache} {s : Shelf} {index i : Nat} {id : BitmapId} {b : KeptBitmap}

theorem has_iff : c.Has index b ↔
    ∃ e, c.entryAt index = some e ∧ e.id = b.id ∧ e.slot.size = b.size ∧
      c.bytesIn e.slot = b.bits := by
  refine exists_congr fun e => and_congr_right fun he => ?_
  rw [bits?, he, Option.map_some, Option.some.injEq]
  rfl

/-! ### What the entries tell of the bitmaps -/

namespace Keeps

/-- What is the same of an entry and its bitmap is so of all of them. -/
theorem map_eq {α : Type} {f : Nat → α} {g : KeptBitmap → α} (h : c.Keeps s)
    (hsame : ∀ i b, c.Has i b → f i = g b) : c.queue.map f = s.kept.map g := by
  rw [← List.forall₂_eq_eq_eq, List.forall₂_map_left_iff, List.forall₂_map_right_iff]
  exact h.bitmaps.imp hsame

theorem names (h : c.Keeps s) :
    c.queue.map (fun i => (c.entryAt i).map (·.id)) = (s.kept.map (·.id)).map some := by
  rw [List.map_map]
  refine h.map_eq fun i b hb => ?_
  obtain ⟨e, he, hid, -⟩ := hb
  rw [he, Option.map_some, hid]
  rfl

theorem nodup_names (h : c.Keeps s) :
    (c.queue.map fun i => (c.entryAt i).map (·.id)).Nodup := by
  rw [h.names]
  exact h.named.map (Option.some_injective _)

theorem nodup_queue (h : c.Keeps s) : c.queue.Nodup := h.nodup_names.of_map _

theorem distinct (h : c.Keeps s) : c.Distinct := by
  intro i j e e' he he' hid
  refine List.inj_on_of_nodup_map h.nodup_names (h.queued i e he) (h.queued j e' he') ?_
  rw [he, he', Option.map_some, Option.map_some, hid]

theorem holds_iff (h : c.Keeps s) : s.holds id = true ↔ ∃ i e, c.entryAt i = some e ∧ e.id = id := by
  have hmem : s.holds id = true ↔ some id ∈ c.queue.map fun i => (c.entryAt i).map (·.id) := by
    rw [h.names]
    simp [Shelf.holds]
  rw [hmem, List.mem_map]
  constructor
  · rintro ⟨i, -, hi⟩
    obtain ⟨e, he, hid⟩ := Option.map_eq_some_iff.mp hi
    exact ⟨i, e, he, hid⟩
  · rintro ⟨i, e, he, hid⟩
    exact ⟨i, h.queued i e he, by rw [he, Option.map_some, hid]⟩

theorem mem_queue_iff (h : c.Keeps s) : i ∈ c.queue ↔ ∃ e, c.entryAt i = some e := by
  refine ⟨fun hi => ?_, fun ⟨e, he⟩ => h.queued i e he⟩
  have hname := List.mem_map_of_mem (f := fun i => (c.entryAt i).map (·.id)) hi
  rw [h.names, List.mem_map] at hname
  obtain ⟨name, -, hname⟩ := hname
  obtain ⟨e, he, -⟩ := Option.map_eq_some_iff.mp hname.symm
  exact ⟨e, he⟩

theorem perm_queue (h : c.Keeps s) : (c.entries.map Prod.fst).Perm c.queue := by
  refine (List.perm_ext_iff_of_nodup (List.pairwise_map.mpr c.pairwise_entries) h.nodup_queue).mpr
    fun i => ?_
  rw [h.mem_queue_iff, List.mem_map]
  constructor
  · rintro ⟨⟨i, e⟩, hmem, rfl⟩
    exact ⟨e, mem_entries.mp hmem⟩
  · rintro ⟨e, he⟩
    exact ⟨(i, e), mem_entries.mpr he, rfl⟩

theorem length_entries (h : c.Keeps s) : c.entries.length = s.kept.length := by
  rw [← h.bitmaps.length_eq, ← h.perm_queue.length_eq, List.length_map]

theorem counted (h : c.Keeps s) : c.Counted := by
  rw [Counted, used_eq, h.length_entries, h.count]

theorem liveBytes_eq (h : c.Keeps s) : c.liveBytes = Shelf.weight s.kept := by
  obtain ⟨bytesAt, hbytesAt⟩ : ∃ bytesAt : Nat → Nat, ∀ i e, c.entryAt i = some e →
      bytesAt i = e.slot.size.dataSize :=
    ⟨fun i => ((c.entryAt i).map (·.slot.size.dataSize)).getD 0, fun i e he => by
      simp only [he, Option.map_some, Option.getD_some]⟩
  have hentries : (c.entries.map Prod.fst).map bytesAt =
      c.entries.map fun entry => entry.2.slot.size.dataSize := by
    rw [List.map_map]
    exact List.map_congr_left fun p hp => hbytesAt p.1 p.2 (mem_entries.mp hp)
  have hkept : c.queue.map bytesAt = s.kept.map (·.size.dataSize) := h.map_eq fun i b hb => by
    obtain ⟨e, he, -, hsize, -⟩ := hb
    rw [hbytesAt i e he, hsize]
  calc c.liveBytes = ((c.entries.map Prod.fst).map bytesAt).sum := by
        rw [TileCache.liveBytes_eq, sizeOf, hentries]
    _ = (c.queue.map bytesAt).sum := (h.perm_queue.map bytesAt).sum_eq
    _ = Shelf.weight s.kept := by rw [hkept, Shelf.weight]

theorem weight_le (h : c.Keeps s) : Shelf.weight s.kept ≤ s.bytes := by
  have hsliding := sliding_compact h.layout
  rw [← h.liveBytes_eq, ← hsliding.top_eq, ← h.heapSize, ← hsliding.retains.heapSize]
  exact hsliding.top_le

theorem hasRoom_eq (h : c.Keeps s) (need : Nat) : c.hasRoom need = s.hasRoom need s.kept := by
  have hle := h.weight_le
  have hfree : need ≤ c.freeBytes ↔ Shelf.weight s.kept + need ≤ s.bytes := by
    rw [freeBytes, h.liveBytes_eq, h.heapSize]
    omega
  rw [TileCache.hasRoom, Shelf.hasRoom, h.count, h.tableSize, decide_eq_decide.mpr hfree]

/-- A name is found where its entry is, and no other name is found. -/
theorem find?_eq_some_iff (h : c.Keeps s) :
    c.find? id = some i ↔ ∃ e, c.entryAt i = some e ∧ e.id = id :=
  h.sought.find?_eq_some_iff h.distinct

theorem isSome_find? (h : c.Keeps s) : (c.find? id).isSome = s.holds id := by
  rw [Bool.eq_iff_iff, Option.isSome_iff_exists, h.holds_iff]
  exact exists_congr fun i => h.find?_eq_some_iff

end Keeps

end TileCache

end BandedPage
