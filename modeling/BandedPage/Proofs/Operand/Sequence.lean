import Mathlib
import BandedPage.Proofs.Operand.Number
import BandedPage.Proofs.Source.Ending

/-!
# Operand after operand

A stream carries no marks between its operands: what is read next, and from where, depends on where
the reads before it stopped. `readAll` is such a course of reads. It gives the same values at the same
positions through a buffer and from memory, whatever the portions are that fill the buffer. Numbers
written one after another come back in order, each read stops where its number ends, and where the
stream is cut the read of the number at the cut fails.
-/

namespace BandedPage

namespace Operand

/-- What can be read from a stream without knowing the command it belongs to. -/
inductive Form where
  | byte
  /-- A block of so many bytes. -/
  | block (size : Nat)
  /-- A variable-length integer. -/
  | varint
  /-- A signed variable-length integer. -/
  | signedVarint
  | single
  /-- A signed number of four bytes. -/
  | integer
  /-- An unsigned number of so many bytes. -/
  | natural (size : Nat)
  deriving Repr

/-- What was read. -/
inductive Value where
  | byte (b : UInt8)
  | block (bytes : List UInt8)
  | natural (n : Nat)
  | integer (v : Int)
  | single (a : Single)
  deriving Repr

section

variable {σ : Type} [ByteSource σ]

/-- Read an operand of this form. -/
def Form.read : Form → Decoder σ Value
  | .byte => do return .byte (← nextByte)
  | .block size => do return .block (← ByteSource.take size)
  | .varint => do return .natural (← Varint.decode)
  | .signedVarint => do return .integer (← Varint.decodeInt)
  | .single => do return .single (← Operand.single)
  | .integer => do return .integer (← Operand.integer)
  | .natural size => do return .natural (← Operand.natural size)

/-- The values read one after another, each with the position behind it, up to the first failure. With
them the source behind the last one, or the failure. -/
def readAll : List Form → σ → List (Value × Nat) × Except Error σ
  | [], s => ([], .ok s)
  | form :: forms, s =>
    match form.read s with
    | .ok value s' =>
      let (values, last) := readAll forms s'
      ((value, ByteSource.offset s') :: values, last)
    | .error e _ => ([], .error e)

theorem readAll_cons_of_ok {form : Form} {s s' : σ} {value : Value} (h : form.read s = .ok value s')
    (forms : List Form) :
    readAll (form :: forms) s =
      ((value, ByteSource.offset s') :: (readAll forms s').1, (readAll forms s').2) := by
  rw [readAll, h]

theorem readAll_cons_of_error {form : Form} {s s' : σ} {e : Error} (h : form.read s = .error e s')
    (forms : List Form) : readAll (form :: forms) s = ([], .error e) := by
  rw [readAll, h]

end

/-! ### Reading through a buffer -/

/-- The reads went to their end, or the one that failed did so for the same cause. -/
inductive SameEnd {σ τ : Type} : Except Error σ → Except Error τ → Prop
  | ok (s : σ) (t : τ) : SameEnd (.ok s) (.ok t)
  | error {e e' : Error} (h : e.SameCause e') : SameEnd (.error e) (.error e')

/-- Where the one read finds the end of the stream, so does the other. -/
theorem SameEnd.exists_place {σ τ : Type} {last : Except Error σ} {place needed : Nat}
    (h : SameEnd last (.error (.truncated place needed) : Except Error τ)) :
    ∃ place', last = .error (.truncated place' needed) := by
  cases h with
  | error h =>
    cases h with
    | refl => exact ⟨place, rfl⟩
    | truncated place' => exact ⟨place', rfl⟩

section

variable {σ τ : Type} [ByteSource σ] [LawfulSource σ] [CountingSource σ] [ByteSource τ]
  [LawfulSource τ] [CountingSource τ]

theorem agree_decodeGroups (groups weight value : Nat) :
    Agree (Varint.decodeGroups groups weight value : Decoder σ Nat)
      (Varint.decodeGroups groups weight value : Decoder τ Nat) := by
  induction groups generalizing weight value with
  | zero => exact Agree.nextByte.bind fun _ => .throw _
  | succ groups ih => exact Agree.nextByte.bind fun b => .ite (fun _ => .pure _) fun _ => ih _ _

theorem agree_natural (n : Nat) : Agree (natural n : Decoder σ Nat) (natural n : Decoder τ Nat) :=
  (Agree.take n).bind fun _ => .pure _

theorem agree_read (form : Form) :
    Agree (form.read : Decoder σ Value) (form.read : Decoder τ Value) := by
  have hvarint := agree_decodeGroups (σ := σ) (τ := τ) 5 1 0
  cases form with
  | byte => exact Agree.nextByte.bind fun _ => .pure _
  | block size => exact (Agree.take size).bind fun _ => .pure _
  | varint => exact hvarint.bind fun _ => .pure _
  | signedVarint => exact (hvarint.bind fun _ => .pure _).bind fun _ => .pure _
  | single => exact ((Agree.take 4).bind fun _ => .pure _).bind fun _ => .pure _
  | integer => exact ((agree_natural 4).bind fun _ => .pure _).bind fun _ => .pure _
  | natural size => exact (agree_natural size).bind fun _ => .pure _

/-- Sources that stand at the same place are read alike to the end or to the first failure. -/
theorem readAll_agree (forms : List Form) {s : σ} {t : τ} {bytes : List UInt8} {offset : Nat}
    (hs : Standing s bytes offset) (ht : Standing t bytes offset) :
    (readAll forms s).1 = (readAll forms t).1 ∧ SameEnd (readAll forms s).2 (readAll forms t).2 := by
  induction forms generalizing s t bytes offset with
  | nil => exact ⟨rfl, .ok s t⟩
  | cons form forms ih =>
    have hfirst := agree_read form s t bytes offset hs ht
    generalize hr : form.read s = r, hr' : form.read t = r' at hfirst
    cases hfirst with
    | ok hs' ht' =>
      obtain ⟨hvalues, hend⟩ := ih hs' ht'
      rw [readAll_cons_of_ok hr, readAll_cons_of_ok hr', hvalues, hs'.offset_eq, ht'.offset_eq]
      exact ⟨rfl, hend⟩
    | error h =>
      rw [readAll_cons_of_error hr, readAll_cons_of_error hr']
      exact ⟨rfl, .error h⟩

end

/-- Bytes in memory that are handed out in portions of the given sizes, or of one byte where the size
given is none. -/
structure Scheduled where
  rest : List UInt8
  sizes : Nat → Nat

instance : ByteFeed Scheduled where
  read p n :=
    let k := min n (max 1 (p.sizes 0))
    .ok (p.rest.take k, ⟨p.rest.drop k, fun i => p.sizes (i + 1)⟩)
  remaining p := p.rest.length

instance : LawfulFeed Scheduled where
  Holds p bytes := p.rest = bytes
  read_eq := by
    rintro ⟨bytes, sizes⟩ _ rfl n hn
    have hk : 0 < min n (max 1 (sizes 0)) := by omega
    exact ⟨_, _, _, rfl, rfl, take_is_portion bytes hk (Nat.min_le_left _ _)⟩
  length_le_remaining := by
    rintro p _ rfl
    exact Nat.le_refl _

/-- Through a buffer of any capacity, filled by a feed that hands out bytes as long as it has any, in
portions of whatever sizes, operands are read as from memory: the same values at the same positions,
and the same read fails for the same cause. -/
theorem buffering_changes_no_answer {ρ : Type} [ByteFeed ρ] [LawfulFeed ρ] {feed : ρ}
    {bytes : List UInt8} (hfeed : LawfulFeed.Holds feed bytes) {capacity : Nat} (hcap : 0 < capacity)
    (forms : List Form) :
    (readAll forms ({ feed, capacity } : Buffered ρ)).1 = (readAll forms (Cursor.ofList bytes)).1 ∧
      SameEnd (readAll forms ({ feed, capacity } : Buffered ρ)).2
        (readAll forms (Cursor.ofList bytes)).2 :=
  readAll_agree forms ⟨Buffered.holds_of_feed hfeed hcap, rfl⟩ ⟨rfl, rfl⟩

/-- Portions of one byte and of two, a block larger than the buffer, and a number that is cut short. -/
theorem scheduled_portions_change_no_answer :
    LawfulFeed.Holds (⟨[0xac, 2, 1, 2, 3, 4, 5, 0x7f, 9, 0x33], fun n => n % 3⟩ : Scheduled)
        [0xac, 2, 1, 2, 3, 4, 5, 0x7f, 9, 0x33] ∧ 0 < 3 ∧
      ∃ place, readAll [.varint, .block 5, .signedVarint, .byte, .natural 2, .byte]
          ({ feed := ⟨[0xac, 2, 1, 2, 3, 4, 5, 0x7f, 9, 0x33], fun n => n % 3⟩
             capacity := 3 } : Buffered Scheduled) =
        ([(.natural 300, 2), (.block [1, 2, 3, 4, 5], 7), (.integer 127, 8), (.byte 9, 9)],
          .error (.truncated place 1)) := by
  have hfeed : LawfulFeed.Holds
      (⟨[0xac, 2, 1, 2, 3, 4, 5, 0x7f, 9, 0x33], fun n => n % 3⟩ : Scheduled)
      [0xac, 2, 1, 2, 3, 4, 5, 0x7f, 9, 0x33] := rfl
  obtain ⟨hvalues, hend⟩ := buffering_changes_no_answer hfeed (show 0 < 3 by decide)
    [.varint, .block 5, .signedVarint, .byte, .natural 2, .byte]
  have hcursor : readAll [.varint, .block 5, .signedVarint, .byte, .natural 2, .byte]
      (Cursor.ofList [0xac, 2, 1, 2, 3, 4, 5, 0x7f, 9, 0x33]) =
        ([(.natural 300, 2), (.block [1, 2, 3, 4, 5], 7), (.integer 127, 8), (.byte 9, 9)],
          .error (.truncated 9 1)) := by cbv
  rw [hcursor] at hvalues hend
  obtain ⟨place, hlast⟩ := hend.exists_place
  exact ⟨hfeed, by decide, place, Prod.ext hvalues hlast⟩

end Operand

/-! ### Numbers -/

/-- Every byte of a variable-length integer but the last one asks for another. -/
theorem Varint.decodeGroups_of_cut {σ : Type} [ByteSource σ] [LawfulSource σ] [CountingSource σ]
    {groups v : Nat} {part missing : List UInt8}
    (hgroups : part.length < groups) (weight value : Nat)
    (hcut : encode v = part ++ missing) (hmissing : missing ≠ []) {s : σ} {offset : Nat}
    (hs : Standing s part offset) :
    ∃ place s', decodeGroups groups weight value s = .error (.truncated place 1) s' := by
  induction groups generalizing v weight value part s offset with
  | zero => exact absurd hgroups (Nat.not_lt_zero _)
  | succ groups ih =>
    rw [decodeGroups]
    cases part with
    | nil =>
      obtain ⟨place, s', hrun⟩ := CountingSource.nextByte_nil hs
      exact ⟨place, s', bind_of_error hrun _⟩
    | cons b part =>
      obtain ⟨s', hrun, hs'⟩ := CountingSource.nextByte_cons hs
      rw [encode] at hcut
      split at hcut
      · have hnil := (List.cons.inj hcut).2
        exact absurd (List.append_eq_nil_iff.mp hnil.symm).2 hmissing
      · obtain ⟨hb, hmore⟩ := List.cons.inj hcut
        have hlarge : 128 ≤ b.toNat := by
          rw [← hb, UInt8.toNat_ofNat']
          omega
        rw [bind_of_ok hrun, if_neg (by omega)]
        exact ih (Nat.lt_of_succ_lt_succ hgroups) _ _ hmore hs'

/-- No integer has more groups than five. -/
theorem Varint.decodeGroups_of_long {σ : Type} [ByteSource σ] [LawfulSource σ] {groups : List UInt8}
    (hgroups : ∀ g ∈ groups, 128 ≤ g) (b : UInt8) (rest : List UInt8) (weight value : Nat) {s : σ}
    (hs : LawfulSource.Holds s (groups ++ b :: rest)) :
    ∃ s', decodeGroups groups.length weight value s =
      .error (.malformed "variable-length integer longer than 5 bytes") s' := by
  induction groups generalizing weight value s with
  | nil =>
    obtain ⟨s', hrun, -⟩ := LawfulSource.nextByte_cons hs
    exact ⟨s', bind_of_ok hrun _⟩
  | cons g groups ih =>
    obtain ⟨s', hrun, hs'⟩ := LawfulSource.nextByte_cons hs
    have hlarge : 128 ≤ g.toNat := UInt8.le_iff_toNat_le.mp (hgroups g List.mem_cons_self)
    rw [List.length_cons, decodeGroups, bind_of_ok hrun, if_neg (by omega)]
    exact ih (fun g' hg' => hgroups g' (List.mem_cons_of_mem g hg')) _ _ hs'

namespace Operand

/-- A number in the form it travels in: a natural has two bytes or four where commands carry one. -/
inductive Number where
  | varint (v : Nat)
  | signedVarint (v : Int)
  | single (a : Single)
  | integer (v : Int)
  | natural (size v : Nat)
  deriving Repr

namespace Number

def form : Number → Form
  | varint _ => .varint
  | signedVarint _ => .signedVarint
  | single _ => .single
  | integer _ => .integer
  | natural size _ => .natural size

def value : Number → Value
  | varint v | natural _ v => .natural v
  | signedVarint v | integer v => .integer v
  | single a => .single a

def bytes : Number → List UInt8
  | varint v => Varint.encode v
  | signedVarint v => Varint.encodeInt v
  | single a => a.toBytes
  | integer v => ofInteger v
  | natural size v => Word.littleEndian size v

/-- The form can hold the number: 32 bits, or the bytes it has. -/
def Fits : Number → Prop
  | varint v => v < 4294967296
  | signedVarint v | integer v => Word.fits32 v = true
  | single _ => True
  | natural size v => v < 256 ^ size

instance : (x : Number) → Decidable x.Fits
  | varint v => inferInstanceAs (Decidable (v < 4294967296))
  | signedVarint v | integer v => inferInstanceAs (Decidable (Word.fits32 v = true))
  | single _ => inferInstanceAs (Decidable True)
  | natural size v => inferInstanceAs (Decidable (v < 256 ^ size))

/-- The values of numbers that begin at `offset`, each with the position where its bytes end. -/
def valuesFrom (offset : Nat) : List Number → List (Value × Nat)
  | [] => []
  | x :: xs => (x.value, offset + x.bytes.length) :: valuesFrom (offset + x.bytes.length) xs

theorem decodes_read {σ : Type} [ByteSource σ] [LawfulSource σ] {x : Number} (h : x.Fits) :
    Decodes (x.form.read : Decoder σ Value) x.bytes x.value := by
  cases x with
  | varint v => exact (Varint.decodes h).bind_pure
  | signedVarint v => exact (Varint.decodes_int_of_fits32 h).bind_pure
  | single a => exact (decodes_single a).bind_pure
  | integer v => exact (decodes_integer h).bind_pure
  | natural size v => exact (decodes_natural_of_lt h).bind_pure

section

variable {σ : Type} [ByteSource σ] [LawfulSource σ] [CountingSource σ]

/-- Numbers are read back at their positions, and what follows them is read from their end. -/
theorem readAll_append {xs : List Number} (hfits : ∀ x ∈ xs, x.Fits) (forms : List Form) {s : σ}
    {rest : List UInt8} {offset : Nat} (hs : Standing s (xs.flatMap bytes ++ rest) offset) :
    ∃ s', Standing s' rest (offset + (xs.flatMap bytes).length) ∧
      readAll (xs.map form ++ forms) s =
        (valuesFrom offset xs ++ (readAll forms s').1, (readAll forms s').2) := by
  induction xs generalizing s offset with
  | nil => exact ⟨s, hs, rfl⟩
  | cons x xs ih =>
    rw [List.flatMap_cons, List.append_assoc] at hs
    obtain ⟨s', hrun, hs'⟩ :=
      Decodes.standing (fun _ => decodes_read (hfits x List.mem_cons_self)) hs
    obtain ⟨s'', hs'', hrest⟩ := ih (fun y hy => hfits y (List.mem_cons_of_mem x hy)) hs'
    rw [List.flatMap_cons, List.length_append, ← Nat.add_assoc]
    refine ⟨s'', hs'', ?_⟩
    rw [List.map_cons, List.cons_append, readAll_cons_of_ok hrun, hrest, hs'.offset_eq]
    rfl

/-- A number that is cut off in the middle makes its read fail. -/
theorem read_of_cut {x : Number} (h : x.Fits) {part missing : List UInt8}
    (hcut : x.bytes = part ++ missing) (hmissing : missing ≠ []) {s : σ} {offset : Nat}
    (hs : Standing s part offset) :
    ∃ place needed s', x.form.read s = .error (.truncated place needed) s' := by
  have hshort : part.length < x.bytes.length := by
    have := List.length_pos_of_ne_nil hmissing
    rw [hcut, List.length_append]
    omega
  have hvarint : ∀ v < 4294967296, x.bytes = Varint.encode v →
      ∃ place s', (Varint.decode : Decoder σ Nat) s = .error (.truncated place 1) s' := by
    intro v hv hbytes
    rw [hbytes] at hcut hshort
    exact Varint.decodeGroups_of_cut (hshort.trans_le (Varint.length_encode_le_five hv)) 1 0 hcut
      hmissing hs
  have hblock : ∀ n, x.bytes.length = n →
      ∃ place s', ByteSource.take n s = .error (.truncated place (n - part.length)) s' :=
    fun n hn => CountingSource.take_short hs (hn ▸ hshort)
  cases x with
  | varint v =>
    obtain ⟨place, s', hrun⟩ := hvarint v h rfl
    exact ⟨place, _, s', bind_of_error hrun _⟩
  | signedVarint v =>
    obtain ⟨place, s', hrun⟩ := hvarint _ (Word.pattern32_lt v) rfl
    exact ⟨place, _, s', bind_of_error (bind_of_error hrun _) _⟩
  | single a =>
    obtain ⟨place, s', hrun⟩ := hblock 4 (Word.length_littleEndian 4 _)
    exact ⟨place, _, s', bind_of_error (bind_of_error hrun _) _⟩
  | integer v =>
    obtain ⟨place, s', hrun⟩ := hblock 4 (Word.length_littleEndian 4 _)
    exact ⟨place, _, s', bind_of_error (bind_of_error (bind_of_error hrun _) _) _⟩
  | natural size v =>
    obtain ⟨place, s', hrun⟩ := hblock size (Word.length_littleEndian size v)
    exact ⟨place, _, s', bind_of_error (bind_of_error hrun _) _⟩

end

/-- Where bytes end before those of all numbers do, one of the numbers is cut, or none of it is left. -/
theorem exists_cut {xs : List Number} {part missing : List UInt8}
    (h : xs.flatMap bytes = part ++ missing) (hmissing : missing ≠ []) :
    ∃ before x after front back, xs = before ++ x :: after ∧ part = before.flatMap bytes ++ front ∧
      x.bytes = front ++ back ∧ back ≠ [] := by
  induction xs generalizing part with
  | nil => exact absurd (List.append_eq_nil_iff.mp h.symm).2 hmissing
  | cons x xs ih =>
    rw [List.flatMap_cons] at h
    rcases List.append_eq_append_iff.mp h with ⟨more, rfl, hmore⟩ | ⟨back, hx, hback⟩
    · obtain ⟨before, y, after, front, back, rfl, rfl, hy, hback⟩ := ih hmore
      exact ⟨x :: before, y, after, front, back, rfl, by simp, hy, hback⟩
    · by_cases hempty : back = []
      · -- the cut is just behind `x`, and may be in front of numbers without bytes
        subst hempty
        obtain ⟨before, y, after, front, back, rfl, hfront, hy, hback⟩ :=
          @ih [] hback.symm
        refine ⟨x :: before, y, after, front, back, rfl, ?_, hy, hback⟩
        rw [List.flatMap_cons, List.append_assoc, ← hfront, hx, List.append_nil, List.append_nil]
      · exact ⟨[], x, xs, part, back, rfl, rfl, hx, hempty⟩

end Number

/-- Numbers sent one after another are read back in order, each read stops behind the bytes of its
number, and nothing is left. Cut anywhere, the stream gives the numbers before the cut, and the number
at the cut is missed. A variable-length integer has the bytes it is said to have, at most five, and
five bytes that all ask for another one are refused with the next. -/
theorem numbers_are_read_back {xs : List Number} (hfits : ∀ x ∈ xs, x.Fits) :
    readAll (xs.map Number.form) (Cursor.ofList (xs.flatMap Number.bytes)) =
        (Number.valuesFrom 0 xs, .ok ⟨[], (xs.flatMap Number.bytes).length⟩) ∧
      (∀ part missing, xs.flatMap Number.bytes = part ++ missing → missing ≠ [] →
        ∃ before x after place needed, xs = before ++ x :: after ∧
          (before.flatMap Number.bytes).length ≤ part.length ∧
          part.length < ((before ++ [x]).flatMap Number.bytes).length ∧
          readAll (xs.map Number.form) (Cursor.ofList part) =
            (Number.valuesFrom 0 before, .error (.truncated place needed))) ∧
      (∀ v < 4294967296, (Varint.encode v).length = Varint.size v ∧ Varint.size v ≤ 5) ∧
      ∀ groups b rest, groups.length = 5 → (∀ g ∈ groups, 128 ≤ g) →
        ∃ c, Varint.decode (Cursor.ofList (groups ++ b :: rest)) =
          .error (.malformed "variable-length integer longer than 5 bytes") c := by
  refine ⟨?_, ?_, ?_, ?_⟩
  · obtain ⟨⟨_, _⟩, ⟨rfl, rfl⟩, hread⟩ := Number.readAll_append hfits []
      (show Standing (Cursor.ofList (xs.flatMap Number.bytes)) (xs.flatMap Number.bytes ++ []) 0 from
        ⟨(List.append_nil _).symm, rfl⟩)
    rw [List.append_nil] at hread
    rw [hread]
    simp [readAll]
  · intro part missing hpart hmissing
    obtain ⟨before, x, after, front, back, rfl, rfl, hx, hback⟩ :=
      Number.exists_cut hpart hmissing
    have hbefore : ∀ y ∈ before, y.Fits := fun y hy => hfits y (List.mem_append_left _ hy)
    obtain ⟨c, hc, hread⟩ := Number.readAll_append hbefore ((x :: after).map Number.form)
      (show Standing (Cursor.ofList (before.flatMap Number.bytes ++ front)) _ 0 from ⟨rfl, rfl⟩)
    obtain ⟨place, needed, c', hfail⟩ :=
      Number.read_of_cut (hfits x (by simp)) hx hback hc
    refine ⟨before, x, after, place, needed, rfl, ?_, ?_, ?_⟩
    · simp
    · have := List.length_pos_of_ne_nil hback
      simp [hx]
      omega
    · rw [List.map_append, hread, List.map_cons, readAll_cons_of_error hfail, List.append_nil]
  · intro v hv
    rw [← Varint.length_encode]
    exact ⟨rfl, Varint.length_encode_le_five hv⟩
  · intro groups b rest hlength hgroups
    have hlong := Varint.decodeGroups_of_long hgroups b rest 1 0
      (show LawfulSource.Holds (Cursor.ofList (groups ++ b :: rest)) _ from rfl)
    rwa [hlength] at hlong

/-- A number of each form, a NaN among them. -/
theorem six_numbers_are_read_back :
    (∀ x ∈ [Number.varint 300, .signedVarint (-5), .single ⟨0x7fc00001⟩, .integer (-2),
        .natural 2 513, .natural 4 4000000000], x.Fits) ∧
      readAll [.varint, .signedVarint, .single, .integer, .natural 2, .natural 4]
          (Cursor.ofList [0xac, 2, 0xfb, 255, 255, 255, 15, 1, 0, 0xc0, 0x7f, 254, 255, 255, 255, 1, 2,
            0, 0x28, 0x6b, 0xee]) =
        ([(.natural 300, 2), (.integer (-5), 7), (.single ⟨0x7fc00001⟩, 11), (.integer (-2), 15),
          (.natural 513, 17), (.natural 4000000000, 21)], .ok ⟨[], 21⟩) := by
  have hfits : ∀ x ∈ [Number.varint 300, .signedVarint (-5), .single ⟨0x7fc00001⟩, .integer (-2),
      .natural 2 513, .natural 4 4000000000], x.Fits := by decide
  have hbytes : [Number.varint 300, .signedVarint (-5), .single ⟨0x7fc00001⟩, .integer (-2),
      .natural 2 513, .natural 4 4000000000].flatMap Number.bytes =
        [0xac, 2, 0xfb, 255, 255, 255, 15, 1, 0, 0xc0, 0x7f, 254, 255, 255, 255, 1, 2,
          0, 0x28, 0x6b, 0xee] := by cbv
  have hvalues : Number.valuesFrom 0 [Number.varint 300, .signedVarint (-5), .single ⟨0x7fc00001⟩,
      .integer (-2), .natural 2 513, .natural 4 4000000000] =
        [(.natural 300, 2), (.integer (-5), 7), (.single ⟨0x7fc00001⟩, 11), (.integer (-2), 15),
          (.natural 513, 17), (.natural 4000000000, 21)] := by cbv
  have hread := (numbers_are_read_back hfits).1
  rw [hbytes, hvalues] at hread
  exact ⟨hfits, hread⟩

end Operand

end BandedPage
