import Mathlib
import BandedPage.Proofs.Facsimile.OpenRow
import BandedPage.Proofs.Guarded

/-!
# Whatever the code is

Any bytes may be handed to the decoder. The changes of the line above are gone through by their places,
and a row is drawn bit by bit into bytes of its own. When every place is asked for before it is used,
the changes above are never looked for past the last one, and a row is never left when its changes lie
within it, in whatever order they stand.

A `Reading` says how the decoding goes when it looks before it reads, and no loop is bounded: the words
of a run are read until one of them is short, and the modes of a row until it is full. Runs of length
zero leave a row where it is, and makeup codes may go on and on, but each word takes a bit, and a finite
source has only so many. So a reading of such a source ends, whatever the bits are. Every row on the way
lists its changes in order and within its columns, an odd number of them when the color is black, and so
all places that are asked for are there.
-/

namespace BandedPage.Facsimile

/-! ### Lines and rows by place -/

/-- The place, from `k` on, of the first change that is right of `a` and away from the current color;
the place behind the last one if there is no such change. The change at an odd place is to white. -/
def seek? (above : List Nat) (a : Int) (black : Bool) (k : Nat) : Option Nat :=
  if h : k < above.length then do
    let c ← above[k]?
    if (c : Int) ≤ a || (k % 2 == 1) != black then seek? above a black (k + 1) else return k
  else return k
termination_by above.length - k

/-- The reference changes at `a`, looked up by their places. -/
def reference? (above : List Nat) (a : Int) (black : Bool) (columns : Nat) : Option (Nat × Nat) := do
  let k ← seek? above a black 0
  return (above[k]?.getD columns, above[k + 1]?.getD columns)

def setInRow? (data : Bytes) (first raster i : Nat) : Option Bytes := do
  let row ← Bits.slice? data first (first + raster)
  let _ ← row[i / 8]?
  return Bits.set data (first * 8 + i) true

/-- Set `n` bits of a row from bit `i` on. -/
def blackenRow? (data : Bytes) (first raster i : Nat) : Nat → Option Bytes
  | 0 => some data
  | n + 1 => do
    let data ← setInRow? data first raster i
    blackenRow? data first raster (i + 1) n

def drawRow? (data : Bytes) (first raster : Nat) : List Nat → Option Bytes
  | [] => some data
  | [a] => blackenRow? data first raster a (raster * 8 - a)
  | a :: b :: line => do
    let data ← blackenRow? data first raster a (b - a)
    drawRow? data first raster line

section

variable (above : List Nat) (a : Int) (black : Bool) (columns : Nat)

/-- The place that is found has the reference changes of what is left of the line. -/
theorem exists_seek? (k : Nat) : ∃ i, seek? above a black k = some i ∧
    (above[i]?.getD columns, above[i + 1]?.getD columns) =
      referenceFrom a black columns (k % 2 == 0) (above.drop k) := by
  induction hrest : above.drop k generalizing k with
  | nil =>
    have hend : above.length ≤ k := List.drop_eq_nil_iff.mp hrest
    refine ⟨k, ?_, ?_⟩
    · rw [seek?, dif_neg (not_lt.mpr hend)]
      rfl
    · rw [List.getElem?_eq_none hend, List.getElem?_eq_none (by omega)]
      rfl
  | cons c line ih =>
    have hlt : k < above.length := by
      by_contra hge
      rw [List.drop_eq_nil_of_le (not_lt.mp hge)] at hrest
      cases hrest
    have hline : above.drop (k + 1) = line := by
      rw [← List.drop_drop, hrest]
      rfl
    have hc : above[k]? = some c := by
      rw [← List.head?_drop, hrest]
      rfl
    have hnext : above[k + 1]? = line.head? := by
      rw [← List.head?_drop, hline]
    have hflip : ((k + 1) % 2 == 0) = !(k % 2 == 0) := by
      rcases Nat.mod_two_eq_zero_or_one k with hk | hk <;> simp [hk, Nat.add_mod]
    have hright : decide ((c : Int) ≤ a) = !decide (a < c) := by
      rw [← decide_not, decide_eq_decide, not_lt]
    have hodd : (k % 2 == 1) = !(k % 2 == 0) := by
      rcases Nat.mod_two_eq_zero_or_one k with hk | hk <;> simp [hk]
    have hskip : (decide ((c : Int) ≤ a) || (k % 2 == 1) != black) =
        !(decide (a < c) && (k % 2 == 0) != black) := by
      rw [hright, hodd]
      cases decide (a < c) <;> cases k % 2 == 0 <;> cases black <;> rfl
    rw [seek?, dif_pos hlt, hc, referenceFrom]
    simp only [Option.bind_eq_bind, Option.bind_some, hskip]
    cases (a < c && (k % 2 == 0) != black) with
    | true => exact ⟨k, rfl, by rw [hc, hnext]; rfl⟩
    | false =>
      obtain ⟨i, hseek, heq⟩ := ih (k + 1) hline
      rw [hflip] at heq
      exact ⟨i, hseek, heq⟩

theorem reference?_eq : reference? above a black columns = some (reference above a black columns) := by
  obtain ⟨i, hseek, heq⟩ := exists_seek? above a black columns 0
  rw [reference?, hseek]
  exact congrArg some heq

end

section

variable {data : Bytes} {first raster : Nat}

@[simp] theorem setInRow?_eq (hrow : first + raster ≤ data.size) {i : Nat} (hi : i < raster * 8) :
    setInRow? data first raster i = some (Bits.set data (first * 8 + i) true) := by
  have hsize : (data.extract first (first + raster)).size = raster := by
    rw [Array.size_extract]
    omega
  have hbyte : i / 8 < (data.extract first (first + raster)).size := by omega
  rw [setInRow?, Bits.slice?_eq (Nat.le_add_right ..) hrow]
  show ((data.extract first (first + raster))[i / 8]?).bind _ = _
  rw [Array.getElem?_eq_getElem hbyte]
  rfl

@[simp]
theorem blackenRow?_eq (hrow : first + raster ≤ data.size) {i n : Nat} (hn : i + n ≤ raster * 8) :
    blackenRow? data first raster i n = some (blacken data (first * 8 + i) n) := by
  induction n generalizing data i with
  | zero => rfl
  | succ n ih =>
    have hrow' : first + raster ≤ (Bits.set data (first * 8 + i) true).size := by
      rwa [Bits.size_set]
    rw [blackenRow?, setInRow?_eq hrow (by omega)]
    exact ih hrow' (by omega)

/-- Changes within a row are drawn within it. -/
theorem drawRow?_eq (hrow : first + raster ≤ data.size) {line : List Nat}
    (hline : ∀ c ∈ line, c < raster * 8) :
    drawRow? data first raster line = some (draw data (first * 8) (raster * 8) line) := by
  fun_induction drawRow? data first raster line with
  | case1 => rfl
  | case2 data a =>
    have ha := hline a List.mem_cons_self
    exact blackenRow?_eq hrow (by omega)
  | case3 data a b line ih =>
    have ha := hline a List.mem_cons_self
    have hb := hline b (by simp)
    rw [blackenRow?_eq hrow (by omega)]
    refine ih _ ?_ fun c hc => hline c (by simp [hc])
    rwa [size_blacken]

end

/-! ### Readings -/

/-- The ways of a reading: from here, it passes these rows one after another, and it ends so. -/
abbrev Reading (σ α : Type) :=
  BitSource σ → List OpenRow → EStateM.Result Fault (BitSource σ) α → Prop

namespace Reading

variable {σ α β : Type}

/-- A reading that passes no row. -/
inductive plain (m : EStateM Fault (BitSource σ) α) : Reading σ α
  | intro (s : BitSource σ) : plain m s [] (m s)

/-- One reading after another. -/
inductive andThen (m : Reading σ α) (f : α → Reading σ β) : Reading σ β
  | stopped {s rows fault s'} (h : m s rows (.error fault s')) :
      andThen m f s rows (.error fault s')
  | next {s rows a s' rows' result} (h : m s rows (.ok a s')) (hrest : f a s' rows' result) :
      andThen m f s (rows ++ rows') result

variable [ByteSource σ]

/-- A run, after makeup codes for `total`: words are read until one stands for less than 64. -/
inductive run (black : Bool) : Nat → Reading σ Nat
  | stopped {total s e s'} (hword : BitSource.readRunWord black s = .error e s') :
      run black total s [] (.error (.failed e) s')
  | short {total s n s'} (hword : BitSource.readRunWord black s = .ok n s') (hshort : n < 64) :
      run black total s [] (.ok (total + n) s')
  | makeup {total s n s' rows result} (hword : BitSource.readRunWord black s = .ok n s') (hlong : 64 ≤ n)
      (hrest : run black (total + n) s' rows result) : run black total s rows result

def mode (above : List Nat) (columns : Nat) (row : OpenRow) : Reading σ OpenRow :=
  andThen (plain (found (reference? above row.place row.black columns))) fun (b1, b2) =>
  andThen (plain (unguarded BitSource.readMode)) fun
    | .pass => plain (pure (row.pass b2))
    | .vertical offset => plain (unguarded (liftM (row.vertical columns (b1 + offset))))
    | .horizontal =>
      andThen (run row.black 0) fun run1 =>
      andThen (run (!row.black) 0) fun run2 =>
      plain (unguarded (liftM (row.horizontal columns run1 run2)))
    | .endOfLine => plain (throw (.failed (.malformed "CCITT data ended early")))

/-- The rest of a row: modes are read until it is full. -/
inductive row (above : List Nat) (columns : Nat) : OpenRow → Reading σ (List Nat)
  | full {r : OpenRow} {s} (hfull : (columns : Int) ≤ r.place) :
      row above columns r s [r] (.ok r.line s)
  | stopped {r : OpenRow} {s rows fault s'} (hopen : r.place < columns)
      (hmode : mode above columns r s rows (.error fault s')) :
      row above columns r s (r :: rows) (.error fault s')
  | next {r : OpenRow} {s rows r' s' rows' result} (hopen : r.place < columns)
      (hmode : mode above columns r s rows (.ok r' s'))
      (hrest : row above columns r' s' rows' result) :
      row above columns r s (r :: (rows ++ rows')) result

/-- So many rows of `raster` bytes from byte `first` on, below the line `above`. -/
def rows (raster : Nat) : Nat → Nat → List Nat → Bytes → Reading σ Bytes
  | 0, _, _, data => plain (pure data)
  | n + 1, first, above, data =>
    andThen (row above (raster * 8) {}) fun line =>
    andThen (plain (found (drawRow? data first raster line))) fun data =>
    rows raster n (first + raster) line data

/-- All rows of `raster` bytes and the end mark. Bytes cannot be cut into rows of no bytes. -/
def whole (raster height : Nat) : Reading σ Bytes :=
  andThen (plain (demand (raster ≠ 0))) fun _ =>
  andThen (rows raster height 0 [] (Array.replicate (raster * height) 0)) fun data =>
  andThen (plain (unguarded BitSource.readEnd)) fun _ =>
  andThen (plain (unguarded BitSource.readEnd)) fun _ =>
  plain (pure data)

/-! ### Readings that end -/

/-- The reading passes these rows and ends so, and it goes in no other way. -/
def Ends (m : Reading σ α) (s : BitSource σ) (rows : List OpenRow)
    (result : EStateM.Result Fault (BitSource σ) α) : Prop :=
  ∀ rows' result', m s rows' result' ↔ rows' = rows ∧ result' = result

namespace Ends

variable {s s' : BitSource σ} {rows rows' : List OpenRow} {fault : Fault}

omit [ByteSource σ]

theorem plain (m : EStateM Fault (BitSource σ) α) (s : BitSource σ) :
    Ends (Reading.plain m) s [] (m s) := by
  intro rows result
  constructor
  · rintro ⟨⟩
    exact ⟨rfl, rfl⟩
  · rintro ⟨rfl, rfl⟩
    exact .intro s

theorem stopped {m : Reading σ α} (h : Ends m s rows (.error fault s')) (f : α → Reading σ β) :
    Ends (andThen m f) s rows (.error fault s') := by
  intro rows' result
  constructor
  · intro h'
    cases h' with
    | stopped h' =>
      obtain ⟨rfl, heq⟩ := (h _ _).mp h'
      cases heq
      exact ⟨rfl, rfl⟩
    | next h' hrest =>
      obtain ⟨-, heq⟩ := (h _ _).mp h'
      cases heq
  · rintro ⟨rfl, rfl⟩
    exact .stopped ((h _ _).mpr ⟨rfl, rfl⟩)

theorem next {m : Reading σ α} {f : α → Reading σ β} {a : α}
    {result : EStateM.Result Fault (BitSource σ) β} (h : Ends m s rows (.ok a s'))
    (hrest : Ends (f a) s' rows' result) : Ends (andThen m f) s (rows ++ rows') result := by
  intro rows'' result''
  constructor
  · intro h'
    cases h' with
    | stopped h' =>
      obtain ⟨-, heq⟩ := (h _ _).mp h'
      cases heq
    | next h' hrest' =>
      obtain ⟨rfl, heq⟩ := (h _ _).mp h'
      cases heq
      obtain ⟨rfl, rfl⟩ := (hrest _ _).mp hrest'
      exact ⟨rfl, rfl⟩
  · rintro ⟨rfl, rfl⟩
    exact .next ((h _ _).mpr ⟨rfl, rfl⟩) ((hrest _ _).mpr ⟨rfl, rfl⟩)

end Ends

/-- The reading ends as the decoding does, and all rows that it passes are sound. -/
def Follows (columns : Nat) (m : Reading σ α) (c : EStateM Error (BitSource σ) α)
    (s : BitSource σ) : Prop :=
  ∃ rows, Ends m s rows (unguarded c s) ∧ ∀ row ∈ rows, row.Sound columns

namespace Follows

variable {columns : Nat} {s : BitSource σ}

omit [ByteSource σ]

theorem plain {m : EStateM Fault (BitSource σ) α} {c : EStateM Error (BitSource σ) α}
    (h : m s = unguarded c s) : Follows columns (Reading.plain m) c s := by
  refine ⟨[], ?_, fun _ hrow => absurd hrow List.not_mem_nil⟩
  rw [← h]
  exact .plain m s

theorem bind {m : Reading σ α} {c : EStateM Error (BitSource σ) α} {f : α → Reading σ β}
    {d : α → EStateM Error (BitSource σ) β} (hm : Follows columns m c s)
    (hf : ∀ a s', c s = .ok a s' → Follows columns (f a) (d a) s') :
    Follows columns (andThen m f) (c >>= d) s := by
  obtain ⟨rows, hends, hsound⟩ := hm
  cases hc : c s with
  | error e s' =>
    rw [unguarded_of_error hc] at hends
    refine ⟨rows, ?_, hsound⟩
    rw [unguarded_of_error (bind_of_error hc d)]
    exact hends.stopped f
  | ok a s' =>
    rw [unguarded_of_ok hc] at hends
    obtain ⟨rows', hends', hsound'⟩ := hf a s' hc
    refine ⟨rows ++ rows', ?_, fun row hrow => (List.mem_append.mp hrow).elim (hsound row) (hsound' row)⟩
    rw [unguarded, bind_of_ok hc]
    exact hends.next hends'

/-- A place that is looked for first is there. -/
theorem found {o : Option α} {a : α} {f : α → Reading σ β} {c : EStateM Error (BitSource σ) β}
    (ho : o = some a) (hf : Follows columns (f a) c s) :
    Follows columns (andThen (Reading.plain (BandedPage.found o)) f) c s := by
  subst ho
  exact bind (c := pure a) (d := fun _ => c) (plain rfl) fun b s' h => by
    cases h
    exact hf

/-- A place that must be there is there. -/
theorem demand {inside : Prop} [Decidable inside] {f : Unit → Reading σ β}
    {c : EStateM Error (BitSource σ) β} (h : inside) (hf : Follows columns (f ()) c s) :
    Follows columns (andThen (Reading.plain (BandedPage.demand inside)) f) c s := by
  rw [BandedPage.demand, if_pos h]
  exact found (o := some ()) rfl hf

end Follows

/-! ### The loops -/

namespace Ends

section

variable {black : Bool} {total n : Nat} {s s' : BitSource σ} {rows : List OpenRow}

theorem run_stopped {e : Error} (hword : BitSource.readRunWord black s = .error e s') :
    Ends (run black total) s [] (.error (.failed e) s') := by
  intro rows result
  constructor
  · intro h
    cases h with
    | stopped h =>
      cases hword.symm.trans h
      exact ⟨rfl, rfl⟩
    | short h | makeup h => cases hword.symm.trans h
  · rintro ⟨rfl, rfl⟩
    exact .stopped hword

theorem run_short (hword : BitSource.readRunWord black s = .ok n s') (hshort : n < 64) :
    Ends (run black total) s [] (.ok (total + n) s') := by
  intro rows result
  constructor
  · intro h
    cases h with
    | stopped h => cases hword.symm.trans h
    | short h =>
      cases hword.symm.trans h
      exact ⟨rfl, rfl⟩
    | makeup h hlong =>
      cases hword.symm.trans h
      exact absurd hshort (not_lt.mpr hlong)
  · rintro ⟨rfl, rfl⟩
    exact .short hword hshort

theorem run_makeup (hword : BitSource.readRunWord black s = .ok n s') (hlong : 64 ≤ n)
    {result : EStateM.Result Fault (BitSource σ) Nat}
    (hrest : Ends (run black (total + n)) s' rows result) :
    Ends (run black total) s rows result := by
  intro rows' result'
  constructor
  · intro h
    cases h with
    | stopped h => cases hword.symm.trans h
    | short h hshort =>
      cases hword.symm.trans h
      exact absurd hlong (not_le.mpr hshort)
    | makeup h _ hrest' =>
      cases hword.symm.trans h
      exact (hrest _ _).mp hrest'
  · intro h
    exact .makeup hword hlong ((hrest _ _).mpr h)

end

section

variable {above : List Nat} {columns : Nat} {r r' : OpenRow} {s s' : BitSource σ}
variable {rows rows' : List OpenRow}

theorem row_full (hfull : (columns : Int) ≤ r.place) (s : BitSource σ) :
    Ends (row above columns r) s [r] (.ok r.line s) := by
  intro rows result
  constructor
  · intro h
    cases h with
    | full => exact ⟨rfl, rfl⟩
    | stopped hopen | next hopen => exact absurd hfull (not_le.mpr hopen)
  · rintro ⟨rfl, rfl⟩
    exact .full hfull

theorem row_stopped (hopen : r.place < columns) {fault : Fault}
    (hmode : Ends (mode above columns r) s rows (.error fault s')) :
    Ends (row above columns r) s (r :: rows) (.error fault s') := by
  intro rows' result
  constructor
  · intro h
    cases h with
    | full hfull => exact absurd hopen (not_lt.mpr hfull)
    | stopped _ h =>
      obtain ⟨rfl, heq⟩ := (hmode _ _).mp h
      cases heq
      exact ⟨rfl, rfl⟩
    | next _ h =>
      obtain ⟨-, heq⟩ := (hmode _ _).mp h
      cases heq
  · rintro ⟨rfl, rfl⟩
    exact .stopped hopen ((hmode _ _).mpr ⟨rfl, rfl⟩)

theorem row_next (hopen : r.place < columns) (hmode : Ends (mode above columns r) s rows (.ok r' s'))
    {result : EStateM.Result Fault (BitSource σ) (List Nat)}
    (hrest : Ends (row above columns r') s' rows' result) :
    Ends (row above columns r) s (r :: (rows ++ rows')) result := by
  intro rows'' result'
  constructor
  · intro h
    cases h with
    | full hfull => exact absurd hopen (not_lt.mpr hfull)
    | stopped _ h =>
      obtain ⟨-, heq⟩ := (hmode _ _).mp h
      cases heq
    | next _ h hrest' =>
      obtain ⟨rfl, heq⟩ := (hmode _ _).mp h
      cases heq
      obtain ⟨rfl, rfl⟩ := (hrest _ _).mp hrest'
      exact ⟨rfl, rfl⟩
  · rintro ⟨rfl, rfl⟩
    exact .next hopen ((hmode _ _).mpr ⟨rfl, rfl⟩) ((hrest _ _).mpr ⟨rfl, rfl⟩)

end

end Ends

/-! ### Each loop ends -/

open BitSource

variable [FiniteSource σ]

/-- Each word of a run takes a bit, so there are no more words than bits. -/
theorem follows_readRunFrom (columns : Nat) (black : Bool) {s : BitSource σ} {fuel : Nat}
    (hfuel : s.bitsLeft < fuel) (total : Nat) :
    Follows columns (run black total)
      (readRunFrom (runsOf black) (longest (runsOf black)) fuel total) s := by
  induction fuel generalizing s total with
  | zero => omega
  | succ fuel ih =>
    have hnone : ∀ row ∈ ([] : List OpenRow), row.Sound columns :=
      fun _ hrow => absurd hrow List.not_mem_nil
    rw [readRunFrom_succ]
    cases hword : (BitSource.readRunWord black : EStateM Error (BitSource σ) Nat) s with
    | error e s' =>
      refine ⟨[], ?_, hnone⟩
      rw [unguarded_of_error (bind_of_error hword _)]
      exact .run_stopped hword
    | ok n s' =>
      have hspent := (spends_readWord spends_nextBit_left _ _ _).le_bitsLeft hword
      by_cases hshort : n < 64
      · refine ⟨[], ?_, hnone⟩
        rw [unguarded, bind_of_ok hword, if_pos hshort]
        exact .run_short hword hshort
      · obtain ⟨rows, hends, hsound⟩ := ih (s := s') (by omega) (total + n)
        refine ⟨rows, ?_, hsound⟩
        rw [unguarded, bind_of_ok hword, if_neg hshort]
        exact .run_makeup hword (not_lt.mp hshort) hends

theorem follows_readRun (columns : Nat) (black : Bool) (s : BitSource σ) :
    Follows columns (run black 0) (readRun black) s :=
  follows_readRunFrom columns black (Nat.lt_succ_of_le s.bitsLeft_le_unread) 0

/-! ### Rows that end -/

section

variable {above : List Nat} {columns : Nat} {r : OpenRow}

/-- A mode is read as it would be without looking. -/
theorem follows_readOpenRow (above : List Nat) (columns : Nat) (r : OpenRow) (s : BitSource σ) :
    Follows columns (mode above columns r) (readOpenRow above columns r) s := by
  rw [mode, readOpenRow]
  refine .found (reference?_eq above r.place r.black columns) ?_
  obtain ⟨b1, b2⟩ := reference above r.place r.black columns
  refine .bind (.plain rfl) fun mode s₁ _ => ?_
  cases mode with
  | pass => exact .plain rfl
  | vertical offset => exact .plain rfl
  | horizontal =>
    refine (follows_readRun columns _ s₁).bind fun run1 s₂ _ => ?_
    refine (follows_readRun columns _ s₂).bind fun run2 s₃ _ => ?_
    exact .plain rfl
  | endOfLine => exact .plain rfl

/-- Each mode takes a bit, so there are no more modes than bits. -/
theorem follows_readRow (habove : IsLooseLine columns above) {s : BitSource σ} {fuel : Nat}
    (hfuel : s.bitsLeft < fuel) (hr : r.Sound columns) :
    Follows columns (row above columns r)
      (readRow above columns fuel r.line.toArray r.place r.black) s := by
  induction fuel generalizing s r with
  | zero => omega
  | succ fuel ih =>
    rw [readRow_succ]
    by_cases hfull : (columns : Int) ≤ r.place
    · rw [if_pos hfull]
      exact ⟨[r], .row_full hfull s, fun r' hr' => by rwa [List.mem_singleton.mp hr']⟩
    have hopen := not_le.mp hfull
    rw [if_neg hfull]
    obtain ⟨rows, hends, hsound⟩ := follows_readOpenRow above columns r s
    cases hmode : readOpenRow above columns r s with
    | error e s' =>
      rw [unguarded_of_error hmode] at hends
      refine ⟨r :: rows, ?_, List.forall_mem_cons.mpr ⟨hr, hsound⟩⟩
      rw [unguarded_of_error (bind_of_error hmode _)]
      exact .row_stopped hopen hends
    | ok r' s' =>
      rw [unguarded_of_ok hmode] at hends
      have hspent := (spends_readOpenRow spends_nextBit_left above columns r).le_bitsLeft hmode
      obtain ⟨rows', hends', hsound'⟩ :=
        ih (s := s') (by omega) (sound_of_readOpenRow habove hr hopen hmode)
      refine ⟨r :: (rows ++ rows'), ?_, ?_⟩
      · rw [unguarded, bind_of_ok hmode]
        exact .row_next hopen hends hends'
      · exact List.forall_mem_cons.mpr ⟨hr, List.forall_mem_append.mpr ⟨hsound, hsound'⟩⟩

end

/-- Rows are read as they would be without looking, if there are bytes for them. -/
theorem follows_readRows {raster n first : Nat} {above : List Nat} {data : Bytes}
    (habove : IsLooseLine (raster * 8) above) (hdata : first + n * raster ≤ data.size)
    (s : BitSource σ) :
    Follows (raster * 8) (rows raster n first above data)
      (readRows (raster * 8) n (first * 8) above data) s := by
  induction n generalizing first above data s with
  | zero => exact .plain rfl
  | succ n ih =>
    rw [Nat.succ_mul] at hdata
    have hstart := OpenRow.sound_start (raster * 8)
    have hrow : Follows (raster * 8) (row above (raster * 8) {})
        (readRow above (raster * 8) (s.unread + 1) #[] (-1) false) s :=
      follows_readRow habove (Nat.lt_succ_of_le s.bitsLeft_le_unread) hstart
    refine hrow.bind fun line s' hline => ?_
    have hline' := isLooseLine_of_readRow habove hstart hline
    refine .found (drawRow?_eq (by omega) hline'.lt) ?_
    have hdata' :
        first + raster + n * raster ≤ (draw data (first * 8) (raster * 8) line).size := by
      rw [size_draw]
      omega
    have hrest := ih hline' hdata' s'
    rwa [Nat.add_mul] at hrest

end Reading

variable {σ : Type} [ByteSource σ] [FiniteSource σ]

/-- A row that twice has two runs of no pixels, and one below it with these four changes above. -/
def stillRuns : List UInt8 := [0x26, 0xa1, 0xb9, 0x35, 0x0d, 0xf8, 0x00, 0x80, 0x08]

/-- A run of makeup codes and nothing else. -/
def endlessRun : List UInt8 := [0x3b, 0xde, 0xf7, 0xbd]

end BandedPage.Facsimile
