import Mathlib
import BandedPage.Proofs.Facsimile.Rows
import BandedPage.Proofs.Source.Finite

/-!
# Rows in the course of being read

The bits of a source can be counted by the bytes that it is known to hold, or by those that it has left
at most. In whatever way that is done, as long as every bit that is read counts, every code word takes
one at least, and no run gives one back.

A row is read mode by mode. What the modes so far have made of it is sound, whatever they were: its
changes are in order and within the columns, and while there is more of the row their number tells the
color. Two runs of no pixels leave a row where it is, and list the same column twice; the row below then
finds it twice in the line above, and is sound all the same.
-/

namespace BandedPage.Facsimile

/-! ### Every code word takes a bit -/

namespace BitSource

section

variable {σ α β : Type} [ByteSource σ]

/-- Success takes at least `k` of the bits that `Has` counts. -/
def Spends (Has : BitSource σ → Nat → Prop) (k : Nat) (m : EStateM Error (BitSource σ) α) : Prop :=
  ∀ s n a s', Has s n → m s = .ok a s' → ∃ n', Has s' n' ∧ n' + k ≤ n

variable {Has : BitSource σ → Nat → Prop}

namespace Spends

variable {k l : Nat} {m : EStateM Error (BitSource σ) α}
variable {f : α → EStateM Error (BitSource σ) β}

omit [ByteSource σ]

theorem pure (a : α) : Spends Has 0 (pure a : EStateM Error (BitSource σ) α) := by
  intro s n _ _ hs h
  cases h
  exact ⟨n, hs, Nat.le_refl _⟩

theorem throw (k : Nat) (e : Error) : Spends Has k (throw e : EStateM Error (BitSource σ) α) := by
  intro _ _ _ _ _ h
  cases h

theorem lift (x : Except Error α) : Spends Has 0 (liftM x : EStateM Error (BitSource σ) α) := by
  cases x with
  | ok a => exact pure a
  | error e => exact throw 0 e

theorem bind (hm : Spends Has k m) (hf : ∀ a, Spends Has l (f a)) :
    Spends Has (k + l) (m >>= f) := by
  intro s n b s'' hs h
  obtain ⟨a, s', hm', hf'⟩ := bind_eq_ok_iff.mp h
  obtain ⟨n', hn', hle⟩ := hm s n a s' hs hm'
  obtain ⟨n'', hn'', hle'⟩ := hf a s' n' b s'' hn' hf'
  exact ⟨n'', hn'', by omega⟩

theorem mono (h : Spends Has k m) (hl : l ≤ k) : Spends Has l m := by
  intro s n a s' hs hm
  obtain ⟨n', hn', hle⟩ := h s n a s' hs hm
  exact ⟨n', hn', by omega⟩

theorem get_bind {f : BitSource σ → EStateM Error (BitSource σ) β}
    (hf : ∀ s, Spends Has k (f s)) : Spends Has k (get >>= f) :=
  fun s n b s' hs h => hf s s n b s' hs h

end Spends

section

variable (hbit : Spends Has 1 (nextBit : EStateM Error (BitSource σ) Bool))
include hbit

theorem spends_readWord {γ : Type} (table : List (Codeword × γ)) (n : Nat) (word : Codeword) :
    Spends Has 1 (readWord table n word : EStateM Error (BitSource σ) γ) := by
  induction n generalizing word with
  | zero => exact .get_bind fun _ => .throw 1 _
  | succ n ih =>
    refine (hbit.bind (l := 0) fun bit => ?_).mono (Nat.le_refl _)
    extract_lets word
    split
    · exact .pure _
    · exact (ih word).mono (Nat.zero_le _)

theorem spends_readMode : Spends Has 1 (readMode : EStateM Error (BitSource σ) Mode) :=
  spends_readWord hbit _ _ _

theorem spends_readRunFrom (table : List (Codeword × Nat)) (length fuel total : Nat) :
    Spends Has 0 (readRunFrom table length fuel total : EStateM Error (BitSource σ) Nat) := by
  induction fuel generalizing total with
  | zero => exact .get_bind fun _ => .throw 0 _
  | succ fuel ih =>
    refine ((spends_readWord hbit table length ⟨0, 0⟩).bind (l := 0) fun run => ?_).mono
      (Nat.zero_le _)
    split
    · exact .pure _
    · exact ih _

theorem spends_readRun (black : Bool) :
    Spends Has 0 (readRun black : EStateM Error (BitSource σ) Nat) :=
  .get_bind fun _ => spends_readRunFrom hbit _ _ _ _

end

variable [FiniteSource σ]

/-- No more bits than these can be read. -/
def bitsLeft (s : BitSource σ) : Nat := FiniteSource.left s.source * 8 + s.left

theorem bitsLeft_le_unread (s : BitSource σ) : s.bitsLeft ≤ s.unread :=
  Nat.add_le_add_right (Nat.mul_le_mul_right _ (FiniteSource.left_le_unread s.source)) _

theorem spends_nextBit_left :
    Spends (bitsLeft · = ·) 1 (nextBit : EStateM Error (BitSource σ) Bool) := by
  rintro ⟨source, byte, left⟩ n bit s' rfl h
  refine ⟨_, rfl, ?_⟩
  cases left with
  | succ left =>
    cases h
    exact Nat.le_refl _
  | zero =>
    cases hbyte : nextByte source with
    | error e s'' =>
      simp only [nextBit, hbyte] at h
      cases h
    | ok b s'' =>
      have hleft := FiniteSource.left_of_nextByte hbyte
      simp only [nextBit, hbyte] at h
      cases h
      simp only [bitsLeft]
      omega

theorem Spends.le_bitsLeft {k : Nat} {m : EStateM Error (BitSource σ) α} {s s' : BitSource σ} {a : α}
    (h : Spends (bitsLeft · = ·) k m) (hm : m s = .ok a s') : s'.bitsLeft + k ≤ s.bitsLeft := by
  obtain ⟨n, rfl, hle⟩ := h s _ a s' rfl hm
  exact hle

end

end BitSource

/-! ### Rows -/

/-- A row that is being read. -/
structure OpenRow where
  /-- The changes that were found. -/
  line : List Nat := []
  /-- Where the last mode led to. -/
  place : Int := -1
  /-- The color from there on. -/
  black : Bool := false
  deriving DecidableEq, Repr

namespace OpenRow

/-- The color stays as it is up to `b`. -/
def pass (row : OpenRow) (b : Nat) : OpenRow := { row with place := b }

/-- The color changes at `a`, if that lies to the right and not past the edge. -/
def vertical (row : OpenRow) (columns : Nat) (a : Int) : Except Error OpenRow :=
  let place := row.place
  if a ≤ place || (columns : Int) < a then
    .error (.malformed s!"CCITT vertical mode to {a} from {place}")
  else
    .ok {
      line := row.line ++ if a < columns then [a.toNat] else []
      place := a
      black := !row.black }

/-- The color changes after a run and again after another one, if they do not go past the edge. -/
def horizontal (row : OpenRow) (columns run1 run2 : Nat) : Except Error OpenRow :=
  let a1 := row.place.toNat + run1
  let a2 := a1 + run2
  if columns < a2 then .error (.malformed s!"CCITT runs end at {a2} past {columns} columns")
  else .ok { row with line := row.line ++ [a1, a2].filter (· < columns), place := a2 }

/-- The changes are in order and lie within the columns, none of them to the right of the place, and
while the row is not full they are odd in number exactly when the color is black. -/
structure Sound (columns : Nat) (row : OpenRow) : Prop extends IsLooseLine columns row.line where
  le_place : ∀ c ∈ row.line, (c : Int) ≤ row.place
  begins : -1 ≤ row.place
  ends : row.place ≤ columns
  odd_iff : row.place < columns → (Odd row.line.length ↔ row.black = true)

variable {columns : Nat} {row row' : OpenRow}

/-- A row of which nothing was read. -/
theorem sound_start (columns : Nat) : Sound columns {} where
  sorted := .nil
  lt := fun _ h => absurd h List.not_mem_nil
  le_place := fun _ h => absurd h List.not_mem_nil
  begins := le_refl _
  ends := (show (-1 : Int) ≤ 0 by decide).trans (Int.natCast_nonneg columns)
  odd_iff := by simp

/-- Changes may follow that do not lie to the left, if the color is told from their number. -/
theorem Sound.extend (h : row.Sound columns) {more : List Nat} {place : Int} {black : Bool}
    (hsorted : more.Pairwise (· ≤ ·)) (hmore : ∀ c ∈ more, row.place ≤ c ∧ c ≤ place ∧ c < columns)
    (hplace : row.place ≤ place) (hcolumns : place ≤ columns)
    (hodd : place < columns → (Odd (row.line ++ more).length ↔ black = true)) :
    Sound columns { line := row.line ++ more, place, black } where
  sorted := by
    refine List.pairwise_append.mpr ⟨h.sorted, hsorted, fun c hc c' hc' => ?_⟩
    exact Int.ofNat_le.mp ((h.le_place c hc).trans (hmore c' hc').1)
  lt c hc := (List.mem_append.mp hc).elim (h.lt c) fun hc => (hmore c hc).2.2
  le_place c hc := (List.mem_append.mp hc).elim (fun hc => (h.le_place c hc).trans hplace)
    fun hc => (hmore c hc).2.1
  begins := h.begins.trans hplace
  ends := hcolumns
  odd_iff := hodd

theorem Sound.pass (h : row.Sound columns) (hopen : row.place < columns) {b : Nat}
    (hb : row.place < b) (hcolumns : b ≤ columns) : (row.pass b).Sound columns := by
  have hrow : Sound columns { line := row.line ++ [], place := b, black := row.black } := by
    refine h.extend .nil (fun _ hc => absurd hc List.not_mem_nil) hb.le (Int.ofNat_le.mpr hcolumns) ?_
    rw [List.append_nil]
    exact fun _ => h.odd_iff hopen
  rwa [List.append_nil] at hrow

theorem Sound.vertical (h : row.Sound columns) (hopen : row.place < columns) {a : Int}
    (hrow : row.vertical columns a = .ok row') : row'.Sound columns := by
  rw [OpenRow.vertical] at hrow
  split at hrow
  · cases hrow
  next hfit =>
  cases hrow
  simp only [Bool.or_eq_true, decide_eq_true_eq, not_or, not_le, not_lt] at hfit
  have hbegins := h.begins
  refine h.extend ?_ ?_ hfit.1.le hfit.2 ?_
  · split
    · exact List.pairwise_singleton _ _
    · exact .nil
  · intro c hc
    split at hc
    · rw [List.mem_singleton.mp hc]
      omega
    · exact absurd hc List.not_mem_nil
  · intro hlt
    rw [if_pos hlt, List.length_append, List.length_singleton, Nat.odd_add_one, h.odd_iff hopen]
    cases row.black <;> decide

theorem Sound.horizontal (h : row.Sound columns) (hopen : row.place < columns) {run1 run2 : Nat}
    (hrow : row.horizontal columns run1 run2 = .ok row') : row'.Sound columns := by
  simp only [OpenRow.horizontal] at hrow
  split at hrow
  · cases hrow
  next hfit =>
  cases hrow
  have hbegins := h.begins
  refine h.extend ?_ ?_ ?_ ?_ ?_
  · refine List.Pairwise.filter _ (List.pairwise_pair.mpr ?_)
    omega
  · intro c hc
    obtain ⟨hc, hlt⟩ := List.mem_filter.mp hc
    rw [decide_eq_true_eq] at hlt
    rcases List.mem_pair.mp hc with rfl | rfl <;> omega
  · omega
  · omega
  · intro hlt
    have hboth : [row.place.toNat + run1, row.place.toNat + run1 + run2].filter (· < columns) =
        [row.place.toNat + run1, row.place.toNat + run1 + run2] := by
      refine List.filter_eq_self.mpr fun c hc => decide_eq_true ?_
      rcases List.mem_pair.mp hc with rfl | rfl <;> omega
    rw [hboth, List.length_append, ← h.odd_iff hopen]
    show Odd (row.line.length + 1 + 1) ↔ _
    rw [Nat.odd_add_one, Nat.odd_add_one, not_not]

end OpenRow

namespace BitSource

variable {σ : Type} [ByteSource σ]

/-- A word for a run of a color. -/
def readRunWord (black : Bool) : EStateM Error (BitSource σ) Nat :=
  readWord (runsOf black) (longest (runsOf black)) ⟨0, 0⟩

/-- What one mode makes of a row. -/
def readOpenRow (above : List Nat) (columns : Nat) (row : OpenRow) :
    EStateM Error (BitSource σ) OpenRow := do
  let (b1, b2) := reference above row.place row.black columns
  match ← readMode with
  | .pass => return row.pass b2
  | .vertical offset => liftM (row.vertical columns (b1 + offset))
  | .horizontal =>
    let run1 ← readRun row.black
    let run2 ← readRun (!row.black)
    liftM (row.horizontal columns run1 run2)
  | .endOfLine => throw (.malformed "CCITT data ended early")

/-- A run is read word by word. -/
theorem readRunFrom_succ (black : Bool) (fuel total : Nat) :
    (readRunFrom (runsOf black) (longest (runsOf black)) (fuel + 1) total :
        EStateM Error (BitSource σ) Nat) =
      readRunWord black >>= fun run =>
        if run < 64 then pure (total + run)
        else readRunFrom (runsOf black) (longest (runsOf black)) fuel (total + run) := rfl

/-- Two changes are kept if they lie within the columns. -/
theorem push_filter (line : List Nat) (columns a1 a2 : Nat) :
    (line ++ [a1, a2].filter (· < columns)).toArray =
      if a2 < columns then
        (if a1 < columns then line.toArray.push a1 else line.toArray).push a2
      else if a1 < columns then line.toArray.push a1 else line.toArray := by
  by_cases h1 : a1 < columns <;> by_cases h2 : a2 < columns <;> simp [h1, h2]

/-- A row is read mode by mode. -/
theorem readRow_succ (above : List Nat) (columns fuel : Nat) (row : OpenRow) :
    (readRow above columns (fuel + 1) row.line.toArray row.place row.black :
        EStateM Error (BitSource σ) (List Nat)) =
      if (columns : Int) ≤ row.place then pure row.line
      else readOpenRow above columns row >>= fun row =>
        readRow above columns fuel row.line.toArray row.place row.black := by
  obtain ⟨line, place, black⟩ := row
  rw [readRow]
  split
  · rfl
  simp only [readOpenRow]
  obtain ⟨b1, b2⟩ := reference above place black columns
  dsimp only
  rw [bind_assoc]
  refine bind_congr fun mode => ?_
  cases mode with
  | pass => rfl
  | vertical offset =>
    dsimp only [OpenRow.vertical]
    split
    · rfl
    · have hline : (if (b1 : Int) + offset < columns then
            line.toArray.push ((b1 : Int) + offset).toNat else line.toArray) =
          (line ++ if (b1 : Int) + offset < columns then
            [((b1 : Int) + offset).toNat] else []).toArray := by
        split <;> simp
      rw [hline]
      rfl
  | horizontal =>
    dsimp only
    rw [bind_assoc]
    refine bind_congr fun run1 => ?_
    rw [bind_assoc]
    refine bind_congr fun run2 => ?_
    dsimp only [OpenRow.horizontal]
    split
    · rfl
    · rw [← push_filter]
      rfl
  | endOfLine => rfl

/-- Each mode takes a bit. -/
theorem spends_readOpenRow {Has : BitSource σ → Nat → Prop}
    (hbit : Spends Has 1 (nextBit : EStateM Error (BitSource σ) Bool)) (above : List Nat)
    (columns : Nat) (row : OpenRow) :
    Spends Has 1 (readOpenRow above columns row : EStateM Error (BitSource σ) OpenRow) := by
  rw [readOpenRow]
  obtain ⟨b1, b2⟩ := reference above row.place row.black columns
  refine ((spends_readMode hbit).bind (l := 0) fun mode => ?_).mono (Nat.le_refl _)
  cases mode with
  | pass => exact .pure _
  | vertical offset => exact .lift _
  | horizontal =>
    exact (spends_readRun hbit _).bind fun run1 => (spends_readRun hbit _).bind fun run2 => .lift _
  | endOfLine => exact .throw 0 _

section

variable {above : List Nat} {columns : Nat} {row row' : OpenRow} {s s' : BitSource σ}

/-- A sound row stays sound below any line in order. -/
theorem sound_of_readOpenRow (habove : IsLooseLine columns above) (hrow : row.Sound columns)
    (hopen : row.place < columns) (h : readOpenRow above columns row s = .ok row' s') :
    row'.Sound columns := by
  obtain ⟨hright, hcolumns⟩ : row.place < (reference above row.place row.black columns).2 ∧
      (reference above row.place row.black columns).2 ≤ columns :=
    lt_reference habove hopen row.black true
  rw [readOpenRow] at h
  generalize reference above row.place row.black columns = b at h hright hcolumns
  obtain ⟨mode, s₁, -, h⟩ := bind_eq_ok_iff.mp h
  cases mode with
  | pass =>
    cases h
    exact hrow.pass hopen hright hcolumns
  | vertical offset => exact hrow.vertical hopen (of_lift_eq_ok h)
  | horizontal =>
    obtain ⟨run1, s₂, -, h⟩ := bind_eq_ok_iff.mp h
    obtain ⟨run2, s₃, -, h⟩ := bind_eq_ok_iff.mp h
    exact hrow.horizontal hopen (of_lift_eq_ok h)
  | endOfLine => cases h

/-- A row that was read to its end lists its changes in order. -/
theorem isLooseLine_of_readRow (habove : IsLooseLine columns above) (hrow : row.Sound columns)
    {fuel : Nat} {line : List Nat}
    (h : readRow above columns fuel row.line.toArray row.place row.black s = .ok line s') :
    IsLooseLine columns line := by
  induction fuel generalizing s row with
  | zero => cases h
  | succ fuel ih =>
    rw [readRow_succ] at h
    by_cases hfull : (columns : Int) ≤ row.place
    · rw [if_pos hfull] at h
      cases h
      exact hrow.toIsLooseLine
    · rw [if_neg hfull] at h
      obtain ⟨row', s₁, hmode, h⟩ := bind_eq_ok_iff.mp h
      exact ih (sound_of_readOpenRow habove hrow (not_le.mp hfull) hmode) h

end

/-- Drawing adds no byte and takes none away. -/
theorem size_of_readRows {columns n start : Nat} {above : List Nat} {data data' : Bytes}
    {s s' : BitSource σ} (h : readRows columns n start above data s = .ok data' s') :
    data'.size = data.size := by
  induction n generalizing start above data s with
  | zero =>
    cases h
    rfl
  | succ n ih =>
    rw [readRows, get_bind_run] at h
    obtain ⟨line, s₁, -, h⟩ := bind_eq_ok_iff.mp h
    simp [ih h]

theorem size_of_readWhole {raster height : Nat} {data : Bytes} {s s' : BitSource σ}
    (h : readWhole raster height s = .ok data s') : data.size = raster * height := by
  obtain ⟨data', s₁, hdata, h⟩ := bind_eq_ok_iff.mp h
  obtain ⟨_, s₂, -, h⟩ := bind_eq_ok_iff.mp h
  obtain ⟨_, s₃, -, h⟩ := bind_eq_ok_iff.mp h
  cases h
  simp [size_of_readRows hdata]

end BitSource

end BandedPage.Facsimile
