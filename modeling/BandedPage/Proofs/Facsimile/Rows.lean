import Mathlib
import BandedPage.Facsimile.Line
import BandedPage.Proofs.Bits.Basic
import BandedPage.Proofs.Facsimile.Words

/-!
# Reading facsimile rows back

The changes of a row stand for its bits: drawing them into white gives the row. A row is read back as
its changes. What has been read after some modes are the changes up to the place that the last mode
led to; both sides see the same line above, so they take the same references. The rows drawn one below
the other are the bytes that were coded.
-/

namespace BandedPage.Facsimile

/-- Changes that increase and lie within `columns`. -/
structure IsLine (columns : Nat) (line : List Nat) : Prop where
  sorted : line.Pairwise (· < ·)
  lt : ∀ c ∈ line, c < columns

/-- Changes that never decrease and lie within `columns`. What is listed twice in turn is no change. -/
structure IsLooseLine (columns : Nat) (line : List Nat) : Prop where
  sorted : line.Pairwise (· ≤ ·)
  lt : ∀ c ∈ line, c < columns

theorem IsLine.isLoose {columns : Nat} {line : List Nat} (h : IsLine columns line) :
    IsLooseLine columns line where
  sorted := h.sorted.imp Nat.le_of_lt
  lt := h.lt

theorem isLine_nil (columns : Nat) : IsLine columns [] where
  sorted := .nil
  lt := fun _ h => absurd h List.not_mem_nil

theorem changesFrom_mem {pixel : Nat → Bool} {black : Bool} {column n c : Nat}
    (h : c ∈ changesFrom pixel black column n) : column ≤ c ∧ c < column + n := by
  induction n generalizing black column with
  | zero => cases h
  | succ n ih =>
    rw [changesFrom] at h
    split at h
    · have := ih h
      omega
    · rcases List.mem_cons.mp h with rfl | h
      · omega
      · have := ih h
        omega

theorem changesFrom_sorted (pixel : Nat → Bool) (black : Bool) (column n : Nat) :
    (changesFrom pixel black column n).Pairwise (· < ·) := by
  induction n generalizing black column with
  | zero => exact .nil
  | succ n ih =>
    rw [changesFrom]
    split
    · exact ih black (column + 1)
    · refine List.Pairwise.cons (fun c hc => ?_) (ih (!black) (column + 1))
      have := changesFrom_mem hc
      omega

theorem isLine_changes (data : Bytes) (start columns : Nat) :
    IsLine columns (changes data start columns) where
  sorted := changesFrom_sorted _ _ _ _
  lt c hc := by
    have := changesFrom_mem hc
    omega

@[simp] theorem size_blacken (data : Bytes) (start n : Nat) :
    (blacken data start n).size = data.size := by
  induction n generalizing data start with
  | zero => rfl
  | succ n ih => simp [blacken, ih]

@[simp] theorem get_blacken (data : Bytes) (start n i : Nat) (hi : i < data.size * 8) :
    Bits.get (blacken data start n) i =
      ((decide (start ≤ i) && decide (i < start + n)) || Bits.get data i) := by
  induction n generalizing data start with
  | zero =>
    have : ¬ (start ≤ i ∧ i < start + 0) := by omega
    rw [blacken, ← Bool.decide_and, decide_eq_false this, Bool.false_or]
  | succ n ih =>
    rw [blacken, ih _ _ (by rwa [Bits.size_set]), Bits.get_set_true]
    cases Bits.get data i with
    | true => simp
    | false =>
      simp only [Bool.or_false]
      rw [Bool.eq_iff_iff]
      simp only [Bool.or_eq_true, Bool.and_eq_true, decide_eq_true_eq]
      omega

@[simp] theorem size_draw (data : Bytes) (start columns : Nat) (line : List Nat) :
    (draw data start columns line).size = data.size := by
  fun_induction draw data start columns line with
  | case1 => rfl
  | case2 => exact size_blacken ..
  | case3 data a b line ih => simp [ih]

/-- The bit of a row that is drawn: what `pixel` says from `column` on, and otherwise what is there
already. -/
def drawn (data : Bytes) (start : Nat) (pixel : Nat → Bool) (column columns i : Nat) : Bool :=
  if start + column ≤ i ∧ i < start + columns then pixel (i - start) else Bits.get data i

@[simp] theorem drawn_self (data : Bytes) (start : Nat) (pixel : Nat → Bool) (column i : Nat) :
    drawn data start pixel column column i = Bits.get data i := by
  rw [drawn, if_neg (by omega)]

/-- One column of a row that is white so far, and the rest. -/
theorem drawn_succ {data : Bytes} {start column : Nat} (pixel : Nat → Bool) (n : Nat)
    (hwhite : Bits.get data (start + column) = false) (i : Nat) :
    drawn data start pixel column (column + (n + 1)) i =
      ((decide (i = start + column) && pixel column) ||
        drawn data start pixel (column + 1) (column + (n + 1)) i) := by
  simp only [drawn]
  by_cases heq : i = start + column
  · subst heq
    rw [if_pos (by omega), if_neg (by omega), Nat.add_sub_cancel_left, hwhite]
    simp
  · by_cases hin : start + (column + 1) ≤ i ∧ i < start + (column + (n + 1))
    · rw [if_pos (by omega), if_pos hin]
      simp [heq]
    · rw [if_neg (by omega), if_neg hin]
      simp [heq]

/-- A run of black that ends before the columns that are drawn. -/
theorem drawn_blacken {data : Bytes} {start a column columns i : Nat} (pixel : Nat → Bool)
    (ha : a ≤ column) (hi : i < data.size * 8) :
    drawn (blacken data (start + a) (column - a)) start pixel (column + 1) columns i =
      ((decide (start + a ≤ i) && decide (i < start + column)) ||
        drawn data start pixel (column + 1) columns i) := by
  have hend : start + a + (column - a) = start + column := by omega
  simp only [drawn]
  by_cases hin : start + (column + 1) ≤ i ∧ i < start + columns
  · rw [if_pos hin, if_pos hin, ← Bool.decide_and, decide_eq_false (by omega), Bool.false_or]
  · rw [if_neg hin, if_neg hin, get_blacken _ _ _ _ hi, hend]

/-- Drawing the changes from `column` on gives the pixels from there. A run of black that began
at `a` is completed first. -/
theorem get_draw_changesFrom (pixel : Nat → Bool) (column n : Nat) {start : Nat} {data : Bytes}
    (hfit : start + (column + n) ≤ data.size * 8)
    (hwhite : ∀ i, start + column ≤ i → i < start + (column + n) → Bits.get data i = false)
    {i : Nat} (hi : i < data.size * 8) :
    Bits.get (draw data start (column + n) (changesFrom pixel false column n)) i =
        drawn data start pixel column (column + n) i ∧
      ∀ a ≤ column, Bits.get (draw data start (column + n) (a :: changesFrom pixel true column n)) i =
        ((decide (start + a ≤ i) && decide (i < start + column)) ||
          drawn data start pixel column (column + n) i) := by
  induction n generalizing column data with
  | zero =>
    rw [Nat.add_zero, drawn_self]
    refine ⟨rfl, fun a ha => ?_⟩
    have hend : start + a + (column - a) = start + column := by omega
    rw [changesFrom, draw, get_blacken _ _ _ _ hi, hend]
  | succ n ih =>
    have hcolumns : column + 1 + n = column + (n + 1) := by omega
    have hnext := ih (column + 1) (by omega)
      (fun i hlo hhi => hwhite i (by omega) (by omega)) hi
    rw [hcolumns] at hnext
    have hstep := drawn_succ pixel n (hwhite (start + column) (by omega) (by omega)) i
    constructor
    · rw [changesFrom, hstep]
      cases hpixel : pixel column with
      | false =>
        rw [if_pos (beq_self_eq_true false), hnext.1]
        simp
      | true =>
        rw [if_neg (by decide), Bool.not_false, hnext.2 column (by omega), ← Bool.decide_and]
        simp only [Bool.and_true]
        congr 2
        rw [eq_iff_iff]
        omega
    · intro a ha
      rw [changesFrom, hstep]
      cases hpixel : pixel column with
      | true =>
        rw [if_pos (beq_self_eq_true true), hnext.2 a (by omega), ← Bool.or_assoc, ← Bool.decide_and,
          ← Bool.decide_and, Bool.and_true, ← Bool.decide_or]
        congr 2
        rw [eq_iff_iff]
        omega
      | false =>
        -- The run of black ends here, and what follows is drawn beside it.
        have hwhite' : ∀ i, start + (column + 1) ≤ i → i < start + (column + 1 + n) →
            Bits.get (blacken data (start + a) (column - a)) i = false := by
          intro i hlo hhi
          rw [get_blacken _ _ _ _ (by omega), hwhite i (by omega) (by omega), ← Bool.decide_and,
            decide_eq_false (by omega)]
          rfl
        have hrest := (ih (column + 1) (by rw [size_blacken]; omega) hwhite'
          (by rwa [size_blacken])).1
        rw [hcolumns, drawn_blacken pixel ha hi] at hrest
        rw [if_neg (by decide), draw, Bool.not_true, hrest, Bool.and_false, Bool.false_or]

/-- A row drawn into white is the row its changes were taken from. -/
theorem get_draw_changes {source data : Bytes} {start columns : Nat}
    (hfit : start + columns ≤ data.size * 8)
    (hwhite : ∀ i, start ≤ i → i < start + columns → Bits.get data i = false) {i : Nat}
    (hi : i < data.size * 8) :
    Bits.get (draw data start columns (changes source start columns)) i =
      if start ≤ i ∧ i < start + columns then Bits.get source i else Bits.get data i := by
  have hfit' : start + (0 + columns) ≤ data.size * 8 := by omega
  have := (get_draw_changesFrom (fun i => Bits.get source (start + i)) 0 columns hfit'
    (fun i hlo hhi => hwhite i (by omega) (by omega)) hi).1
  rw [Nat.zero_add] at this
  rw [changes, this, drawn, Nat.add_zero]
  split
  · next hin => rw [Nat.add_sub_cancel' hin.1]
  · rfl

/-! ### Reading lines -/

/-- The runs that one word stands for. -/
def codedRuns : List Nat := List.range 64 ++ (List.range 40).map fun i => (i + 1) * 64

theorem exists_word_of_mem_codedRuns (black : Bool) {run : Nat} (h : run ∈ codedRuns) :
    ∃ w, (w, run) ∈ runsOf black := by
  have hall : ∀ black, ∀ run ∈ codedRuns, (runsOf black).any (·.2 == run) = true := by
    decide +kernel
  obtain ⟨⟨w, run'⟩, hmem, heq⟩ := List.any_eq_true.mp (hall black run h)
  obtain rfl : run' = run := by simpa using heq
  exact ⟨w, hmem⟩

theorem mem_codedRuns_of_lt {run : Nat} (h : run < 64) : run ∈ codedRuns :=
  List.mem_append_left _ (List.mem_range.mpr h)

theorem mem_codedRuns_mul {i : Nat} (hpos : 0 < i) (h : i ≤ 40) : i * 64 ∈ codedRuns := by
  refine List.mem_append_right _ (List.mem_map.mpr ⟨i - 1, List.mem_range.mpr (by omega), ?_⟩)
  rw [Nat.sub_add_cancel hpos]

/-- The changes up to column `a`. -/
def upTo (line : List Nat) (a : Int) : List Nat := line.filter fun (c : Nat) => (c : Int) ≤ a

section

variable {columns : Nat} {line above : List Nat} {a : Int}

theorem IsLine.tail {c : Nat} (h : IsLine columns (c :: line)) : IsLine columns line :=
  ⟨(List.pairwise_cons.mp h.sorted).2, fun c hc => h.lt c (List.mem_cons_of_mem _ hc)⟩

/-- The next change lies to the right, and no change lies on the way to it. -/
theorem upTo_nextChange (h : IsLine columns line) (ha : a ≤ columns) :
    a ≤ nextChange line a columns ∧ nextChange line a columns ≤ columns ∧
      (a < columns → a < nextChange line a columns) ∧
      (upTo line (nextChange line a columns) =
        upTo line a ++ if nextChange line a columns < columns then [nextChange line a columns] else []) ∧
      ∀ b, a ≤ b → b < nextChange line a columns → upTo line b = upTo line a := by
  induction line with
  | nil => exact ⟨ha, le_rfl, id, by simp [upTo, nextChange], fun _ _ _ => rfl⟩
  | cons c line ih =>
    obtain ⟨hle, hcolumns, hlt, hupTo, hbetween⟩ := ih h.tail
    have hc : c < columns := h.lt c List.mem_cons_self
    by_cases hac : a < c
    · have hnext : nextChange (c :: line) a columns = c := by
        simp [nextChange, hac]
      have hafter : ∀ b : Int, b ≤ c → upTo line b = [] := by
        intro b hb
        refine List.filter_eq_nil_iff.mpr fun c' hc' => ?_
        have := (List.pairwise_cons.mp h.sorted).1 c' hc'
        simp only [decide_eq_true_eq]
        omega
      have hbefore : ∀ b : Int, b < c → upTo (c :: line) b = [] := by
        intro b hb
        rw [upTo, List.filter_cons_of_neg (by simp only [decide_eq_true_eq]; omega)]
        exact hafter b hb.le
      rw [hnext]
      refine ⟨hac.le, hc.le, fun _ => hac, ?_, fun b _ hb => ?_⟩
      · rw [hbefore a hac, if_pos hc, upTo, List.filter_cons_of_pos (by simp)]
        exact congrArg (c :: ·) (hafter c le_rfl)
      · rw [hbefore a hac, hbefore b hb]
    · have hnext : nextChange (c :: line) a columns = nextChange line a columns := by
        simp [nextChange, hac]
      have hkeep : ∀ b : Int, a ≤ b → upTo (c :: line) b = c :: upTo line b := by
        intro b hb
        rw [upTo, List.filter_cons_of_pos (by simp only [decide_eq_true_eq]; omega)]
        rfl
      rw [hnext]
      refine ⟨hle, hcolumns, hlt, ?_, fun b hab hb => ?_⟩
      · rw [hkeep _ hle, hkeep a le_rfl, hupTo, List.cons_append]
      · rw [hkeep b hab, hkeep a le_rfl, hbetween b hab hb]

@[simp]
theorem upTo_of_columns_le (h : IsLine columns line) (ha : columns ≤ a) : upTo line a = line := by
  refine List.filter_eq_self.mpr fun c hc => ?_
  have := h.lt c hc
  simp only [decide_eq_true_eq]
  omega

theorem IsLooseLine.tail {c : Nat} (h : IsLooseLine columns (c :: line)) :
    IsLooseLine columns line :=
  ⟨(List.pairwise_cons.mp h.sorted).2, fun c hc => h.lt c (List.mem_cons_of_mem _ hc)⟩

/-- The references lie to the right of `a`. -/
theorem lt_reference (h : IsLooseLine columns above) (ha : a < columns) (black toBlack : Bool) :
    a < (referenceFrom a black columns toBlack above).2 ∧
      (referenceFrom a black columns toBlack above).2 ≤ columns := by
  induction above generalizing toBlack with
  | nil => exact ⟨ha, le_rfl⟩
  | cons c line ih =>
    rw [referenceFrom]
    split
    · next hc =>
      rw [Bool.and_eq_true, decide_eq_true_eq] at hc
      cases line with
      | nil => exact ⟨ha, le_rfl⟩
      | cons c' line =>
        have hle := (List.pairwise_cons.mp h.sorted).1 c' List.mem_cons_self
        have hcolumns := h.tail.lt c' List.mem_cons_self
        refine ⟨?_, hcolumns.le⟩
        show a < c'
        omega
    · exact ih h.tail _

end

namespace BitSource

variable {σ : Type} [ByteSource σ] [LawfulSource σ]

theorem spells_run (black : Bool) {run : Nat} (h : run ∈ codedRuns) :
    Spells (readWord (runsOf black) (longest (runsOf black)) ⟨0, 0⟩ :
      EStateM Error (BitSource σ) Nat) (bitsFor (runsOf black) run) run :=
  spells_readWord (isReadable_runs black) (exists_word_of_mem_codedRuns black h)

/-- A run of more than one word. -/
theorem spells_makeup (black : Bool) {run total fuel answer : Nat} {bits : List Bool}
    (h : run ∈ codedRuns) (hlong : 64 ≤ run)
    (hrest : Spells (readRunFrom (runsOf black) (longest (runsOf black)) fuel (total + run) :
      EStateM Error (BitSource σ) Nat) bits answer) :
    Spells (readRunFrom (runsOf black) (longest (runsOf black)) (fuel + 1) total :
      EStateM Error (BitSource σ) Nat) (bitsFor (runsOf black) run ++ bits) answer := by
  refine (spells_run black h).bind ?_
  rw [if_neg (by omega)]
  exact hrest

theorem spells_terminating (black : Bool) {run : Nat} (h : run < 64) (fuel total : Nat) :
    Spells (readRunFrom (runsOf black) (longest (runsOf black)) (fuel + 1) total :
      EStateM Error (BitSource σ) Nat) (bitsFor (runsOf black) run) (total + run) := by
  rw [← List.append_nil (bitsFor (runsOf black) run)]
  refine (spells_run black (mem_codedRuns_of_lt h)).bind ?_
  rw [if_pos h]
  exact .pure _

/-- A run is read back when there is fuel for its words. -/
theorem spells_readRunFrom (black : Bool) (q rest total fuel : Nat) (hrest : rest < 2560)
    (hfuel : q + 2 ≤ fuel) :
    Spells (readRunFrom (runsOf black) (longest (runsOf black)) fuel total :
      EStateM Error (BitSource σ) Nat)
      ((List.replicate q (bitsFor (runsOf black) maxMakeup)).flatten ++
        (if 64 ≤ rest then bitsFor (runsOf black) (rest / 64 * 64) else []) ++
        bitsFor (runsOf black) (rest % 64)) (total + (q * 2560 + rest)) := by
  induction q generalizing total fuel with
  | zero =>
    obtain ⟨fuel, rfl⟩ : ∃ k, fuel = k + 2 := ⟨fuel - 2, by omega⟩
    have hmod := Nat.div_add_mod rest 64
    have hlt := Nat.mod_lt rest (show 0 < 64 by decide)
    by_cases hlong : 64 ≤ rest
    · rw [if_pos hlong]
      have hpos : 0 < rest / 64 := Nat.div_pos hlong (by decide)
      have h := spells_makeup (σ := σ) black (mem_codedRuns_mul hpos (by omega)) (by omega)
        (spells_terminating black hlt fuel (total + rest / 64 * 64))
      have heq : total + rest / 64 * 64 + rest % 64 = total + (0 * 2560 + rest) := by omega
      rw [heq] at h
      exact h
    · rw [if_neg hlong]
      have h := spells_terminating (σ := σ) black hlt (fuel + 1) total
      have heq : total + rest % 64 = total + (0 * 2560 + rest) := by omega
      rw [heq] at h
      exact h
  | succ q ih =>
    obtain ⟨fuel, rfl⟩ : ∃ k, fuel = k + 1 := ⟨fuel - 1, by omega⟩
    have h := spells_makeup (σ := σ) black (mem_codedRuns_mul (i := 40) (by decide) le_rfl) (by decide)
      (ih (total + 40 * 64) fuel (by omega))
    have heq : total + 40 * 64 + (q * 2560 + rest) = total + ((q + 1) * 2560 + rest) := by omega
    rw [heq] at h
    rw [List.replicate_succ, List.flatten_cons, List.append_assoc, List.append_assoc]
    rw [List.append_assoc] at h
    exact h

theorem spells_readRun (black : Bool) (run : Nat) :
    Spells (readRun black : EStateM Error (BitSource σ) Nat) (runBits black run) run := by
  refine .get_bind fun s more rest hs => ?_
  have hunread := hs.length_le_unread
  have hmakeup : 0 < (bitsFor (runsOf black) 2560).length := length_bitsFor_pos (isReadable_runs black)
    (exists_word_of_mem_codedRuns black (mem_codedRuns_mul (i := 40) (by decide) le_rfl))
  have hlast := length_bitsFor_pos (isReadable_runs black)
    (exists_word_of_mem_codedRuns black (mem_codedRuns_of_lt (Nat.mod_lt _ (by decide))))
    (v := run % 2560 % 64)
  have hwords : run / 2560 + 1 ≤ (runBits black run).length := by
    have hle : run / 2560 * 1 ≤ run / 2560 * (bitsFor (runsOf black) 2560).length :=
      Nat.mul_le_mul_left _ hmakeup
    simp only [runBits, maxMakeup, List.length_append, List.length_flatten, List.map_replicate,
      List.sum_replicate, smul_eq_mul]
    omega
  rw [List.length_append] at hunread
  have h := spells_readRunFrom (σ := σ) black (run / 2560) (run % 2560) 0 (s.unread + 1)
    (Nat.mod_lt run (by decide)) (by omega)
  rw [Nat.zero_add, Nat.div_add_mod'] at h
  exact h

/-- The changes read when one is found. -/
theorem toList_push_upTo {columns : Nat} {line : List Nat} {a : Int} {read : Array Nat}
    (hline : IsLine columns line) (ha : a ≤ columns) (hread : read.toList = upTo line a) :
    (if nextChange line a columns < columns then read.push (nextChange line a columns)
      else read).toList = upTo line (nextChange line a columns) := by
  obtain ⟨-, -, -, hupTo, -⟩ := upTo_nextChange hline ha
  rw [hupTo, ← hread]
  split
  · rw [Array.toList_push]
  · rw [List.append_nil]

theorem exists_word_vertical {offset : Int} (hlow : -3 ≤ offset) (hhigh : offset ≤ 3) :
    ∃ w, (w, Mode.vertical offset) ∈ modes := by
  obtain rfl | rfl | rfl | rfl | rfl | rfl | rfl : offset = -3 ∨ offset = -2 ∨ offset = -1 ∨
      offset = 0 ∨ offset = 1 ∨ offset = 2 ∨ offset = 3 := by omega
  all_goals simp [modes]

section

variable {columns fuel : Nat} {above line : List Nat} {a : Int} {black : Bool} {read : Array Nat}
  {bits : List Bool}

theorem spells_pass (hlt : a < columns)
    (hrest : Spells (readRow above columns fuel read (reference above a black columns).2 black :
      EStateM Error (BitSource σ) (List Nat)) bits line) :
    Spells (readRow above columns (fuel + 1) read a black : EStateM Error (BitSource σ) (List Nat))
      (bitsFor modes .pass ++ bits) line := by
  rw [readRow, if_neg (not_le.mpr hlt)]
  exact (spells_readMode (by simp [modes])).bind hrest

theorem spells_vertical {a1 : Nat} (hlt : a < columns) (hright : a < a1) (hcolumns : a1 ≤ columns)
    (hlow : -3 ≤ (a1 : Int) - (reference above a black columns).1)
    (hhigh : (a1 : Int) - (reference above a black columns).1 ≤ 3)
    (hrest : Spells (readRow above columns fuel (if a1 < columns then read.push a1 else read) a1
      (!black) : EStateM Error (BitSource σ) (List Nat)) bits line) :
    Spells (readRow above columns (fuel + 1) read a black : EStateM Error (BitSource σ) (List Nat))
      (bitsFor modes (.vertical ((a1 : Int) - (reference above a black columns).1)) ++ bits)
      line := by
  rw [readRow, if_neg (not_le.mpr hlt)]
  generalize reference above a black columns = b at *
  refine (spells_readMode (exists_word_vertical hlow hhigh)).bind ?_
  have hto : (b.1 : Int) + ((a1 : Int) - b.1) = a1 := by omega
  have hfit : ¬((decide ((a1 : Int) ≤ a) || decide (columns < a1)) = true) := by
    simp only [Bool.or_eq_true, decide_eq_true_eq]
    omega
  simp only [hto, Int.toNat_natCast, Int.ofNat_lt, if_neg hfit]
  exact hrest

theorem spells_horizontal {a1 a2 : Nat} (hlt : a < columns) (hright : a < a1) (hle : a1 ≤ a2)
    (hcolumns : a2 ≤ columns)
    (hrest : Spells (readRow above columns fuel
      (if a2 < columns then (if a1 < columns then read.push a1 else read).push a2
        else if a1 < columns then read.push a1 else read) a2 black :
      EStateM Error (BitSource σ) (List Nat)) bits line) :
    Spells (readRow above columns (fuel + 1) read a black : EStateM Error (BitSource σ) (List Nat))
      (bitsFor modes .horizontal ++ runBits black (a1 - a.toNat) ++ runBits (!black) (a2 - a1) ++
        bits) line := by
  rw [readRow, if_neg (not_le.mpr hlt), List.append_assoc, List.append_assoc]
  refine (spells_readMode (by simp [modes])).bind ((spells_readRun black _).bind
    ((spells_readRun (!black) _).bind ?_))
  have hfirst : a.toNat + (a1 - a.toNat) = a1 := by omega
  simp only [hfirst, Nat.add_sub_cancel' hle, if_neg (not_lt.mpr hcolumns)]
  exact hrest

end

/-- A row is read back from where it was coded from. -/
theorem spells_readRow {columns : Nat} {above line : List Nat} (habove : IsLine columns above)
    (hline : IsLine columns line) (fuel : Nat) {fuel' : Nat} {a : Int} {black : Bool}
    {read : Array Nat} (ha : -1 ≤ a) (hfuel : columns ≤ a + fuel)
    (hfuel' : (rowBits above line columns fuel a black).length < fuel')
    (hread : read.toList = upTo line a) :
    Spells (readRow above columns fuel' read a black : EStateM Error (BitSource σ) (List Nat))
      (rowBits above line columns fuel a black) line := by
  -- Every mode takes bits and moves to the right, so the fuel lasts on both sides.
  induction fuel generalizing fuel' a black read with
  | zero =>
    obtain ⟨fuel', rfl⟩ : ∃ k, fuel' = k + 1 := ⟨fuel' - 1, by omega⟩
    have hend : (columns : Int) ≤ a := by omega
    rw [readRow, if_pos hend, hread, upTo_of_columns_le hline hend]
    exact .pure line
  | succ fuel ih =>
    obtain ⟨fuel', rfl⟩ : ∃ k, fuel' = k + 1 := ⟨fuel' - 1, by omega⟩
    by_cases hend : (columns : Int) ≤ a
    · rw [readRow, rowBits, if_pos hend, if_pos hend, hread, upTo_of_columns_le hline hend]
      exact .pure line
    have hlt : a < columns := not_le.mp hend
    obtain ⟨-, hcolumns, hright, -, hbetween⟩ := upTo_nextChange hline hlt.le
    have hfound := toList_push_upTo hline hlt.le hread
    obtain ⟨hb, hbcolumns⟩ : a < (reference above a black columns).2 ∧
        (reference above a black columns).2 ≤ columns := lt_reference habove.isLoose hlt black true
    replace hright := hright hlt
    rw [rowBits, if_neg hend] at hfuel' ⊢
    dsimp only at hfuel' ⊢
    generalize nextChange line a columns = a1 at *
    have ha1 : (a1 : Int) ≤ columns := by omega
    obtain ⟨hle, hcolumns', hright', -, -⟩ := upTo_nextChange hline ha1
    have hfound' := toList_push_upTo hline ha1 hfound
    generalize nextChange line a1 columns = a2 at *
    have hmode : ∀ {m}, (∃ w, (w, m) ∈ modes) → 0 < (bitsFor modes m).length :=
      length_bitsFor_pos isReadable_modes
    split at hfuel'
    · next hpass =>
      have := hmode (m := .pass) (by simp [modes])
      rw [List.length_append] at hfuel'
      rw [if_pos hpass]
      refine spells_pass hlt (ih (by omega) (by omega) (by omega) ?_)
      rw [hread, hbetween _ hb.le (by omega)]
    · next hpass =>
      rw [if_neg hpass]
      split at hfuel'
      · next hnear =>
        rw [if_pos hnear]
        rw [Bool.and_eq_true, decide_eq_true_eq, decide_eq_true_eq] at hnear
        have := hmode (exists_word_vertical hnear.1 hnear.2)
        rw [List.length_append] at hfuel'
        exact spells_vertical hlt hright hcolumns hnear.1 hnear.2
          (ih (by omega) (by omega) (by omega) hfound)
      · next hnear =>
        have := hmode (m := .horizontal) (by simp [modes])
        simp only [List.length_append] at hfuel'
        rw [if_neg hnear]
        exact spells_horizontal hlt hright (by omega) hcolumns'
          (ih (by omega) (by omega) (by omega) hfound')

/-- Rows are drawn as the data they were coded from. -/
theorem spells_readRows (data : Bytes) {columns rows start : Nat} {above : List Nat} {out : Bytes}
    (habove : IsLine columns above) (hfit : start + rows * columns ≤ out.size * 8)
    (hwhite : ∀ i, start ≤ i → i < start + rows * columns → Bits.get out i = false) :
    ∃ out', Spells (readRows columns rows start above out : EStateM Error (BitSource σ) Bytes)
        (rowsBits data columns rows start above) out' ∧ out'.size = out.size ∧
      ∀ i < out.size * 8, Bits.get out' i =
        if start ≤ i ∧ i < start + rows * columns then Bits.get data i else Bits.get out i := by
  induction rows generalizing start above out with
  | zero => exact ⟨out, .pure out, rfl, fun i hi => by rw [if_neg (by omega)]⟩
  | succ rows ih =>
    rw [Nat.succ_mul] at hfit hwhite
    have hline := isLine_changes data start columns
    have hdrawn : ∀ {i}, i < out.size * 8 →
        Bits.get (draw out start columns (changes data start columns)) i =
          if start ≤ i ∧ i < start + columns then Bits.get data i else Bits.get out i :=
      get_draw_changes (by omega) fun i hlow hhigh => hwhite i hlow (by omega)
    have hfit' : start + columns + rows * columns ≤
        (draw out start columns (changes data start columns)).size * 8 := by
      rw [size_draw]
      omega
    obtain ⟨out', hread, hsize, hbits⟩ := ih hline hfit' fun i hlow hhigh => by
      have hi : i < out.size * 8 := by omega
      rw [hdrawn hi, if_neg (by omega), hwhite i (by omega) (by omega)]
    rw [size_draw] at hsize hbits
    refine ⟨out', .get_bind fun s more rest hs => ?_, hsize, fun i hi => ?_⟩
    · have hunread := hs.length_le_unread
      rw [List.length_append, rowsBits, List.length_append] at hunread
      refine (spells_readRow habove hline (columns + 1) (by omega) (by omega) (by omega) ?_).bind
        hread
      exact (List.filter_eq_nil_iff.mpr fun c _ => by
        simp only [decide_eq_true_eq]
        omega).symm
    · rw [hbits i hi, hdrawn hi, Nat.succ_mul]
      split_ifs <;> first | rfl | omega

theorem spells_readEnd :
    Spells (readEnd : EStateM Error (BitSource σ) Unit) (bitsFor modes .endOfLine) () := by
  rw [← List.append_nil (bitsFor modes .endOfLine)]
  refine (spells_readMode (by simp [modes])).bind ?_
  rw [if_neg (by simp)]
  exact .pure ()

end BitSource

section

variable {σ : Type} [ByteSource σ]

def BitSource.readWhole (raster height : Nat) : EStateM Error (BitSource σ) Bytes := do
  let data ← readRows (raster * 8) height 0 [] (Array.replicate (raster * height) 0)
  readEnd
  readEnd
  return data

/-- Bytes are decoded bit by bit from the first byte on. -/
theorem decode_eq (raster height : Nat) (source : σ) :
    (decode raster height : Decoder σ Bytes) source =
      mapState BitSource.source (BitSource.readWhole raster height { source }) := by
  simp only [decode, BitSource.readWhole]
  split
  · next h => rw [h]; rfl
  · next h => rw [h]; rfl

end

variable {σ : Type} [ByteSource σ] [LawfulSource σ]

/-- Rows are decoded as they were encoded. -/
theorem decodes_encode {data : Bytes} {raster height : Nat} (hraster : raster ≠ 0)
    (hdata : raster * height ≤ data.size) :
    Decodes (decode raster height : Decoder σ Bytes) (encode data raster height)
      (data.extract 0 (raster * height)) := by
  have hrows : min height ((data.size + raster - 1) / raster) = height := by
    refine min_eq_left ((Nat.le_div_iff_mul_le (by omega)).mpr ?_)
    rw [Nat.mul_comm]
    omega
  have hcount : height * (raster * 8) = raster * height * 8 := by ring
  have hfit : 0 + height * (raster * 8) ≤ (Array.replicate (raster * height) (0 : UInt8)).size * 8 := by
    rw [Array.size_replicate]
    omega
  obtain ⟨out, hread, hsize, hbits⟩ := BitSource.spells_readRows (σ := σ) data
    (isLine_nil (raster * 8)) hfit fun i _ _ => Bits.get_replicate_zero _ i
  rw [Array.size_replicate] at hsize hbits
  have hout : out = data.extract 0 (raster * height) := by
    have hextract : (data.extract 0 (raster * height)).size = raster * height := by
      rw [Array.size_extract]
      omega
    refine Bits.ext_get (by omega) fun i hi => ?_
    have hbyte : (data.extract 0 (raster * height))[i / 8]? = data[i / 8]? := by
      rw [Array.getElem?_extract, if_pos (by omega), Nat.zero_add]
    rw [hbits i (by omega), if_pos (by omega), Bits.get_eq_testBit, Bits.get_eq_testBit, hbyte]
  have hspells : BitSource.Spells (σ := σ) (BitSource.readWhole raster height)
      (rowsBits data (raster * 8) height 0 [] ++ (bitsFor modes .endOfLine ++
        (bitsFor modes .endOfLine ++ []))) out :=
    hread.bind (BitSource.spells_readEnd.bind (BitSource.spells_readEnd.bind (.pure out)))
  intro source rest hs
  rw [encode, hrows, ← List.append_nil (bitsFor modes .endOfLine), List.append_assoc,
    List.append_assoc] at hs
  have hholds := BitSource.holds_pack hs
  rw [← List.append_nil (_ ++ _)] at hholds
  obtain ⟨s', hs', hdone⟩ := hspells _ [] rest hholds
  refine ⟨s'.source, ?_, hdone.done⟩
  rw [← hout, decode_eq, hs']
  rfl

/-- Rows are read back as they were coded, whatever follows their code, and just the code is read. -/
theorem coded_rows_are_read_back (data : Bytes) {raster height : Nat} (hraster : 1 ≤ raster)
    (hdata : raster * height ≤ data.size) (source : σ) (further : List UInt8)
    (hsource : LawfulSource.Holds source (encode data raster height ++ further)) :
    ∃ source', decode raster height source = .ok (data.extract 0 (raster * height)) source' ∧
      LawfulSource.Holds source' further :=
  decodes_encode (Nat.one_le_iff_ne_zero.mp hraster) hdata source further hsource

/-- Two rows that differ by a pixel, and a byte that is no row and left out. -/
theorem coded_stripes_are_read_back :
    encode #[0xf0, 0x0f, 0xf8, 0x0f, 0x55] 2 2 = [0x26, 0xac, 0xcd, 0xde, 0x00, 0x20, 0x02] ∧
      ∃ c, decode 2 2 (Cursor.ofList [0x26, 0xac, 0xcd, 0xde, 0x00, 0x20, 0x02, 0xff]) =
        .ok #[0xf0, 0x0f, 0xf8, 0x0f] c ∧ c.rest = [0xff] := by
  have hcode : encode #[0xf0, 0x0f, 0xf8, 0x0f, 0x55] 2 2 =
      [0x26, 0xac, 0xcd, 0xde, 0x00, 0x20, 0x02] := by decide +kernel
  refine ⟨hcode, coded_rows_are_read_back #[0xf0, 0x0f, 0xf8, 0x0f, 0x55] ?_ ?_
    (Cursor.ofList [0x26, 0xac, 0xcd, 0xde, 0x00, 0x20, 0x02, 0xff]) [0xff] ?_⟩
  · decide
  · decide
  · rw [hcode]
    rfl

end BandedPage.Facsimile
