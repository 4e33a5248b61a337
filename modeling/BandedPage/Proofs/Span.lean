import Mathlib
import BandedPage.Span

/-!
# The pieces of an interval

The pieces into which an interval is cut follow one another from its start to its end, so each of its
coordinates lies in just one of them.
-/

namespace BandedPage.Span

def Has (s : Span) (v : Int) : Prop := s.start ≤ v ∧ v < s.start + s.length

/-- Pieces that follow one another from `lo` to `hi`, none of them empty. -/
inductive Chain : Int → Int → List Span → Prop
  | nil (lo : Int) : Chain lo lo []
  | cons {lo n hi : Int} {rest : List Span} (hn : 0 < n) (hrest : Chain (lo + n) hi rest) :
    Chain lo hi (⟨lo, n⟩ :: rest)

namespace Chain

variable {lo hi v : Int} {pieces : List Span} {s : Span}

theorem le (h : Chain lo hi pieces) : lo ≤ hi := by
  induction h with
  | nil => exact le_rfl
  | cons hn _ ih => omega

/-- A piece lies between the ends. -/
theorem of_mem (h : Chain lo hi pieces) (hs : s ∈ pieces) :
    lo ≤ s.start ∧ 0 < s.length ∧ s.start + s.length ≤ hi := by
  induction h with
  | nil => cases hs
  | cons hn hrest ih =>
    rcases List.mem_cons.mp hs with rfl | hs
    · exact ⟨le_rfl, hn, hrest.le⟩
    · obtain ⟨hstart, hrest⟩ := ih hs
      exact ⟨by omega, hrest⟩

/-- The lengths of the pieces add up. -/
theorem sum_length (h : Chain lo hi pieces) :
    (pieces.map (·.length.toNat)).sum = (hi - lo).toNat := by
  induction h with
  | nil => simp
  | @cons lo n hi rest hn hrest ih =>
    have hle := hrest.le
    rw [List.map_cons, List.sum_cons, ih]
    dsimp only
    omega

/-- Every coordinate is in a piece. -/
theorem exists_has (h : Chain lo hi pieces) (hlo : lo ≤ v) (hhi : v < hi) :
    ∃ s ∈ pieces, s.Has v := by
  induction h with
  | nil => omega
  | @cons lo n hi rest hn _ ih =>
    by_cases hv : v < lo + n
    · exact ⟨_, List.mem_cons_self, hlo, hv⟩
    · obtain ⟨s, hs, hv⟩ := ih (Int.not_lt.mp hv) hhi
      exact ⟨s, List.mem_cons_of_mem _ hs, hv⟩

/-- No two pieces have a coordinate in common. -/
theorem pairwise (h : Chain lo hi pieces) : pieces.Pairwise fun s t => ∀ v, s.Has v → ¬ t.Has v := by
  induction h with
  | nil => exact .nil
  | cons hn hrest ih =>
    refine List.pairwise_cons.mpr ⟨fun t ht v hs hv => ?_, ih⟩
    have hstart := (hrest.of_mem ht).1
    obtain ⟨-, hbefore⟩ := hs
    obtain ⟨hafter, -⟩ := hv
    dsimp only at hbefore
    omega

end Chain

variable {period origin lo hi : Int}

/-- A piece goes forward, and ends within the interval. -/
theorem first_length (hperiod : 0 < period) (h : lo < hi) :
    0 < (first period origin lo hi).length ∧ lo + (first period origin lo hi).length ≤ hi := by
  have hhigh := Int.emod_lt_of_pos (lo - origin) hperiod
  simp only [first]
  omega

theorem chain_cut (hperiod : 0 < period) (h : lo ≤ hi) :
    Chain lo hi (cut period origin lo hi) := by
  fun_induction cut period origin lo hi with
  | case1 lo hlt s hs ih => exact .cons hs (ih (first_length hperiod hlt).2)
  | case2 lo hlt s hs => exact absurd (first_length hperiod hlt).1 hs
  | case3 lo hge =>
    have heq : lo = hi := le_antisymm h (Int.not_lt.mp hge)
    exact heq ▸ .nil lo

/-- No piece reaches over a cut. -/
theorem emod_add_length_le (hperiod : 0 < period) {s : Span} (hs : s ∈ cut period origin lo hi) :
    (s.start - origin) % period + s.length ≤ period := by
  fun_induction cut period origin lo hi with
  | case1 lo hlt t ht ih =>
    rcases List.mem_cons.mp hs with rfl | hs
    · show (lo - origin) % period + min (period - (lo - origin) % period) (hi - lo) ≤ period
      omega
    · exact ih hs
  | case2 lo hlt t ht => exact absurd (first_length hperiod hlt).1 ht
  | case3 lo hge => cases hs

/-- Within a piece the pattern goes on as it began. -/
theorem divMod_of_mem_cut (hperiod : 0 < period) {s : Span} (hs : s ∈ cut period origin lo hi) {v : Int}
    (hv : s.Has v) : (v - origin) / period = (s.start - origin) / period ∧
      (v - origin) % period = (s.start - origin) % period + (v - s.start) := by
  have hfits := emod_add_length_le hperiod hs
  have hlow := Int.emod_nonneg (s.start - origin) hperiod.ne'
  have hsum : v - origin = (s.start - origin) % period + (v - s.start) +
      period * ((s.start - origin) / period) := by
    have := Int.emod_add_mul_ediv (s.start - origin) period
    omega
  obtain ⟨hstart, hend⟩ := hv
  have hlt : (s.start - origin) % period + (v - s.start) < period := by omega
  rw [hsum, Int.add_mul_ediv_left _ _ hperiod.ne', Int.add_mul_emod_self_left,
    Int.ediv_eq_zero_of_lt (by omega) hlt, Int.emod_eq_of_lt (by omega) hlt]
  exact ⟨Int.zero_add _, rfl⟩

/-- The pieces of an interval go forward and lie within it. -/
theorem of_mem_cut (hperiod : 0 < period) {s : Span} (hs : s ∈ cut period origin lo hi) :
    lo ≤ s.start ∧ 0 < s.length ∧ s.length ≤ period ∧ s.start + s.length ≤ hi := by
  have hle : lo ≤ hi := by
    by_contra hlt
    rw [cut, if_neg (by omega)] at hs
    cases hs
  obtain ⟨hstart, hpos, hend⟩ := (chain_cut hperiod hle).of_mem hs
  have hfits := emod_add_length_le hperiod hs
  have hlow := Int.emod_nonneg (s.start - origin) hperiod.ne'
  exact ⟨hstart, hpos, by omega, hend⟩

/-- What is done with each piece is done with the pieces in turn. -/
theorem forM_eq_cut {m : Type → Type} [Monad m] [LawfulMonad m] (f : Span → m Unit) :
    forM period origin lo hi f = (cut period origin lo hi).forM f := by
  have hforM : ∀ pieces : List Span, pieces.foldlM (fun _ => f) () = pieces.forM f := by
    intro pieces
    induction pieces with
    | nil => rfl
    | cons s pieces ih => exact bind_congr fun _ => ih
  rw [forM, foldlM_eq_cut, hforM]

end BandedPage.Span
