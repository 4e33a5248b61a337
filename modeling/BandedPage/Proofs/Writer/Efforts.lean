import Mathlib
import BandedPage.Proofs.Computation
import BandedPage.Proofs.Writer.Recovery

/-!
# How much is done against a lack of memory

A band operation is tried, and what happens then depends on how it failed, how often it was tried
again since the page was last emptied, and whether it was emptied in this call. `Course` says so
one effort after another, without a bound. Each effort brings a call closer to its end, since it is
tried again only so often on a page, and the page is emptied only once. So a call ends, whatever the
operation does and however memory answers.
-/

namespace BandedPage.Writer

variable {μ ν α : Type}

/-- Something that is done in a call, and what came of it. -/
inductive Effort (α : Type) where
  /-- The operation was tried. -/
  | tried (answer : Except Error α)
  /-- The page was to be rendered and emptied. -/
  | emptied (answer : Except Error Unit)

/-- How often the operation was tried. -/
def tries (efforts : List (Effort α)) : Nat := efforts.countP fun
  | .tried _ => true
  | .emptied _ => false

/-- How often the page was to be emptied. -/
def emptyings (efforts : List (Effort α)) : Nat := efforts.countP fun
  | .tried _ => false
  | .emptied _ => true

variable [Medium μ] [MemoryPolicy μ ν]

variable (μ) in
/-- What to do after a lack of memory, and the memory after it was asked to free some. -/
def remedy (budget retries : Nat) (emptied : Bool) (memory : ν) : Recovery × ν :=
  let last := if emptied then .fatal else .flushAndRetry
  if retries < budget then
    match MemoryPolicy.freeUp μ memory with
    | (true, memory) => (.retry, memory)
    | (false, memory) => (last, memory)
  else (last, memory)

/-- These efforts are made for an operation from `w` on, and the call ends like this. The operation
was tried again `retries` times on this page, which was emptied in this call or was not. -/
inductive Course (op : WriteM μ ν α) (budget : Nat) :
    Nat → Bool → Writer μ ν → List (Effort α) → EStateM.Result Error (Writer μ ν) α → Prop where
  | done {retries emptied w a state} (h : op w.state = .ok a state) :
    Course op budget retries emptied w [.tried (.ok a)] (.ok a { w with state })
  /-- A failure that is no lack of memory ends the call. One of the storage switches the writer off. -/
  | failed {retries emptied w e state} (h : op w.state = .error e state)
    (he : e.isRetryable = false) :
    Course op budget retries emptied w [.tried (.error e)] (.error e ⟨state, w.disabled || e.isIo⟩)
  | retried {retries emptied w e state memory efforts result} (h : op w.state = .error e state)
    (he : e.isRetryable = true)
    (hremedy : remedy μ budget retries emptied state.memory = (.retry, memory))
    (hrest : Course op budget (retries + 1) emptied ⟨{ state with memory }, w.disabled⟩ efforts
      result) :
    Course op budget retries emptied w (.tried (.error e) :: efforts) result
  | emptied {retries emptied w e state memory w' efforts result} (h : op w.state = .error e state)
    (he : e.isRetryable = true)
    (hremedy : remedy μ budget retries emptied state.memory = (.flushAndRetry, memory))
    (hempty : flushRecovery ⟨{ state with memory }, w.disabled⟩ = .ok () w')
    (hrest : Course op budget 0 true w' efforts result) :
    Course op budget retries emptied w (.tried (.error e) :: .emptied (.ok ()) :: efforts) result
  | notEmptied {retries emptied w e state memory e' w'} (h : op w.state = .error e state)
    (he : e.isRetryable = true)
    (hremedy : remedy μ budget retries emptied state.memory = (.flushAndRetry, memory))
    (hempty : flushRecovery ⟨{ state with memory }, w.disabled⟩ = .error e' w') :
    Course op budget retries emptied w [.tried (.error e), .emptied (.error e')] (.error e' w')
  | gaveUp {retries emptied w e state memory} (h : op w.state = .error e state)
    (he : e.isRetryable = true)
    (hremedy : remedy μ budget retries emptied state.memory = (.fatal, memory)) :
    Course op budget retries emptied w [.tried (.error e)]
      (.error e ⟨{ state with memory }, w.disabled⟩)

/-- These efforts are made in a call, which ends like this. A writer that was switched off makes
none. -/
def Makes (op : WriteM μ ν α) (w : Writer μ ν) (efforts : List (Effort α))
    (result : EStateM.Result Error (Writer μ ν) α) : Prop :=
  if w.disabled then efforts = [] ∧ result = .error .writerDisabled w
  else Course op w.state.config.retryBudget 0 false w efforts result

/-! ### What a remedy can be -/

variable {budget retries : Nat} {emptied : Bool} {memory memory' : ν}

omit [Medium μ] in
theorem lt_of_remedy_retry
    (h : remedy μ budget retries emptied memory = (.retry, memory')) : retries < budget := by
  by_contra hbudget
  rw [remedy, if_neg hbudget] at h
  cases emptied <;> cases h

omit [Medium μ] in
/-- The page is emptied if it was not yet. -/
theorem emptied_of_remedy_flush
    (h : remedy μ budget retries emptied memory = (.flushAndRetry, memory')) : emptied = false := by
  cases emptied with
  | false => rfl
  | true =>
    simp only [remedy, if_true] at h
    split at h
    · cases hfree : MemoryPolicy.freeUp μ memory with
      | mk freed rest => cases freed <;> simp [hfree] at h
    · cases h

omit [Medium μ] in
/-- Nothing more is done only if the page was emptied. -/
theorem emptied_of_remedy_fatal
    (h : remedy μ budget retries emptied memory = (.fatal, memory')) : emptied = true := by
  cases emptied with
  | true => rfl
  | false =>
    simp only [remedy, Bool.false_eq_true, if_false] at h
    split at h
    · cases hfree : MemoryPolicy.freeUp μ memory with
      | mk freed rest => cases freed <;> simp [hfree] at h
    · cases h

/-! ### Courses are short -/

namespace Course

variable {op : WriteM μ ν α} {w : Writer μ ν} {efforts efforts' : List (Effort α)}
variable {result result' : EStateM.Result Error (Writer μ ν) α}

/-- The operation is tried as often as it may be on this page, then as often on the empty one. -/
theorem tries_le (h : Course op budget retries emptied w efforts result) :
    tries efforts ≤ (budget - retries + 1) + if emptied then 0 else budget + 1 := by
  induction h with
  | done h =>
    simp only [tries, List.countP_cons, List.countP_nil, if_true]
    omega
  | failed h he =>
    simp only [tries, List.countP_cons, List.countP_nil, if_true]
    omega
  | retried h he hremedy hrest ih =>
    have hbudget := lt_of_remedy_retry hremedy
    simp only [tries, List.countP_cons, if_true] at ih ⊢
    omega
  | emptied h he hremedy hempty hrest ih =>
    rw [emptied_of_remedy_flush hremedy]
    simp only [tries, List.countP_cons, if_true, if_false, Bool.false_eq_true] at ih ⊢
    omega
  | notEmptied h he hremedy hempty =>
    simp only [tries, List.countP_cons, List.countP_nil, if_true, if_false, Bool.false_eq_true]
    omega
  | gaveUp h he hremedy =>
    simp only [tries, List.countP_cons, List.countP_nil, if_true]
    omega

/-- The page is emptied once at most. -/
theorem emptyings_le (h : Course op budget retries emptied w efforts result) :
    emptyings efforts ≤ if emptied then 0 else 1 := by
  induction h with
  | done h => simp [emptyings]
  | failed h he => simp [emptyings]
  | retried h he hremedy hrest ih => simpa [emptyings] using ih
  | emptied h he hremedy hempty hrest ih =>
    rw [emptied_of_remedy_flush hremedy]
    simpa [emptyings] using ih
  | notEmptied h he hremedy hempty =>
    rw [emptied_of_remedy_flush hremedy]
    simp [emptyings]
  | gaveUp h he hremedy => simp [emptyings]

/-- A call answers what the operation answered when it was tried, if it ever did. -/
theorem ok_iff (h : Course op budget retries emptied w efforts result) (a : α) :
    (∃ w', result = .ok a w') ↔ .tried (.ok a) ∈ efforts := by
  induction h with
  | done h => simp [eq_comm]
  | failed h he => simp
  | retried h he hremedy hrest ih => simpa using ih
  | emptied h he hremedy hempty hrest ih => simpa using ih
  | notEmptied h he hremedy hempty => simp
  | gaveUp h he hremedy => simp

/-- A failure that is no lack of memory is the last thing that happens, and is that of the call. -/
theorem of_not_retryable (h : Course op budget retries emptied w efforts result) {e : Error}
    (hmem : .tried (.error e) ∈ efforts) (he : e.isRetryable = false) :
    efforts.getLast? = some (.tried (.error e)) ∧ ∃ w', result = .error e w' := by
  have hne : ∀ {e' : Error}, e'.isRetryable = true → e ≠ e' := by
    rintro e' he' rfl
    rw [he] at he'
    cases he'
  induction h with
  | done h => simp at hmem
  | failed h he' =>
    obtain rfl : e = _ := by simpa using hmem
    exact ⟨rfl, _, rfl⟩
  | retried h he' hremedy hrest ih =>
    obtain ⟨hlast, hresult⟩ := ih (by simpa [hne he'] using hmem)
    exact ⟨by rw [List.getLast?_cons, hlast]; rfl, hresult⟩
  | emptied h he' hremedy hempty hrest ih =>
    obtain ⟨hlast, hresult⟩ := ih (by simpa [hne he'] using hmem)
    exact ⟨by rw [List.getLast?_cons, List.getLast?_cons, hlast]; rfl, hresult⟩
  | notEmptied h he' hremedy hempty => simp [hne he'] at hmem
  | gaveUp h he' hremedy => simp [hne he'] at hmem

/-- A call fails for a lack of memory only if the page was to be emptied before. -/
theorem exists_emptied (h : Course op budget retries emptied w efforts result) {e : Error}
    {w' : Writer μ ν} (hresult : result = .error e w') (he : e.isRetryable = true) :
    emptied = true ∨ ∃ answer, .emptied answer ∈ efforts := by
  induction h with
  | done h => cases hresult
  | failed h he' =>
    cases hresult
    rw [he] at he'
    cases he'
  | retried h he' hremedy hrest ih =>
    refine (ih hresult).imp_right ?_
    rintro ⟨answer, hmem⟩
    exact ⟨answer, List.mem_cons_of_mem _ hmem⟩
  | emptied h he' hremedy hempty hrest ih => exact .inr ⟨.ok (), by simp⟩
  | notEmptied h he' hremedy hempty =>
    exact .inr ⟨_, List.mem_cons_of_mem _ (List.mem_singleton_self _)⟩
  | gaveUp h he' hremedy => exact .inl (emptied_of_remedy_fatal hremedy)

/-- What is done and how it ends is settled by where it begins. -/
theorem unique (h : Course op budget retries emptied w efforts result)
    (h' : Course op budget retries emptied w efforts' result') :
    efforts' = efforts ∧ result' = result := by
  induction h generalizing efforts' result' with
  | done h => cases h' <;> simp_all
  | failed h he => cases h' <;> simp_all
  | retried h he hremedy hrest ih =>
    cases h' with
    | retried h₁ he₁ hremedy₁ hrest₁ =>
      rw [h] at h₁
      cases h₁
      rw [hremedy] at hremedy₁
      cases hremedy₁
      obtain ⟨rfl, rfl⟩ := ih hrest₁
      exact ⟨rfl, rfl⟩
    | _ => simp_all
  | emptied h he hremedy hempty hrest ih =>
    cases h' with
    | emptied h₁ he₁ hremedy₁ hempty₁ hrest₁ =>
      rw [h] at h₁
      cases h₁
      rw [hremedy] at hremedy₁
      cases hremedy₁
      rw [hempty] at hempty₁
      cases hempty₁
      obtain ⟨rfl, rfl⟩ := ih hrest₁
      exact ⟨rfl, rfl⟩
    | _ => simp_all
  | notEmptied h he hremedy hempty => cases h' <;> simp_all
  | gaveUp h he hremedy => cases h' <;> simp_all

end Course

/-! ### Every call has a course -/

/-- What is done when an operation was refused memory for the last time on a page. -/
inductive Ending (op : WriteM μ ν α) (budget : Nat) (e : Error) (w : Writer μ ν) :
    Bool → List (Effort α) → EStateM.Result Error (Writer μ ν) α → Prop where
  | emptied {w' efforts result} (hempty : flushRecovery w = .ok () w')
    (hrest : Course op budget 0 true w' efforts result) :
    Ending op budget e w false (.emptied (.ok ()) :: efforts) result
  | notEmptied {e' w'} (hempty : flushRecovery w = .error e' w') :
    Ending op budget e w false [.emptied (.error e')] (.error e' w')
  | gaveUp : Ending op budget e w true [] (.error e w)

theorem Ending.course {op : WriteM μ ν α} {e : Error} {w : Writer μ ν} {state : WriterState μ ν}
    {memory : ν} {efforts : List (Effort α)} {result : EStateM.Result Error (Writer μ ν) α}
    (h : Ending op budget e ⟨{ state with memory }, w.disabled⟩ emptied efforts result)
    (hop : op w.state = .error e state) (he : e.isRetryable = true)
    (hremedy : remedy μ budget retries emptied state.memory =
      (if emptied then .fatal else .flushAndRetry, memory)) :
    Course op budget retries emptied w (.tried (.error e) :: efforts) result := by
  cases h with
  | emptied hempty hrest => exact .emptied hop he hremedy hempty hrest
  | notEmptied hempty => exact .notEmptied hop he hremedy hempty
  | gaveUp => exact .gaveUp hop he hremedy

/-- Tries on one page are the beginning of a course, or all of it. -/
theorem course_of_attempt (op : WriteM μ ν α) (n : Nat) (hn : n ≤ budget) (emptied : Bool)
    (w : Writer μ ν) :
    match attempt op n w with
    | .ok a w' => ∃ efforts, Course op budget (budget - n) emptied w efforts (.ok a w')
    | .error e w' =>
      if e.isRetryable then ∃ efforts, ∀ {more result}, Ending op budget e w' emptied more result →
        Course op budget (budget - n) emptied w (efforts ++ more) result
      else ∃ efforts, Course op budget (budget - n) emptied w efforts (.error e w') := by
  induction n generalizing w with
  | zero =>
    cases hop : op w.state with
    | ok a state =>
      rw [attempt_of_ok hop]
      exact ⟨_, .done hop⟩
    | error e state =>
      cases he : e.isRetryable with
      | false =>
        rw [attempt_of_error hop he]
        simp only [he, Bool.false_eq_true, if_false]
        exact ⟨_, .failed hop he⟩
      | true =>
        rw [attempt_zero_of_lack hop he]
        simp only [he, if_true]
        refine ⟨[.tried (.error e)], fun hend => ?_⟩
        have hremedy : remedy μ budget (budget - 0) emptied state.memory =
            (if emptied then .fatal else .flushAndRetry, state.memory) := by
          rw [remedy, if_neg (by omega)]
        exact hend.course hop he hremedy
  | succ n ih =>
    cases hop : op w.state with
    | ok a state =>
      rw [attempt_of_ok hop]
      exact ⟨_, .done hop⟩
    | error e state =>
      cases he : e.isRetryable with
      | false =>
        rw [attempt_of_error hop he]
        simp only [he, Bool.false_eq_true, if_false]
        exact ⟨_, .failed hop he⟩
      | true =>
        rcases hfree : MemoryPolicy.freeUp μ state.memory with ⟨freed, memory⟩
        have hbudget : budget - (n + 1) < budget := by omega
        cases freed with
        | false =>
          have hattempt : attempt op (n + 1) w = .error e ⟨{ state with memory }, w.disabled⟩ := by
            simp [attempt, disablingIf_isIo_of_lack hop he, freeUpAfter, he, hfree, Recovery.after]
          rw [hattempt]
          simp only [he, if_true]
          refine ⟨[.tried (.error e)], fun hend => ?_⟩
          exact hend.course hop he (by simp [remedy, hbudget, hfree])
        | true =>
          have hattempt : attempt op (n + 1) w =
              attempt op n ⟨{ state with memory }, w.disabled⟩ := by
            simp [attempt, disablingIf_isIo_of_lack hop he, freeUpAfter, he, hfree, Recovery.after]
          have hremedy : remedy μ budget (budget - (n + 1)) emptied state.memory =
              (.retry, memory) := by simp [remedy, hbudget, hfree]
          have hretry : ∀ {efforts result},
              Course op budget (budget - n) emptied ⟨{ state with memory }, w.disabled⟩ efforts
                result →
              Course op budget (budget - (n + 1)) emptied w (.tried (.error e) :: efforts) result :=
            fun hrest => .retried hop he hremedy
              (by rwa [show budget - (n + 1) + 1 = budget - n by omega])
          have hrest := ih (by omega) ⟨{ state with memory }, w.disabled⟩
          rw [hattempt]
          cases hlater : attempt op n ⟨{ state with memory }, w.disabled⟩ with
          | ok a w' =>
            rw [hlater] at hrest
            obtain ⟨efforts, hcourse⟩ := hrest
            exact ⟨_, hretry hcourse⟩
          | error e' w' =>
            rw [hlater] at hrest
            dsimp only at hrest ⊢
            split
            next he' =>
              rw [if_pos he'] at hrest
              obtain ⟨efforts, hcourse⟩ := hrest
              exact ⟨.tried (.error e) :: efforts, fun hend => hretry (hcourse hend)⟩
            next he' =>
              rw [if_neg he'] at hrest
              obtain ⟨efforts, hcourse⟩ := hrest
              exact ⟨_, hretry hcourse⟩

/-- What a call comes to is reached by a course. -/
theorem exists_makes (op : WriteM μ ν α) (w : Writer μ ν) :
    ∃ efforts, Makes op w efforts (withRecovery op w) := by
  cases hw : w.disabled with
  | true =>
    refine ⟨[], ?_⟩
    rw [Makes, if_pos hw]
    exact ⟨rfl, withRecovery_of_disabled op hw⟩
  | false =>
    simp only [Makes, hw, Bool.false_eq_true, if_false]
    rw [withRecovery_eq op hw]
    generalize w.state.config.retryBudget = budget
    have hround := course_of_attempt op budget (le_refl budget)
    rw [Nat.sub_self] at hround
    have hfirst := hround false w
    cases hattempt : attempt op budget w with
    | ok a w' =>
      rw [hattempt] at hfirst
      exact hfirst
    | error e w' =>
      rw [hattempt] at hfirst
      dsimp only at hfirst ⊢
      split
      next he =>
        rw [if_pos he] at hfirst
        obtain ⟨efforts, hfirst⟩ := hfirst
        cases hempty : flushRecovery w' with
        | error e' w₁ =>
          rw [bind_of_error hempty]
          exact ⟨_, hfirst (.notEmptied hempty)⟩
        | ok u w₁ =>
          rw [bind_of_ok hempty]
          have hsecond := hround true w₁
          cases hattempt₁ : attempt op budget w₁ with
          | ok a w₂ =>
            rw [hattempt₁] at hsecond
            obtain ⟨more, hsecond⟩ := hsecond
            exact ⟨_, hfirst (.emptied hempty hsecond)⟩
          | error e' w₂ =>
            rw [hattempt₁] at hsecond
            dsimp only at hsecond
            split at hsecond
            · obtain ⟨more, hsecond⟩ := hsecond
              exact ⟨_, hfirst (.emptied hempty (hsecond .gaveUp))⟩
            · obtain ⟨more, hsecond⟩ := hsecond
              exact ⟨_, hfirst (.emptied hempty hsecond)⟩
      next he =>
        rw [if_neg he] at hfirst
        exact hfirst

/-- Whatever the operation does and however memory answers, a call makes certain efforts and no
others: the operation is tried at most twice as often as it may be on one page, and the page is
emptied at most once. The call answers just what a try answered, a failure that is no lack of memory
ends it, and it gives up for a lack of memory only after the page was to be emptied. -/
theorem recovery_is_bounded (op : WriteM μ ν α) (w : Writer μ ν) :
    ∃ efforts, Makes op w efforts (withRecovery op w) ∧
      (∀ efforts' result, Makes op w efforts' result →
        efforts' = efforts ∧ result = withRecovery op w) ∧
      tries efforts ≤ 2 * (w.state.config.retryBudget + 1) ∧ emptyings efforts ≤ 1 ∧
      (∀ a, (∃ w', withRecovery op w = .ok a w') ↔ .tried (.ok a) ∈ efforts) ∧
      (∀ e, .tried (.error e) ∈ efforts → e.isRetryable = false →
        efforts.getLast? = some (.tried (.error e)) ∧ ∃ w', withRecovery op w = .error e w') ∧
      ∀ requested available w',
        withRecovery op w = .error (.outOfMemory requested available) w' →
          ∃ answer, .emptied answer ∈ efforts := by
  obtain ⟨efforts, hmakes⟩ := exists_makes op w
  refine ⟨efforts, hmakes, ?_⟩
  cases hw : w.disabled with
  | true =>
    simp only [Makes, hw, if_true] at hmakes ⊢
    obtain ⟨rfl, hresult⟩ := hmakes
    simp [hresult, tries, emptyings]
  | false =>
    simp only [Makes, hw, Bool.false_eq_true, if_false] at hmakes ⊢
    refine ⟨fun efforts' result => hmakes.unique, ?_, hmakes.emptyings_le, hmakes.ok_iff,
      fun e => hmakes.of_not_retryable, fun requested available w' hresult => ?_⟩
    · have := hmakes.tries_le
      simp only [Bool.false_eq_true, if_false, Nat.sub_zero] at this
      omega
    · simpa using hmakes.exists_emptied hresult rfl

end BandedPage.Writer
