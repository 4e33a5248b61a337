import Mathlib
import BandedPage.Proofs.Computation
import BandedPage.Writer.Session

/-!
# Requests that do not fail

Nothing is recovered from when nothing fails: a request then does just what its operation does.
-/

namespace BandedPage

namespace WriterState

theorem onBuffer_of_ok {μ ν α : Type} {m : BufferM μ α} {s : WriterState μ ν} {a : α}
    {buffer : CommandBuffer μ} (h : m s.buffer = .ok a buffer) :
    onBuffer m s = .ok a { s with buffer } := by
  simp only [onBuffer, h]

section

variable {μ ν α : Type} {m : EStateM Error TileCache α} {s : WriterState μ ν} {tiles : TileCache}

theorem onTiles_of_ok {a : α} (h : m s.tiles = .ok a tiles) :
    onTiles m s = .ok a { s with tiles } := by
  simp only [onTiles, h]

theorem onTiles_of_error {e : Error} (h : m s.tiles = .error e tiles) :
    onTiles m s = .error e { s with tiles } := by
  simp only [onTiles, h]

end

end WriterState

namespace Writer

variable {μ ν α : Type} {w w' : Writer μ ν} {a : α}

@[simp] theorem check_eq (h : w.disabled = false) : check w = .ok () w := by
  simp only [check, get_bind_run, h]
  rfl

/-- What begins with a check succeeds only if the writer may go on. -/
theorem of_check_bind_eq_ok {m : WriterM μ ν α} (h : (check >>= fun _ => m) w = .ok a w') :
    w.disabled = false ∧ m w = .ok a w' := by
  cases hw : w.disabled with
  | false => exact ⟨rfl, by rwa [bind_of_ok (check_eq hw)] at h⟩
  | true =>
    have hrefused : (check : WriterM μ ν Unit) w = .error .writerDisabled w := by
      simp [check, hw]
    rw [bind_of_error hrefused] at h
    cases h

theorem onState_of_ok {m : WriteM μ ν α} {state : WriterState μ ν}
    (h : m w.state = .ok a state) : onState m w = .ok a { w with state } := by
  simp only [onState, h]

theorem disablingIf_of_ok {p : Error → Bool} {m : WriterM μ ν α} (h : m w = .ok a w') :
    disablingIf p m w = .ok a w' := by
  simp only [disablingIf, h]

variable [MemoryPolicy μ ν]

theorem attempt_of_ok {op : WriteM μ ν α} {state : WriterState μ ν}
    (h : op w.state = .ok a state) (n : Nat) : attempt op n w = .ok a { w with state } := by
  have hrun := disablingIf_of_ok (p := Error.isIo) (onState_of_ok h)
  cases n with
  | zero => exact hrun
  | succ n => simp only [attempt, hrun]

/-- A failure that is no lack of memory is not tried again. -/
theorem attempt_of_error {op : WriteM μ ν α} {e : Error} {state : WriterState μ ν}
    (h : op w.state = .error e state) (he : e.isRetryable = false) (n : Nat) :
    attempt op n w = .error e ⟨state, w.disabled || e.isIo⟩ := by
  have hrun : disablingIf Error.isIo (onState op) w = .error e ⟨state, w.disabled || e.isIo⟩ := by
    simp only [disablingIf, onState, h]
  cases n with
  | zero => exact hrun
  | succ n => simp [attempt, hrun, freeUpAfter, he, Recovery.after]

omit [MemoryPolicy μ ν] in
theorem disablingIf_isIo_of_lack {op : WriteM μ ν α} {e : Error} {state : WriterState μ ν}
    (h : op w.state = .error e state) (he : e.isRetryable = true) :
    disablingIf Error.isIo (onState op) w = .error e ⟨state, w.disabled⟩ := by
  have hio : e.isIo = false := by
    cases e <;> simp_all [Error.isRetryable, Error.isIo]
  simp only [disablingIf, onState, h, hio, Bool.or_false]

/-- Refused memory for the last time, an operation has failed. -/
theorem attempt_zero_of_lack {op : WriteM μ ν α} {e : Error} {state : WriterState μ ν}
    (h : op w.state = .error e state) (he : e.isRetryable = true) :
    attempt op 0 w = .error e ⟨state, w.disabled⟩ :=
  disablingIf_isIo_of_lack h he

/-- Refused memory, an operation is tried again if memory was freed. -/
theorem attempt_succ_of_lack {op : WriteM μ ν α} {e : Error} {state : WriterState μ ν}
    (h : op w.state = .error e state) (he : e.isRetryable = true) (n : Nat) :
    let memory := (MemoryPolicy.freeUp μ state.memory).2
    attempt op (n + 1) w = attempt op n ⟨{ state with memory }, w.disabled⟩ ∨
      attempt op (n + 1) w = .error e ⟨{ state with memory }, w.disabled⟩ := by
  simp only [attempt, disablingIf_isIo_of_lack h he, freeUpAfter, if_pos he]
  cases hfreed : (MemoryPolicy.freeUp μ state.memory).1 with
  | true =>
    left
    simp [Recovery.after, he]
  | false =>
    right
    simp [Recovery.after, he]

/-- What is tried depends on the operation's answer alone. -/
theorem attempt_congr {op : WriteM μ ν α} (h : op w.state = op w'.state)
    (hdisabled : w.disabled = w'.disabled) (n : Nat) : attempt op n w = attempt op n w' := by
  have hrun : disablingIf Error.isIo (onState op) w = disablingIf Error.isIo (onState op) w' := by
    simp only [disablingIf, onState, h, hdisabled]
  cases n with
  | zero => exact hrun
  | succ n => simp only [attempt, hrun]

variable [Medium μ] in
@[simp] theorem withRecovery_of_disabled (op : WriteM μ ν α) (hw : w.disabled = true) :
    withRecovery op w = .error .writerDisabled w := by
  have hcheck : check w = .error .writerDisabled w := by
    simp only [check, get_bind_run, if_pos hw]
    rfl
  rw [withRecovery, bind_of_error hcheck]

variable [Medium μ] in
/-- What fails for a lack of memory is tried on an empty page. -/
theorem withRecovery_eq (op : WriteM μ ν α) (hw : w.disabled = false) :
    withRecovery op w =
      match attempt op w.state.config.retryBudget w with
      | .ok a w' => .ok a w'
      | .error e w' =>
        if e.isRetryable then
          (flushRecovery >>= fun _ => attempt op w.state.config.retryBudget) w'
        else .error e w' := by
  rw [withRecovery, bind_of_ok (check_eq hw)]
  show (match attempt op w.state.config.retryBudget w with
    | .ok a w => _
    | .error e w => _) = _
  cases attempt op w.state.config.retryBudget w with
  | ok a w' => rfl
  | error e w' =>
    dsimp only
    cases he : e.isRetryable <;> simp [Recovery.after, he]

variable [Medium μ] in
/-- The same, as one attempt whose failure may be answered by another. -/
theorem withRecovery_eq_tryCatch (op : WriteM μ ν α) (hw : w.disabled = false) :
    withRecovery op w =
      tryCatch (attempt op w.state.config.retryBudget) (fun e =>
        if e.isRetryable then flushRecovery >>= fun _ => attempt op w.state.config.retryBudget
        else throw e) w := by
  rw [withRecovery_eq op hw, tryCatch_run]
  cases attempt op w.state.config.retryBudget w with
  | ok a t => rfl
  | error e t =>
    dsimp only
    split <;> rfl

open Classical in
variable [Medium μ] in
/-- Where the cache refuses a tile its pieces are drawn. -/
theorem tilePart_eq (tile : Tile) (band : Nat) (r : Rect) (colors : ColorPair) (phase : Phase) :
    (tilePart tile band r colors phase : WriterM μ ν Unit) =
      tryCatch (withRecovery (WriterState.tileBand band r tile colors phase)) fun e =>
        if ∃ a b, e = .bitmapTooLarge a b then copyTile tile r colors phase else throw e := by
  funext w
  simp only [tilePart, tryCatch_run]
  cases withRecovery (WriterState.tileBand band r tile colors phase) w with
  | ok a t => rfl
  | error e t => cases e <;> simp

variable [Medium μ] in
theorem withRecovery_of_ok {op : WriteM μ ν α} {state : WriterState μ ν} (hw : w.disabled = false)
    (h : op w.state = .ok a state) : withRecovery op w = .ok a { w with state } := by
  rw [withRecovery, bind_of_ok (check_eq hw)]
  show (match attempt op w.state.config.retryBudget w with
    | .ok a w => _
    | .error e w => _) = _
  rw [attempt_of_ok h]

variable [Medium μ] in
/-- Without an image, a page ends when what is held is stored. -/
theorem endPage_of_closePage (hw : w.disabled = false) (himage : w.state.image = none)
    {buffer : CommandBuffer μ} (h : CommandBuffer.closePage w.state.buffer = .ok () buffer) :
    endPage w = .ok () { w with state := ({ w.state with buffer } : WriterState μ ν).resetPage } := by
  have hclose : critical (onState (WriterState.onBuffer CommandBuffer.closePage)) w =
      .ok () { w with state := { w.state with buffer } } :=
    disablingIf_of_ok (onState_of_ok (WriterState.onBuffer_of_ok h))
  have hnone : w.state.image.isSome = false := by
    rw [himage]
    rfl
  rw [endPage, bind_of_ok (check_eq hw)]
  simp only [get_bind_run, hnone, if_false, Bool.false_eq_true]
  rw [bind_of_ok hclose]
  rfl

end Writer

end BandedPage
