import Mathlib
import BandedPage.Error

/-!
# Running stateful computations

The equations by which a computation that may fail is run step by step from a given state.
-/

namespace BandedPage

section

variable {ε σ α β : Type}

theorem bind_of_ok {m : EStateM ε σ α} {s s' : σ} {a : α} (h : m s = .ok a s')
    (f : α → EStateM ε σ β) : (m >>= f) s = f a s' := by
  simp only [bind, EStateM.bind, h]

theorem bind_of_error {m : EStateM ε σ α} {s s' : σ} {e : ε} (h : m s = .error e s')
    (f : α → EStateM ε σ β) : (m >>= f) s = .error e s' := by
  simp only [bind, EStateM.bind, h]

/-- A first step that does the same makes the whole computation do the same. -/
theorem bind_of_same {m : EStateM ε σ α} {s s' : σ} (h : m s = m s') (f : α → EStateM ε σ β) :
    (m >>= f) s = (m >>= f) s' := by
  simp only [bind, EStateM.bind, h]

/-- A step that succeeds is there whenever the whole computation succeeds. -/
theorem bind_eq_ok_iff {m : EStateM ε σ α} {f : α → EStateM ε σ β} {s s'' : σ} {b : β} :
    (m >>= f) s = .ok b s'' ↔ ∃ a s', m s = .ok a s' ∧ f a s' = .ok b s'' := by
  simp only [bind, EStateM.bind]
  split
  · next a s' h => simp [h]
  · next e s' h => simp [h]

@[simp] theorem pure_run (a : α) (s : σ) : (pure a : EStateM ε σ α) s = .ok a s := rfl

@[simp] theorem get_run (s : σ) : (get : EStateM ε σ σ) s = .ok s s := rfl

@[simp] theorem set_run (s s' : σ) : (set s' : EStateM ε σ PUnit) s = .ok ⟨⟩ s' := rfl

@[simp] theorem modify_run (f : σ → σ) (s : σ) :
    (modify f : EStateM ε σ PUnit) s = .ok ⟨⟩ (f s) := rfl

@[simp] theorem throw_run (e : ε) (s : σ) : (throw e : EStateM ε σ α) s = .error e s := rfl

theorem tryCatch_run (m : EStateM ε σ α) (f : ε → EStateM ε σ α) (s : σ) :
    (tryCatch m f) s =
      match m s with
      | .ok a s' => .ok a s'
      | .error e s' => f e s' := by
  simp only [tryCatch, tryCatchThe, MonadExceptOf.tryCatch, EStateM.tryCatch]
  cases m s <;> rfl

@[simp] theorem get_bind_run (f : σ → EStateM ε σ β) (s : σ) : (get >>= f) s = f s s := rfl

@[simp] theorem set_bind_run (f : PUnit → EStateM ε σ β) (s s' : σ) :
    (set s' >>= f) s = f ⟨⟩ s' := rfl

@[simp] theorem modify_bind_run (g : σ → σ) (f : PUnit → EStateM ε σ β) (s : σ) :
    (modify g >>= f) s = f ⟨⟩ (g s) := rfl

@[simp] theorem pure_bind_run (a : α) (f : α → EStateM ε σ β) (s : σ) :
    ((pure a : EStateM ε σ α) >>= f) s = f a s := rfl

@[simp] theorem throw_bind_run (e : ε) (f : α → EStateM ε σ β) (s : σ) :
    ((throw e : EStateM ε σ α) >>= f) s = .error e s := rfl

end

section

variable {σ α β : Type}

@[simp] theorem lift_ok_run (a : α) (s : σ) :
    (liftM (Except.ok a : Except Error α) : EStateM Error σ α) s = .ok a s := rfl

@[simp] theorem lift_error_run (e : Error) (s : σ) :
    (liftM (Except.error e : Except Error α) : EStateM Error σ α) s = .error e s := rfl

/-- A check that is passed answers what is checked. -/
theorem of_lift_eq_ok {x : Except Error α} {a : α} {s s' : σ}
    (h : (liftM x : EStateM Error σ α) s = .ok a s') : x = .ok a := by
  cases x with
  | ok b =>
    cases h
    rfl
  | error e => cases h

@[simp] theorem lift_ok_bind_run (a : α) (f : α → EStateM Error σ β) (s : σ) :
    ((liftM (Except.ok a : Except Error α) : EStateM Error σ α) >>= f) s = f a s := rfl

end

section

variable {ε σ σ' α : Type}

def stateOf : EStateM.Result ε σ α → σ
  | .ok _ s => s
  | .error _ s => s

def answerOf : EStateM.Result ε σ α → Except ε α
  | .ok a _ => .ok a
  | .error e _ => .error e

def endWith (answer : Except ε α) (s : σ) : EStateM.Result ε σ α :=
  match answer with
  | .ok a => .ok a s
  | .error e => .error e s

theorem eq_ok_of_isOk {r : EStateM.Result ε σ Unit} (h : (answerOf r).isOk = true) :
    r = .ok () (stateOf r) := by
  cases r with
  | ok _ s => rfl
  | error e s => cases h

@[simp] theorem answerOf_endWith (answer : Except ε α) (s : σ) :
    answerOf (endWith answer s) = answer := by
  cases answer <;> rfl

@[simp] theorem stateOf_endWith (answer : Except ε α) (s : σ) : stateOf (endWith answer s) = s := by
  cases answer <;> rfl

/-- The same answer from another state. -/
def mapState (f : σ → σ') : EStateM.Result ε σ α → EStateM.Result ε σ' α
  | .ok a s => .ok a (f s)
  | .error e s => .error e (f s)

end

section

variable {ε σ α β : Type} {m : EStateM ε σ α} {s : σ} {P Q : α → σ → Prop} {E F : ε → σ → Prop}

/-- From `s` the computation answers as `P` says, or fails as `E` says. -/
def Meets (m : EStateM ε σ α) (s : σ) (P : α → σ → Prop) (E : ε → σ → Prop) : Prop :=
  match m s with
  | .ok a s' => P a s'
  | .error e s' => E e s'

namespace Meets

theorem of_ok {a : α} {s' : σ} (h : m s = .ok a s') (hp : P a s') : Meets m s P E := by
  rw [Meets, h]
  exact hp

theorem of_error {e : ε} {s' : σ} (h : m s = .error e s') (he : E e s') : Meets m s P E := by
  rw [Meets, h]
  exact he

theorem ok {a : α} {s' : σ} (h : Meets m s P E) (hm : m s = .ok a s') : P a s' := by
  rw [Meets, hm] at h
  exact h

theorem error {e : ε} {s' : σ} (h : Meets m s P E) (hm : m s = .error e s') : E e s' := by
  rw [Meets, hm] at h
  exact h

theorem mono (h : Meets m s P E) (hp : ∀ a s', P a s' → Q a s') (he : ∀ e s', E e s' → F e s') :
    Meets m s Q F := by
  cases hm : m s with
  | ok a s' => exact of_ok hm (hp a s' (h.ok hm))
  | error e s' => exact of_error hm (he e s' (h.error hm))

theorem pure {a : α} (h : P a s) : Meets (pure a) s P E := h

theorem throw {e : ε} (h : E e s) : Meets (throw e : EStateM ε σ α) s P E := h

theorem modify {f : σ → σ} {P : PUnit → σ → Prop} (h : P ⟨⟩ (f s)) :
    Meets (modify f : EStateM ε σ PUnit) s P E := h

theorem bind {f : α → EStateM ε σ β} {P' : β → σ → Prop} (h : Meets m s P E)
    (hf : ∀ a s', P a s' → Meets (f a) s' P' E) : Meets (m >>= f) s P' E := by
  cases hm : m s with
  | ok a s' =>
    rw [Meets, bind_of_ok hm]
    exact hf a s' (h.ok hm)
  | error e s' => exact of_error (bind_of_error hm f) (h.error hm)

theorem get_bind {f : σ → EStateM ε σ β} {P' : β → σ → Prop} (h : Meets (f s) s P' E) :
    Meets (get >>= f) s P' E := h

end Meets

end

end BandedPage
