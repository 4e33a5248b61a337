import Mathlib
import BandedPage.Proofs.Computation
import BandedPage.Span

/-!
# Computations in step

A computation is run from two states that are related. It keeps the relation if it answers the same
from both and ends in related states, whatever the answer is.
-/

namespace BandedPage

variable {ε σ α β : Type} {R Q : σ → σ → Prop} {s s' : σ}

/-- From `s` and `s'` the computations answer the same, and end in related states. -/
def InStep (R : σ → σ → Prop) (m : EStateM ε σ α) (s : σ) (m' : EStateM ε σ α) (s' : σ) : Prop :=
  ∃ t', m' s' = endWith (answerOf (m s)) t' ∧ R (stateOf (m s)) t'

/-- The computation answers the same from related states, and ends in related states. -/
def Lockstep (R : σ → σ → Prop) (m : EStateM ε σ α) : Prop := ∀ s s', R s s' → InStep R m s m s'

namespace InStep

variable {m m' : EStateM ε σ α}

theorem of_ok {a : α} {t t' : σ} (h : m s = .ok a t) (h' : m' s' = .ok a t') (hr : R t t') :
    InStep R m s m' s' := by
  refine ⟨t', ?_, ?_⟩
  · rw [h, h']
    rfl
  · rwa [h]

theorem of_error {e : ε} {t t' : σ} (h : m s = .error e t) (h' : m' s' = .error e t') (hr : R t t') :
    InStep R m s m' s' := by
  refine ⟨t', ?_, ?_⟩
  · rw [h, h']
    rfl
  · rwa [h]

/-- The computations do what others do from other states. -/
theorem of_eq {n n' : EStateM ε σ α} {t t' : σ} (hm : m s = n t) (hm' : m' s' = n' t')
    (h : InStep R n t n' t') : InStep R m s m' s' := by
  rw [InStep, hm, hm']
  exact h

theorem cases (h : InStep R m s m' s') :
    (∃ a t t', m s = .ok a t ∧ m' s' = .ok a t' ∧ R t t') ∨
      ∃ e t t', m s = .error e t ∧ m' s' = .error e t' ∧ R t t' := by
  obtain ⟨t', hm', hr⟩ := h
  cases hm : m s with
  | ok a t =>
    rw [hm] at hm' hr
    exact .inl ⟨a, t, t', rfl, hm', hr⟩
  | error e t =>
    rw [hm] at hm' hr
    exact .inr ⟨e, t, t', rfl, hm', hr⟩

/-- What a success from a state that is related to itself ends in is related to itself. -/
theorem of_ok_self {a : α} {t : σ} (h : InStep R m s m s) (hm : m s = .ok a t) : R t t := by
  obtain ⟨t', hm', hr⟩ := h
  rw [hm] at hm' hr
  cases hm'
  exact hr

theorem mono (h : InStep R m s m' s') (hq : ∀ t t', R t t' → Q t t') : InStep Q m s m' s' := by
  obtain ⟨t', hm', hr⟩ := h
  exact ⟨t', hm', hq _ _ hr⟩

/-- What comes after a first step may rely on a closer relation. -/
theorem bind_mono {f f' : α → EStateM ε σ β} (h : InStep Q m s m' s') (hq : ∀ t t', Q t t' → R t t')
    (hf : ∀ a t t', m s = .ok a t → Q t t' → InStep R (f a) t (f' a) t') :
    InStep R (m >>= f) s (m' >>= f') s' := by
  rcases h.cases with ⟨a, t, t', hm, hm', hr⟩ | ⟨e, t, t', hm, hm', hr⟩
  · obtain ⟨u', hf', hu⟩ := hf a t t' hm hr
    refine ⟨u', ?_, ?_⟩
    · rw [bind_of_ok hm, bind_of_ok hm']
      exact hf'
    · rwa [bind_of_ok hm]
  · exact of_error (bind_of_error hm f) (bind_of_error hm' f') (hq t t' hr)

theorem bind {f f' : α → EStateM ε σ β} (h : InStep R m s m' s')
    (hf : ∀ a t t', m s = .ok a t → R t t' → InStep R (f a) t (f' a) t') :
    InStep R (m >>= f) s (m' >>= f') s' :=
  h.bind_mono (fun _ _ hr => hr) hf

end InStep

namespace Lockstep

theorem pure (a : α) : Lockstep R (pure a : EStateM ε σ α) := fun _ _ h => .of_ok rfl rfl h

theorem throw (e : ε) : Lockstep R (throw e : EStateM ε σ α) := fun _ _ h => .of_error rfl rfl h

theorem lift {R : σ → σ → Prop} (x : Except Error α) :
    Lockstep R (liftM x : EStateM Error σ α) := by
  cases x with
  | ok a => exact .pure a
  | error e => exact .throw e

theorem modify {f : σ → σ} (h : ∀ s s', R s s' → R (f s) (f s')) :
    Lockstep R (modify f : EStateM ε σ PUnit) :=
  fun s s' hr => .of_ok rfl rfl (h s s' hr)

/-- Related states may be looked at. -/
theorem read {f : σ → EStateM ε σ β} (h : ∀ s s', R s s' → InStep R (f s) s (f s') s') :
    Lockstep R (get >>= f) :=
  fun s s' hr => h s s' hr

/-- What is looked at is the same in related states. -/
theorem read_of_eq {f : σ → EStateM ε σ β} (heq : ∀ s s', R s s' → f s' = f s)
    (h : ∀ s, Lockstep R (f s)) : Lockstep R (get >>= f) :=
  read fun s s' hr => heq s s' hr ▸ h s s s' hr

variable {m : EStateM ε σ α} {f : α → EStateM ε σ β}

theorem bind (h : Lockstep R m) (hf : ∀ a, Lockstep R (f a)) : Lockstep R (m >>= f) :=
  fun s s' hr => (h s s' hr).bind fun a t t' _ ht => hf a t t' ht

/-- What comes after a first step may rely on its answer. -/
theorem bind_of_answer (h : Lockstep R m) (hf : ∀ a s t, m s = .ok a t → Lockstep R (f a)) :
    Lockstep R (m >>= f) :=
  fun s s' hr => (h s s' hr).bind fun a t t' hm ht => hf a s t hm t t' ht

/-- A failure may be answered by something else. -/
theorem handle {f : ε → EStateM ε σ α} (h : Lockstep R m) (hf : ∀ e, Lockstep R (f e)) :
    Lockstep R (tryCatch m f) := by
  intro s s' hr
  rcases (h s s' hr).cases with ⟨a, t, t', hm, hm', ht⟩ | ⟨e, t, t', hm, hm', ht⟩
  · have hrun : tryCatch m f s = .ok a t := by rw [tryCatch_run, hm]
    have hrun' : tryCatch m f s' = .ok a t' := by rw [tryCatch_run, hm']
    exact .of_ok hrun hrun' ht
  · obtain ⟨u', hf', hu⟩ := hf e t t' ht
    refine ⟨u', ?_, ?_⟩
    · rw [tryCatch_run, tryCatch_run, hm, hm']
      exact hf'
    · rw [tryCatch_run, hm]
      exact hu

theorem forM {l : List α} {f : α → EStateM ε σ PUnit} (h : ∀ a ∈ l, Lockstep R (f a)) :
    Lockstep R (l.forM f) := by
  induction l with
  | nil => exact pure ()
  | cons a l ih =>
    exact (h a List.mem_cons_self).bind fun _ => ih fun b hb => h b (List.mem_cons_of_mem a hb)

theorem spanForM (period origin lo hi : Int) {R : σ → σ → Prop} {f : Span → EStateM Error σ Unit}
    (h : ∀ span, Lockstep R (f span)) : Lockstep R (Span.forM period origin lo hi f) := by
  rw [Span.forM, Span.foldlM_eq_cut]
  induction Span.cut period origin lo hi with
  | nil => exact pure ()
  | cons span spans ih => exact (h span).bind fun _ => ih

end Lockstep

end BandedPage
