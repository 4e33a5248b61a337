import Mathlib
import BandedPage.Proofs.Bits.Basic
import BandedPage.Proofs.Computation

/-!
# Looking before reading

A guarded computation asks whether a place is there before it reads or writes it, and stops with
`Fault.outside` where it is not. Where all places are there it does what the plain computation does.
-/

namespace BandedPage

/-- Why a guarded computation stops. -/
inductive Fault where
  /-- A place was asked for that is not there. -/
  | outside
  /-- What is computed is refused. -/
  | failed (e : Error)
  deriving Repr

/-- A computation that asks for no place. -/
def unguarded {σ α : Type} (m : EStateM Error σ α) : EStateM Fault σ α := fun s =>
  match m s with
  | .ok a s => .ok a s
  | .error e s => .error (.failed e) s

def found {σ α : Type} : Option α → EStateM Fault σ α
  | some a => pure a
  | none => throw .outside

/-- Go on if the place is there. -/
def demand {σ : Type} (inside : Prop) [Decidable inside] : EStateM Fault σ Unit :=
  if inside then pure () else throw .outside

section

variable {σ α β : Type} {m : EStateM Error σ α} {s s' : σ}

theorem unguarded_of_ok {a : α} (h : m s = .ok a s') : unguarded m s = .ok a s' := by
  rw [unguarded, h]

theorem unguarded_of_error {e : Error} (h : m s = .error e s') :
    unguarded m s = .error (.failed e) s' := by
  rw [unguarded, h]

/-- A guarded computation agrees with the plain one if its first step does, and then the rest. -/
theorem bind_eq_unguarded {c : EStateM Fault σ α} {f : α → EStateM Fault σ β}
    {g : α → EStateM Error σ β} (hm : c s = unguarded m s)
    (hf : ∀ a s', m s = .ok a s' → f a s' = unguarded (g a) s') :
    (c >>= f) s = unguarded (m >>= g) s := by
  cases h : m s with
  | ok a s' =>
    rw [bind_of_ok (hm.trans (unguarded_of_ok h)), hf a s' h, unguarded, unguarded, bind_of_ok h]
  | error e s' =>
    rw [bind_of_error (hm.trans (unguarded_of_error h)), unguarded_of_error (bind_of_error h g)]

/-- Steps that find what they look for, one after another. -/
theorem foldlM_eq_some {P : β → Prop} {f? : β → α → Option β} {f : β → α → β} {l : List α}
    (h : ∀ b, P b → ∀ a ∈ l, f? b a = some (f b a) ∧ P (f b a)) {b : β} (hb : P b) :
    l.foldlM f? b = some (l.foldl f b) ∧ P (l.foldl f b) := by
  induction l generalizing b with
  | nil => exact ⟨rfl, hb⟩
  | cons a l ih =>
    obtain ⟨hstep, hb'⟩ := h b hb a List.mem_cons_self
    have hrest := ih (fun b hb a' ha' => h b hb a' (List.mem_cons_of_mem a ha')) hb'
    rw [List.foldlM_cons, hstep]
    exact hrest

end

/-! ### Bits in bytes -/

namespace Bits

def slice? (data : Bytes) (first stop : Nat) : Option Bytes :=
  if first ≤ stop ∧ stop ≤ data.size then some (data.extract first stop) else none

def get? (data : Bytes) (i : Nat) : Option Bool := data[i / 8]?.map fun b => b &&& maskOf i != 0

/-- The number whose bits are the `n` ones from `start` on, read one after another. -/
def value? (data : Bytes) (start : Nat) : Nat → Option Nat
  | 0 => some 0
  | n + 1 => do
    let high ← value? data start n
    let low ← get? data (start + n)
    return high * 2 + low.toNat

variable {data : Bytes}

@[simp] theorem slice?_eq {first stop : Nat} (h : first ≤ stop) (h' : stop ≤ data.size) :
    slice? data first stop = some (data.extract first stop) := if_pos ⟨h, h'⟩

@[simp] theorem get?_eq {i : Nat} (h : i < data.size * 8) : get? data i = some (get data i) := by
  have hi : i / 8 < data.size := by omega
  rw [get?, get, Array.getElem?_eq_getElem hi]
  rfl

theorem value?_eq {start n : Nat} (h : start + n ≤ data.size * 8) :
    value? data start n = some (value data start n) := by
  induction n with
  | zero => rfl
  | succ n ih =>
    rw [value?, ih (by omega), get?_eq (by omega)]
    rfl

/-- The number whose bits are the `n` ones from `start` on in the row that begins at byte
`first`. -/
def rowValue? (data : Bytes) (first start n : Nat) : Option Nat := do
  let row ← slice? data first data.size
  value? row start n

/-- Bits of a row are found if the bytes that hold them are there. -/
theorem rowValue?_eq {first start n : Nat} (h : first * 8 + start + n ≤ data.size * 8) :
    rowValue? data first start n = some (value data (first * 8 + start) n) := by
  have hsize : (data.extract first data.size).size = data.size - first := by
    rw [Array.size_extract, Nat.min_self]
  rw [rowValue?, slice?_eq (by omega) (le_refl _), ← value_extract_size]
  exact value?_eq (by omega)

end Bits

end BandedPage
