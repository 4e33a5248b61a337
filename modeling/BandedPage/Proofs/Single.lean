import Mathlib
import BandedPage.Single

/-!
# Equal numbers

Equality of numbers ignores the sign of zero and fails for a NaN. `Same` also lets one NaN stand for
another, so that it is an equivalence. Equal numbers other than zero have the same bits: a number that
is sent by saying which other one it equals can lose no more than the sign of a zero.
-/

namespace BandedPage.Single

theorem beq_iff {a b : Single} : (a == b) = true ↔
    a.isNaN = false ∧ b.isNaN = false ∧ (a = b ∨ (a.isZero = true ∧ b.isZero = true)) := by
  have hbits : a.bits = b.bits ↔ a = b := by
    cases a
    cases b
    simp
  show ieeeEq a b = true ↔ _
  simp [ieeeEq, hbits, and_assoc]

theorem isNaN_of_isZero {a : Single} (h : a.isZero = true) : a.isNaN = false := by
  rw [isZero, beq_iff_eq] at h
  rw [isNaN, h]
  rfl

theorem beq_comm' {a b : Single} (h : (a == b) = true) : (b == a) = true := by
  rw [beq_iff] at h ⊢
  obtain ⟨ha, hb, heq⟩ := h
  exact ⟨hb, ha, heq.imp Eq.symm And.symm⟩

theorem beq_trans {a b c : Single} (h : (a == b) = true) (h' : (b == c) = true) :
    (a == c) = true := by
  rw [beq_iff] at h h' ⊢
  obtain ⟨ha, -, hab⟩ := h
  obtain ⟨-, hc, hbc⟩ := h'
  refine ⟨ha, hc, ?_⟩
  rcases hab with rfl | ⟨hza, hzb⟩
  · exact hbc
  · rcases hbc with rfl | ⟨-, hzc⟩
    · exact .inr ⟨hza, hzb⟩
    · exact .inr ⟨hza, hzc⟩

/-- The zero whose sign is set. -/
def negZero : Single := ⟨0x80000000⟩

theorem isZero_iff {a : Single} : a.isZero = true ↔ a = zero ∨ a = negZero := by
  constructor
  · intro hzero
    obtain ⟨bits⟩ := a
    have hmagnitude : bits &&& 0x7fffffff = 0 := by simpa [isZero, magnitude] using hzero
    have hlow : bits.toNat % 2 ^ 31 = 0 := by
      rw [← Nat.and_two_pow_sub_one_eq_mod]
      exact congrArg UInt32.toNat hmagnitude
    have hlt := bits.toNat_lt
    have hcases : bits.toNat = 0 ∨ bits.toNat = 2147483648 := by omega
    exact hcases.imp (fun h => congrArg mk (UInt32.toNat_inj.mp h))
      fun h => congrArg mk (UInt32.toNat_inj.mp h)
  · rintro (rfl | rfl) <;> rfl

@[simp] theorem magnitude_neg (a : Single) : (-a).magnitude = a.magnitude := by
  have hmask : (0x80000000 : UInt32).toNat &&& (0x7fffffff : UInt32).toNat = 0 := rfl
  show (a.bits ^^^ 0x80000000) &&& 0x7fffffff = a.bits &&& 0x7fffffff
  rw [← UInt32.toNat_inj, UInt32.toNat_and, UInt32.toNat_xor, Nat.and_xor_distrib_right, hmask,
    Nat.xor_zero, UInt32.toNat_and]

@[simp] theorem isZero_neg (a : Single) : (-a).isZero = a.isZero := by
  simp [isZero]

/-- The same number, or both not a number. -/
def Same (a b : Single) : Prop := (a == b) = true ∨ (a.isNaN = true ∧ b.isNaN = true)

namespace Same

theorem refl (a : Single) : a.Same a := by
  by_cases hnan : a.isNaN = true
  · exact .inr ⟨hnan, hnan⟩
  · refine .inl (beq_iff.mpr ?_)
    exact ⟨by simpa using hnan, by simpa using hnan, .inl rfl⟩

theorem symm {a b : Single} (h : a.Same b) : b.Same a := h.imp beq_comm' And.symm

theorem trans {a b c : Single} (h : a.Same b) (h' : b.Same c) : a.Same c := by
  rcases h with heq | ⟨ha, hb⟩
  · rcases h' with heq' | ⟨hb', -⟩
    · exact .inl (beq_trans heq heq')
    · rw [(beq_iff.mp heq).2.1] at hb'
      cases hb'
  · rcases h' with heq' | ⟨-, hc⟩
    · rw [(beq_iff.mp heq').1] at hb
      cases hb
    · exact .inr ⟨ha, hc⟩

theorem of_isZero {a b : Single} (ha : a.isZero = true) (hb : b.isZero = true) : a.Same b :=
  .inl (beq_iff.mpr ⟨isNaN_of_isZero ha, isNaN_of_isZero hb, .inr ⟨ha, hb⟩⟩)

end Same

/-- `a` may be what is read back for `b`: it has the same bits, or the sign of a zero was lost. -/
def ReadFrom (a b : Single) : Prop := a = b ∨ (a = zero ∧ b = negZero)

namespace ReadFrom

theorem refl (a : Single) : a.ReadFrom a := .inl rfl

theorem of_isZero {a : Single} (h : a.isZero = true) : zero.ReadFrom a :=
  (isZero_iff.mp h).imp Eq.symm fun hneg => ⟨rfl, hneg⟩

theorem same {a b : Single} (h : a.ReadFrom b) : a.Same b := by
  rcases h with rfl | ⟨rfl, rfl⟩
  · exact .refl a
  · exact .of_isZero rfl rfl

end ReadFrom

/-- The same bits, or two zeros: the sign of a zero is all that may differ. -/
def EqOrZeros (a b : Single) : Prop := a = b ∨ (a.isZero = true ∧ b.isZero = true)

namespace EqOrZeros

theorem refl (a : Single) : a.EqOrZeros a := .inl rfl

theorem symm {a b : Single} (h : a.EqOrZeros b) : b.EqOrZeros a := h.imp Eq.symm And.symm

theorem of_beq {a b : Single} (h : (a == b) = true) : a.EqOrZeros b := (beq_iff.mp h).2.2

end EqOrZeros

theorem ReadFrom.eqOrZeros {a b : Single} (h : a.ReadFrom b) : a.EqOrZeros b := by
  rcases h with rfl | ⟨rfl, rfl⟩
  · exact .refl a
  · exact .inr ⟨rfl, rfl⟩

end BandedPage.Single
