import Mathlib
import BandedPage.Word

/-!
# Reading words back

The byte orders and the two readings of a pattern undo each other on values that fit.
-/

namespace BandedPage.Word

/-- What holds of all numbers below a bound holds of the bytes below it. -/
theorem forall_byte_lt {P : UInt8 → Prop} {m : Nat} (h : ∀ k < m, P (UInt8.ofNat k)) {b : UInt8}
    (hb : b.toNat < m) : P b := by
  have := h b.toNat hb
  rwa [UInt8.ofNat_toNat] at this

theorem pattern_lt (width : Nat) (x : Int) : pattern width x < 1 <<< width := by
  have hpos : (0 : Int) < ((1 <<< width : Nat) : Int) := by
    rw [Nat.one_shiftLeft]
    positivity
  have := Int.emod_lt_of_pos x hpos
  have := Int.emod_nonneg x hpos.ne'
  rw [pattern]
  omega

theorem pattern32_lt (x : Int) : pattern32 x < 4294967296 := pattern_lt 32 x

@[simp] theorem pattern32_natCast {n : Nat} (h : n < 4294967296) : pattern32 n = n := by
  simp only [pattern32, pattern, Nat.one_shiftLeft]
  norm_num
  omega

theorem fits32_iff {x : Int} : fits32 x = true ↔ -2147483648 ≤ x ∧ x < 2147483648 := by
  simp [fits32]

/-- The pattern of a 32-bit value stands for that value. -/
@[simp] theorem wrap32_pattern32 (x : Int) : wrap32 (pattern32 x) = wrap32 x := by
  simp only [wrap32_eq_bmod, pattern32, pattern, Nat.one_shiftLeft]
  rw [Int.toNat_of_nonneg (Int.emod_nonneg _ (by norm_num))]
  exact Int.emod_bmod x 4294967296

@[simp]
theorem wrap32_pattern32_of_fits32 {x : Int} (h : fits32 x = true) : wrap32 (pattern32 x) = x := by
  simp [wrap32_of_fits32 h]

@[simp] theorem wrap32_natCast {n : Nat} (h : n < 2147483648) : wrap32 n = n :=
  wrap32_of_fits32 (fits32_iff.mpr (by omega))

theorem wrap32_natCast_le (n : Nat) : wrap32 n ≤ n := by
  rw [wrap32_eq_bmod, Int.bmod_def]
  omega

/-- A number that is sent as its distance from another is read back. -/
@[simp] theorem wrap32_sub_wrap32 (a b : Int) : wrap32 (a - wrap32 (a - b)) = wrap32 b := by
  rw [wrap32_eq_bmod, wrap32_eq_bmod, wrap32_eq_bmod]
  simp only [Int.bmod_def]
  omega

@[simp]
theorem ofLittleEndian_littleEndian (n v : Nat) : ofLittleEndian (littleEndian n v) = v % 256 ^ n := by
  induction n generalizing v with
  | zero => simp [littleEndian, ofLittleEndian, Nat.mod_one]
  | succ n ih =>
    have hbyte : (UInt8.ofNat v).toNat = v % 256 := UInt8.toNat_ofNat'
    rw [littleEndian, ofLittleEndian, ih, hbyte, pow_succ', Nat.mod_mul]

@[simp] theorem ofLittleEndian_littleEndian_of_lt {n v : Nat} (h : v < 256 ^ n) :
    ofLittleEndian (littleEndian n v) = v := by
  simp [Nat.mod_eq_of_lt h]

theorem signed64_eq_bmod (x : Int) : signed 64 x = x.bmod 18446744073709551616 := by
  simp only [signed, fits, Bool.and_eq_true, decide_eq_true_eq, Int.bmod_def, Nat.one_shiftLeft]
  omega

theorem natCast_pattern64 (x : Int) : (pattern 64 x : Int) = x % 18446744073709551616 := by
  simp only [pattern, Nat.one_shiftLeft]
  exact Int.toNat_of_nonneg (Int.emod_nonneg _ (by norm_num))

/-- A position is read back from the signed number that stands for it. -/
theorem pattern64_signed64 {n : Nat} (h : n < 18446744073709551616) :
    pattern 64 (signed 64 n) = n := by
  have hpattern := natCast_pattern64 (signed 64 n)
  rw [signed64_eq_bmod, Int.bmod_def] at hpattern
  rw [signed64_eq_bmod, Int.bmod_def]
  omega

/-- The pattern of a signed number stands for that number. -/
theorem signed64_pattern64 {x : Int} (hlo : -9223372036854775808 ≤ x)
    (hhi : x < 9223372036854775808) : signed 64 (pattern 64 x) = x := by
  rw [natCast_pattern64, signed64_eq_bmod, Int.bmod_def]
  omega

theorem foldl_bigEndian (n v start : Nat) :
    (bigEndian n v).foldl (fun v b => v * 256 + b.toNat) start = start * 256 ^ n + v % 256 ^ n := by
  induction n generalizing start with
  | zero => simp [bigEndian, Nat.mod_one]
  | succ n ih =>
    have hbyte : (UInt8.ofNat (v >>> (8 * n))).toNat = v / 256 ^ n % 256 := by
      rw [UInt8.toNat_ofNat', Nat.shiftRight_eq_div_pow, pow_mul]
      rfl
    have hmod : v % 256 ^ (n + 1) = v % 256 ^ n + 256 ^ n * (v / 256 ^ n % 256) := by
      rw [pow_succ, Nat.mod_mul]
    rw [bigEndian, List.foldl_cons, ih, hbyte, hmod]
    ring

@[simp] theorem ofBigEndian_bigEndian (n v : Nat) :
    ofBigEndian (bigEndian n v) = v % 256 ^ n := by
  rw [ofBigEndian, foldl_bigEndian, Nat.zero_mul, Nat.zero_add]

/-- What was written from its highest bytes down is read back from its highest byte. -/
theorem head_bigEndian {n v : Nat} (h : v < 256 ^ (n + 1)) :
    ∃ b rest, bigEndian (n + 1) v = b :: rest ∧ rest.length = n ∧ b.toNat = v / 256 ^ n := by
  refine ⟨_, _, rfl, length_bigEndian n v, ?_⟩
  have hdiv : v / 256 ^ n < 256 := by
    rw [Nat.div_lt_iff_lt_mul (by positivity), ← pow_succ']
    exact h
  rw [UInt8.toNat_ofNat', Nat.shiftRight_eq_div_pow, pow_mul]
  exact Nat.mod_eq_of_lt hdiv

theorem pattern_cast (width : Nat) (x : Int) : (pattern width x : Int) = x % (2 ^ width : Nat) := by
  have hpos : (0 : Int) < ((2 ^ width : Nat) : Int) := by positivity
  rw [pattern, Nat.one_shiftLeft]
  exact Int.toNat_of_nonneg (Int.emod_nonneg x hpos.ne')

/-- A signed value of some bits is told by those bits. -/
theorem signed_eq_of_emod_eq {width : Nat} {x y : Int} (hx : fits (width + 1) x = true)
    (h : y % (2 ^ (width + 1) : Nat) = x % (2 ^ (width + 1) : Nat)) : signed (width + 1) y = x := by
  have hpow : ((2 ^ (width + 1) : Nat) : Int) = 2 * (2 ^ width : Nat) := by
    push_cast
    ring
  simp only [signed, fits, Nat.add_sub_cancel, Nat.one_shiftLeft, Bool.and_eq_true,
    decide_eq_true_eq] at hx ⊢
  have hpos : (0 : Int) < ((2 ^ width : Nat) : Int) := by positivity
  rw [hpow] at h
  rw [Int.bmod_def, hpow, h]
  generalize ((2 ^ width : Nat) : Int) = p at hx h hpos ⊢
  obtain ⟨hlt, hle⟩ := hx
  have hy := Int.emod_add_mul_ediv y (2 * p)
  have hmod : x % (2 * p) = if 0 ≤ x then x else x + 2 * p := by
    split
    · exact Int.emod_eq_of_lt ‹_› (by omega)
    · rw [← Int.add_emod_right, Int.emod_eq_of_lt (by omega) (by omega)]
  rw [h, hmod] at hy
  rw [hmod]
  split
  · next hfits =>
    obtain ⟨hylt, hyle⟩ := hfits
    split at hy
    · have : y / (2 * p) = 0 := by
        rcases lt_trichotomy (y / (2 * p)) 0 with hq | hq | hq
        · nlinarith
        · exact hq
        · nlinarith
      rw [this] at hy
      omega
    · have : y / (2 * p) = -1 := by
        rcases lt_trichotomy (y / (2 * p)) (-1) with hq | hq | hq
        · nlinarith
        · exact hq
        · nlinarith
      rw [this] at hy
      omega
  · split
    · rw [if_pos (by omega)]
    · rw [if_neg (by omega)]
      omega

/-- Bits above the value make no difference. -/
theorem signed_add_pattern {width : Nat} {x : Int} (hx : fits (width + 1) x = true) (k : Nat) :
    signed (width + 1) ((k * 2 ^ (width + 1) + pattern (width + 1) x : Nat) : Int) = x := by
  apply signed_eq_of_emod_eq hx
  push_cast
  rw [pattern_cast]
  push_cast
  rw [Int.add_emod, Int.mul_emod_left, Int.zero_add, Int.emod_emod, Int.emod_emod]

end BandedPage.Word
