import Mathlib
import BandedPage.Operand.Number
import BandedPage.Proofs.Source.Lawful
import BandedPage.Proofs.Word

/-!
# Reading numbers back

Every number is read back from its bytes, whatever stands behind them, as long as it fits its form.
-/

namespace BandedPage

namespace Varint

@[simp] theorem length_encode (v : Nat) : (encode v).length = size v := by
  induction v using encode.induct with
  | case1 v hlast => rw [encode, size, if_pos hlast, if_pos hlast, List.length_singleton]
  | case2 v hmore ih => rw [encode, size, if_neg hmore, if_neg hmore, List.length_cons, ih]

theorem length_encode_le (k : Nat) {v : Nat} (h : v < 128 ^ (k + 1)) :
    (encode v).length ≤ k + 1 := by
  induction k generalizing v with
  | zero =>
    rw [encode, if_pos (by simpa using h)]
    rfl
  | succ k ih =>
    rw [encode]
    split
    · simp
    · have hdiv : v / 128 < 128 ^ (k + 1) := by
        rw [Nat.div_lt_iff_lt_mul (by norm_num)]
        exact h
      rw [List.length_cons]
      exact Nat.succ_le_succ (ih hdiv)

/-- A value of 32 bits takes at most five bytes. -/
theorem length_encode_le_five {v : Nat} (h : v < 4294967296) : (encode v).length ≤ 5 :=
  length_encode_le 4 (by norm_num; omega)

theorem length_encodeInt_le (v : Int) : (encodeInt v).length ≤ 5 :=
  length_encode_le_five (Word.pattern32_lt v)

end Varint

variable {σ : Type} [ByteSource σ] [LawfulSource σ]

namespace Varint

/-- The groups of `v` are added to what the groups before it gave. -/
theorem decodes_decodeGroups (groups v weight value : Nat) (h : v < 128 ^ groups) (hg : 0 < groups) :
    Decodes (decodeGroups groups weight value : Decoder σ Nat) (encode v)
      ((value + v * weight) % 4294967296) := by
  induction groups generalizing v weight value with
  | zero => omega
  | succ groups ih =>
    rw [decodeGroups, encode]
    by_cases hlast : v < 128
    · have hb : (UInt8.ofNat v).toNat = v := by
        rw [UInt8.toNat_ofNat']
        omega
      rw [if_pos hlast]
      refine (Decodes.nextByte (UInt8.ofNat v)).bind (l := []) ?_
      rw [hb, if_pos hlast, Nat.mod_eq_of_lt hlast]
      exact Decodes.pure _
    · have hb : (UInt8.ofNat (v % 128 + 128)).toNat = v % 128 + 128 := by
        rw [UInt8.toNat_ofNat']
        omega
      have hsum : value + v * weight =
          value + (v % 128 + 128) % 128 * weight + v / 128 * (weight * 128) := by
        have hv : v * weight = (v % 128 + 128 * (v / 128)) * weight := by
          rw [Nat.mod_add_div]
        rw [Nat.add_mod_right, Nat.mod_mod, hv]
        ring
      have hpow : v / 128 < 128 ^ groups := by
        rw [Nat.div_lt_iff_lt_mul (by norm_num), ← pow_succ]
        exact h
      have hpos : 0 < groups := by
        rcases Nat.eq_zero_or_pos groups with hzero | hpos
        · rw [hzero] at h
          omega
        · exact hpos
      rw [if_neg hlast]
      refine (Decodes.nextByte (UInt8.ofNat (v % 128 + 128))).bind (l := encode (v / 128)) ?_
      rw [hb, if_neg (by omega), hsum]
      exact ih (v / 128) _ _ hpow hpos

theorem decodes_mod {v : Nat} (h : v < 34359738368) :
    Decodes (decode : Decoder σ Nat) (encode v) (v % 4294967296) := by
  have := decodes_decodeGroups (σ := σ) 5 v 1 0 h (by norm_num)
  rwa [Nat.zero_add, Nat.mul_one] at this

theorem decodes {v : Nat} (h : v < 4294967296) : Decodes (decode : Decoder σ Nat) (encode v) v := by
  have := decodes_mod (σ := σ) (v := v) (by omega)
  rwa [Nat.mod_eq_of_lt h] at this

theorem decodes_int (v : Int) :
    Decodes (decodeInt : Decoder σ Int) (encodeInt v) (Word.wrap32 v) := by
  have := (decodes (σ := σ) (Word.pattern32_lt v)).bind_pure (f := fun n : Nat => Word.wrap32 n)
  rwa [Word.wrap32_pattern32] at this

theorem decodes_int_of_fits32 {v : Int} (h : Word.fits32 v = true) :
    Decodes (decodeInt : Decoder σ Int) (encodeInt v) v := by
  have := decodes_int (σ := σ) v
  rwa [Word.wrap32_of_fits32 h] at this

end Varint

namespace Operand

theorem decodes_natural (n v : Nat) :
    Decodes (natural n : Decoder σ Nat) (Word.littleEndian n v) (v % 256 ^ n) := by
  have := (Decodes.take (σ := σ) (Word.length_littleEndian n v)).bind_pure
    (f := Word.ofLittleEndian)
  rwa [Word.ofLittleEndian_littleEndian] at this

theorem decodes_natural_of_lt {n v : Nat} (h : v < 256 ^ n) :
    Decodes (natural n : Decoder σ Nat) (Word.littleEndian n v) v := by
  have := decodes_natural (σ := σ) n v
  rwa [Nat.mod_eq_of_lt h] at this

theorem decodes_integer {v : Int} (h : Word.fits32 v = true) :
    Decodes (integer : Decoder σ Int) (ofInteger v) v := by
  have := (decodes_natural_of_lt (σ := σ) (n := 4) (by exact Word.pattern32_lt v)).bind_pure
    (f := fun n : Nat => Word.wrap32 n)
  rwa [Word.wrap32_pattern32_of_fits32 h] at this

theorem decodes_single (a : Single) : Decodes (single : Decoder σ Single) a.toBytes a := by
  have := (Decodes.take (σ := σ) (Word.length_littleEndian 4 a.bits.toNat)).bind_pure
    (f := Single.ofBytes)
  have hbits : Single.ofBytes (Word.littleEndian 4 a.bits.toNat) = a := by
    rw [Single.ofBytes, Word.ofLittleEndian_littleEndian_of_lt (by exact a.bits.toNat_lt),
      UInt32.ofNat_toNat]
  rwa [hbits] at this

/-- Operands of one kind are read back if each of them is. -/
theorem decodes_many {α : Type} {operand : Decoder σ α} {bytes : α → List UInt8} {as : List α}
    (h : ∀ a ∈ as, Decodes operand (bytes a) a) {n : Nat} (hn : as.length = n) :
    Decodes (many operand n) (as.flatMap bytes) as := by
  induction as generalizing n with
  | nil =>
    subst hn
    exact Decodes.pure []
  | cons a as ih =>
    subst hn
    have hrest := ih (fun b hb => h b (List.mem_cons_of_mem _ hb)) rfl
    exact (h a List.mem_cons_self).bind (hrest.bind_pure (f := (a :: ·)))

end Operand

end BandedPage
