import Mathlib
import BandedPage.Operand.Offset
import BandedPage.Proofs.Operand.Number

/-!
# Reading path offsets back

Every list of 32-bit offsets is read back from its bytes. The first bits of each form tell it from
the others, and the bits behind them are the offset's own.
-/

namespace BandedPage.Offset

variable {σ : Type} [ByteSource σ] [LawfulSource σ]

/-- A number of some bits under the tag `k`, from the highest byte down. The first byte has the tag
above bits of `m` values, which are the number's highest. -/
theorem exists_tagged {width : Nat} {d : Int} (n tag k m : Nat)
    (hd : Word.fits (width + 1) d = true) (htag : tag = k * 2 ^ (width + 1))
    (hwidth : 2 ^ (width + 1) = m * 256 ^ n) (hk : (k + 1) * m ≤ 256) :
    ∃ b rest, Word.bigEndian (n + 1) (tag + Word.pattern (width + 1) d) = b :: rest ∧
      rest.length = n ∧ k * m ≤ b.toNat ∧ b.toNat < (k + 1) * m ∧
      Word.signed (width + 1) (Word.ofBigEndian (b :: rest) : Nat) = d := by
  subst htag
  have hp := Word.pattern_lt (width + 1) d
  rw [Nat.one_shiftLeft] at hp
  have hlo : k * m * 256 ^ n ≤ k * 2 ^ (width + 1) + Word.pattern (width + 1) d := by
    rw [Nat.mul_assoc, ← hwidth]
    exact Nat.le_add_right _ _
  have hhi : k * 2 ^ (width + 1) + Word.pattern (width + 1) d < (k + 1) * m * 256 ^ n := by
    rw [Nat.mul_assoc, ← hwidth, Nat.add_one_mul]
    exact Nat.add_lt_add_left hp _
  have hv : k * 2 ^ (width + 1) + Word.pattern (width + 1) d < 256 ^ (n + 1) :=
    calc _ < (k + 1) * m * 256 ^ n := hhi
      _ ≤ 256 * 256 ^ n := Nat.mul_le_mul_right _ hk
      _ = 256 ^ (n + 1) := (pow_succ' 256 n).symm
  have hpos : 0 < 256 ^ n := Nat.pow_pos (by norm_num)
  obtain ⟨b, rest, heq, hlength, hb⟩ := Word.head_bigEndian hv
  refine ⟨b, rest, heq, hlength, ?_, ?_, ?_⟩
  · rw [hb]
    exact (Nat.le_div_iff_mul_le hpos).mpr hlo
  · rw [hb]
    exact (Nat.div_lt_iff_lt_mul hpos).mpr hhi
  · rw [← heq, Word.ofBigEndian_bigEndian, Nat.mod_eq_of_lt hv]
    exact Word.signed_add_pattern hd k

/-- The byte does not begin a pair, and with the bytes behind it stands for `d`. -/
def BeginsAlone (b : UInt8) (rest : List UInt8) (d : Fixed) : Prop :=
  0x40 ≤ b ∧ ∀ {σ : Type} [ByteSource σ] [LawfulSource σ],
    Decodes (decodeAlone b : Decoder σ Fixed) rest d

theorem exists_quarter {d : Fixed} (h : isQuarter d = true) :
    ∃ b rest, encodeQuarter d = b :: rest ∧ BeginsAlone b rest d := by
  simp only [isQuarter, Bool.and_eq_true, beq_iff_eq] at h
  obtain ⟨hfits, hmod⟩ := h
  have hquarter : Word.fits 13 (d / 64) = true := by
    simp only [Word.fits, Bool.and_eq_true, decide_eq_true_eq, Nat.one_shiftLeft] at hfits ⊢
    norm_num at hfits ⊢
    omega
  obtain ⟨b, rest, heq, hlength, hlo, hhi, hsigned⟩ :=
    exists_tagged 1 0xc000 6 32 hquarter (by norm_num) (by norm_num) (by norm_num)
  refine ⟨b, rest, heq, UInt8.le_iff_toNat_le.mpr (show 64 ≤ _ by omega), fun {σ} _ _ => ?_⟩
  rw [decodeAlone, if_neg (by omega), if_neg (by omega), if_pos (by omega)]
  have hread := (Decodes.nextBytes_of_length (σ := σ) hlength).bind_pure
    (f := fun rest => Word.signed 13 (Word.ofBigEndian (b :: rest)) * 64)
  have hwhole : d / 64 * 64 = d := Int.ediv_mul_cancel (Int.dvd_of_emod_eq_zero hmod)
  rwa [hsigned, hwhole] at hread

theorem exists_alone {d : Fixed} (h : Word.fits32 d = true) :
    ∃ b rest, encodeAlone d = b :: rest ∧ BeginsAlone b rest d := by
  rw [encodeAlone]
  split
  · next h22 =>
    obtain ⟨b, rest, heq, hlength, hlo, hhi, hsigned⟩ :=
      exists_tagged 2 0x400000 1 64 h22 (by norm_num) (by norm_num) (by norm_num)
    refine ⟨b, rest, heq, UInt8.le_iff_toNat_le.mpr (show 64 ≤ _ by omega), fun {σ} _ _ => ?_⟩
    rw [decodeAlone, if_pos (by omega)]
    have hread := (Decodes.nextBytes_of_length (σ := σ) hlength).bind_pure
      (f := fun rest => Word.signed 22 (Word.ofBigEndian (b :: rest)))
    rwa [hsigned] at hread
  split
  · next h30 =>
    obtain ⟨b, rest, heq, hlength, hlo, hhi, hsigned⟩ :=
      exists_tagged 3 0x80000000 2 64 h30 (by norm_num) (by norm_num) (by norm_num)
    refine ⟨b, rest, heq, UInt8.le_iff_toNat_le.mpr (show 64 ≤ _ by omega), fun {σ} _ _ => ?_⟩
    rw [decodeAlone, if_neg (by omega), if_pos (by omega)]
    have hread := (Decodes.nextBytes_of_length (σ := σ) hlength).bind_pure
      (f := fun rest => Word.signed 30 (Word.ofBigEndian (b :: rest)))
    rwa [hsigned] at hread
  · refine ⟨_, _, rfl, by decide, fun {σ} _ _ => ?_⟩
    have hfirst : (0xe0 : UInt8).toNat = 224 := rfl
    rw [decodeAlone, hfirst, if_neg (by omega), if_neg (by omega), if_neg (by omega)]
    have := (Decodes.take (σ := σ) (Word.length_bigEndian 4 (Word.pattern32 d))).bind_pure
      (f := fun bytes => Word.wrap32 (Word.ofBigEndian bytes))
    rwa [Word.ofBigEndian_bigEndian, Nat.mod_eq_of_lt (by exact Word.pattern32_lt d),
      Word.wrap32_pattern32_of_fits32 h] at this

/-- Two offsets of 19 bits begin with a byte that begins nothing else. -/
theorem exists_pair {d e : Fixed} (hd : Word.fits 19 d = true) (he : Word.fits 19 e = true) :
    ∃ b rest, encodePair d e = b :: rest ∧ b < 0x40 ∧ rest.length = 4 ∧
      Word.signed 19 (Word.ofBigEndian (b :: rest) >>> 19 : Nat) = d ∧
      Word.signed 19 (Word.ofBigEndian (b :: rest) : Nat) = e := by
  have hpd : Word.pattern 19 d < 524288 := Word.pattern_lt 19 d
  have hpe : Word.pattern 19 e < 524288 := Word.pattern_lt 19 e
  have hshift : (Word.pattern 19 d <<< 19) + Word.pattern 19 e =
      Word.pattern 19 d * 2 ^ 19 + Word.pattern 19 e := by
    rw [Nat.shiftLeft_eq]
  have hv : Word.pattern 19 d * 2 ^ 19 + Word.pattern 19 e < 274877906944 := by
    norm_num
    omega
  obtain ⟨b, rest, heq, hlen, hb⟩ := Word.head_bigEndian (n := 4)
    (v := (Word.pattern 19 d <<< 19) + Word.pattern 19 e) (by rw [hshift]; norm_num; omega)
  have hword : Word.ofBigEndian (b :: rest) =
      (Word.pattern 19 d <<< 19) + Word.pattern 19 e := by
    rw [← heq, Word.ofBigEndian_bigEndian, Nat.mod_eq_of_lt (by rw [hshift]; norm_num; omega)]
  refine ⟨b, rest, heq, ?_, hlen, ?_, ?_⟩
  · apply UInt8.lt_iff_toNat_lt.mpr
    rw [hb, hshift]
    show _ < 64
    norm_num
    omega
  · have hhigh : (Word.pattern 19 d * 2 ^ 19 + Word.pattern 19 e) >>> 19 = Word.pattern 19 d := by
      rw [Nat.shiftRight_eq_div_pow]
      omega
    have := Word.signed_add_pattern hd 0
    rwa [Nat.zero_mul, Nat.zero_add, ← hhigh, ← hshift, ← hword] at this
  · rw [hword, hshift]
    exact Word.signed_add_pattern he _

/-- An offset alone is followed by the others. -/
theorem BeginsAlone.decodes {b : UInt8} {rest : List UInt8} {d : Fixed} (h : BeginsAlone b rest d)
    {n : Nat} {bytes : List UInt8} {offsets : List Fixed}
    (htail : Decodes (decode (n + 1) : Decoder σ (List Fixed)) bytes offsets) :
    Decodes (decode (n + 2) : Decoder σ (List Fixed)) (b :: rest ++ bytes) (d :: offsets) := by
  rw [decode]
  refine (Decodes.nextByte b).bind (l := rest ++ bytes) ?_
  rw [if_neg (UInt8.not_lt.mpr h.1)]
  exact h.2.bind (htail.bind_pure (f := (d :: ·)))

/-- An offset alone can be the last one. -/
theorem BeginsAlone.decodes_last {b : UInt8} {rest : List UInt8} {d : Fixed}
    (h : BeginsAlone b rest d) :
    Decodes (decode 1 : Decoder σ (List Fixed)) (b :: rest) [d] := by
  rw [decode]
  refine (Decodes.nextByte b).bind (l := rest) ?_
  rw [if_neg (UInt8.not_lt.mpr h.1)]
  exact h.2.bind_pure (f := ([·]))

theorem decodes_encode (offsets : List Fixed) (h : ∀ d ∈ offsets, Word.fits32 d = true) :
    Decodes (decode offsets.length : Decoder σ (List Fixed)) (encode offsets) offsets := by
  fun_induction encode offsets with
  | case1 => exact Decodes.pure []
  | case2 d hquarter =>
    obtain ⟨b, rest, heq, hb⟩ := exists_quarter hquarter
    rw [heq]
    exact hb.decodes_last
  | case3 d hquarter =>
    obtain ⟨b, rest, heq, hb⟩ := exists_alone (h d List.mem_cons_self)
    rw [heq]
    exact hb.decodes_last
  | case4 d e tail hquarter ih =>
    obtain ⟨b, rest, heq, hb⟩ := exists_quarter hquarter
    rw [heq]
    exact hb.decodes (ih fun x hx => h x (List.mem_cons_of_mem d hx))
  | case5 d e tail hquarter hpair ih =>
    obtain ⟨hd, he⟩ := Bool.and_eq_true_iff.mp hpair
    obtain ⟨b, rest, heq, hb, hlen, hsd, hse⟩ := exists_pair hd he
    rw [heq, List.length_cons, List.length_cons, decode]
    refine (Decodes.nextByte b).bind (l := rest ++ encode tail) ?_
    rw [if_pos hb]
    refine (Decodes.nextBytes_of_length hlen).bind ?_
    generalize Word.ofBigEndian (b :: rest) = pair at hsd hse ⊢
    dsimp only
    rw [hsd, hse]
    exact (ih fun x hx => h x (List.mem_cons_of_mem d (List.mem_cons_of_mem e hx))).bind_pure
      (f := fun tail => d :: e :: tail)
  | case6 d e tail hquarter hpair ih =>
    obtain ⟨b, rest, heq, hb⟩ := exists_alone (h d List.mem_cons_self)
    rw [heq]
    exact hb.decodes (ih fun x hx => h x (List.mem_cons_of_mem d hx))

@[simp] theorem inPlaces_getElem (offsets : List Fixed) {i : Nat} (hi : i < 6) :
    (inPlaces offsets)[i] = offsets.getD i 0 := by
  simp [inPlaces]

/-- The operands of a segment command are read back in their places, whatever follows them, and the
places behind them hold zero. -/
theorem offsets_are_read_back {offsets : List Fixed} (hlength : offsets.length ≤ 6)
    (hfits : ∀ d ∈ offsets, Word.fits32 d = true) :
    ∃ places : Vector Fixed 6,
      Decodes (decodePlaces offsets.length : Decoder σ (Vector Fixed 6)) (encode offsets) places ∧
        (∀ (i : Nat) (hi : i < offsets.length), places[i] = offsets[i]) ∧
        ∀ (i : Nat) (hi : i < 6), offsets.length ≤ i → places[i] = 0 := by
  refine ⟨inPlaces offsets, (decodes_encode offsets hfits).bind_pure (f := inPlaces), ?_, ?_⟩
  · intro i hi
    rw [inPlaces_getElem offsets (by omega), List.getD_eq_getElem offsets 0 hi]
  · intro i hi hunused
    rw [inPlaces_getElem offsets hi, List.getD_eq_default offsets 0 hunused]

/-- A quarter multiple, two offsets alone and a pair, which leave the last place unused. -/
theorem five_offsets_are_read_back :
    ([64, -1, -2147483648, 5, -64] : List Fixed).length ≤ 6 ∧
      (∀ d ∈ ([64, -1, -2147483648, 5, -64] : List Fixed), Word.fits32 d = true) ∧
      encode [64, -1, -2147483648, 5, -64] =
        [0xc0, 1, 0x7f, 0xff, 0xff, 0xe0, 0x80, 0, 0, 0, 0, 0, 0x2f, 0xff, 0xc0] ∧
      ∃ places c, decodePlaces 5 (Cursor.ofList
          [0xc0, 1, 0x7f, 0xff, 0xff, 0xe0, 0x80, 0, 0, 0, 0, 0, 0x2f, 0xff, 0xc0, 7]) =
            .ok places c ∧ c.rest = [7] ∧ places[0] = 64 ∧ places[3] = 5 ∧ places[5] = 0 := by
  have hlength : ([64, -1, -2147483648, 5, -64] : List Fixed).length ≤ 6 := by decide
  have hfits : ∀ d ∈ ([64, -1, -2147483648, 5, -64] : List Fixed), Word.fits32 d = true := by decide
  have hbytes : encode [64, -1, -2147483648, 5, -64] =
      [0xc0, 1, 0x7f, 0xff, 0xff, 0xe0, 0x80, 0, 0, 0, 0, 0, 0x2f, 0xff, 0xc0] := by
    decide +kernel
  refine ⟨hlength, hfits, hbytes, ?_⟩
  obtain ⟨places, hread, hused, hunused⟩ := offsets_are_read_back (σ := Cursor) hlength hfits
  rw [hbytes] at hread
  obtain ⟨c, hc, hrest⟩ := hread (Cursor.ofList
    [0xc0, 1, 0x7f, 0xff, 0xff, 0xe0, 0x80, 0, 0, 0, 0, 0, 0x2f, 0xff, 0xc0, 7]) [7] rfl
  exact ⟨places, c, hc, hrest, hused 0 (by decide), hused 3 (by decide),
    hunused 5 (by decide) le_rfl⟩

end BandedPage.Offset
