import Mathlib
import BandedPage.Command.Basic
import BandedPage.Proofs.Operand.Number
import BandedPage.Replay.Setting

/-!
# Reading the base levels of a colored halftone back

Of each base level the low five bits are sent, and base levels share a byte if none needs more than
one bit of its five. The form is then told by the byte itself, so its bits above those of the four
levels must be free; nothing keeps a level with higher bits from setting them. Where they are free the
low bits are read back, and nowhere else.
-/

namespace BandedPage

open Command

/-- Four base levels of which the reader tells the form. -/
def ReadableBases (bases : List UInt8) : Prop :=
  bases.length = 4 ∧ (hasWideBase bases = true ∨ narrowBases bases < 0x10)

instance (bases : List UInt8) : Decidable (ReadableBases bases) :=
  inferInstanceAs (Decidable (_ ∧ _))

/-- The part of the base levels that is meant. -/
def lowBases (bases : List UInt8) : List UInt8 := bases.map (· &&& 0x1f)

theorem toNat_low (b : UInt8) : (b &&& 0x1f).toNat = b.toNat % 32 := by
  rw [UInt8.toNat_and]
  exact Nat.and_two_pow_sub_one_eq_mod b.toNat 5

/-- Levels of five bits are meant as they are. -/
theorem lowBases_of_lt {bases : List UInt8} (h : ∀ b ∈ bases, b < 32) : lowBases bases = bases := by
  rw [lowBases, List.map_congr_left (g := id), List.map_id]
  intro b hb
  rw [← UInt8.toNat_inj, toNat_low]
  exact Nat.mod_eq_of_lt (UInt8.lt_iff_toNat_lt.mp (h b hb))

/-- A level of five bits without those above the lowest is one bit. -/
theorem level_of_narrow {b : UInt8} (h : b < 32) (hnarrow : b &&& 0x1e = 0) : b = 0 ∨ b = 1 :=
  Word.forall_byte_lt (P := fun b => b &&& 0x1e = 0 → b = 0 ∨ b = 1) (by decide) h hnarrow

/-- The low bits of the shared byte come from the low bits of the levels. -/
theorem narrowBases_low (bases : List UInt8) :
    (narrowBases bases).toNat % 2 ^ 4 = (narrowBases (lowBases bases)).toNat % 2 ^ 4 := by
  have hshift : ∀ w : UInt8, (w <<< 1).toNat % 2 ^ 4 = w.toNat % 2 ^ 4 * 2 % 2 ^ 4 := by
    intro w
    have hdouble : (w <<< 1).toNat = w.toNat * 2 % 256 := by
      rw [UInt8.toNat_shiftLeft, Nat.shiftLeft_eq]
      rfl
    omega
  have hlow : ∀ b : UInt8, (b &&& 0x1f).toNat % 2 ^ 4 = b.toNat % 2 ^ 4 := by
    intro b
    rw [toNat_low]
    omega
  have hfold : ∀ w w' : UInt8, w.toNat % 2 ^ 4 = w'.toNat % 2 ^ 4 →
      (bases.foldl (fun (bits b : UInt8) => (bits <<< 1) ||| b) w).toNat % 2 ^ 4 =
        ((lowBases bases).foldl (fun (bits b : UInt8) => (bits <<< 1) ||| b) w').toNat % 2 ^ 4 := by
    induction bases with
    | nil => exact fun _ _ h => h
    | cons b bases ih =>
      intro w w' h
      refine ih _ _ ?_
      rw [UInt8.toNat_or, UInt8.toNat_or, Nat.or_mod_two_pow, Nat.or_mod_two_pow, hshift, hshift,
        hlow, h]
  exact hfold 0 0 rfl

variable {σ : Type} [ByteSource σ] [LawfulSource σ]

/-- Four levels that were packed into a word, each in its own bits, come back from it, whatever stands
above them. -/
theorem levels_of_word {width word : Nat} (above : Nat) {a b c d : UInt8} (ha : a.toNat < 2 ^ width)
    (hb : b.toNat < 2 ^ width) (hc : c.toNat < 2 ^ width) (hd : d.toNat < 2 ^ width)
    (hword : word = (((above * 2 ^ width + a.toNat) * 2 ^ width + b.toNat) * 2 ^ width + c.toNat) *
      2 ^ width + d.toNat) :
    ([3, 2, 1, 0].map fun i => UInt8.ofNat ((word >>> (i * width)) % (1 <<< width))) =
      [a, b, c, d] := by
  have hshift : ∀ (n : Nat) (x : UInt8), x.toNat < 2 ^ width →
      (n * 2 ^ width + x.toNat) >>> width = n := by
    intro n x hx
    rw [Nat.shiftRight_eq_div_pow, mul_comm, Nat.mul_add_div (Nat.two_pow_pos width),
      Nat.div_eq_of_lt hx, Nat.add_zero]
  have hlow : ∀ (n : Nat) (x : UInt8), x.toNat < 2 ^ width →
      UInt8.ofNat ((n * 2 ^ width + x.toNat) % (1 <<< width)) = x := by
    intro n x hx
    rw [Nat.one_shiftLeft, mul_comm, Nat.mul_add_mod, Nat.mod_eq_of_lt hx, UInt8.ofNat_toNat]
  have hthree : 3 * width = width + (width + width) := by omega
  simp only [List.map_cons, List.map_nil, hthree, Nat.two_mul, Nat.one_mul, Nat.zero_mul,
    Nat.shiftRight_zero, Nat.shiftRight_add, hword, hshift _ _ hb, hshift _ _ hc, hshift _ _ hd,
    hlow _ _ ha, hlow _ _ hb, hlow _ _ hc, hlow _ _ hd]

/-- Levels of more than one bit come back from five bits each. -/
theorem decodes_wideBases {a b c d : UInt8} (hwide : hasWideBase [a, b, c, d] = true) :
    Decodes (Replay.coloredBases : Decoder σ (List UInt8)) (packedBases [a, b, c, d])
      (lowBases [a, b, c, d]) := by
  obtain ⟨word, hword⟩ : ∃ word, word = [a, b, c, d].foldl
    (fun word b => word * 32 + b.toNat % 32) 0 := ⟨_, rfl⟩
  have hlt : word < 1048576 := by
    rw [hword]
    simp only [List.foldl]
    omega
  obtain ⟨first, hfirst⟩ : ∃ first, first = UInt8.ofNat (0x10 + (word >>> 16)) := ⟨_, rfl⟩
  have hvalue : first.toNat = 16 + word / 65536 := by
    rw [hfirst, UInt8.toNat_ofNat', Nat.shiftRight_eq_div_pow]
    norm_num
    omega
  have hle : 0x10 ≤ first := by
    rw [UInt8.le_iff_toNat_le, hvalue]
    exact Nat.le_add_right 16 _
  have hhigh : (first - 0x10).toNat = word / 65536 := by
    rw [UInt8.toNat_sub_of_le _ _ hle, hvalue]
    exact Nat.add_sub_cancel_left 16 _
  have hall : Word.ofBigEndian ((first - 0x10) :: Word.bigEndian 2 word) = word := by
    rw [Word.ofBigEndian, List.foldl_cons, Word.foldl_bigEndian, hhigh]
    norm_num
    omega
  have hlow := (Decodes.nextBytes_of_length (σ := σ) (Word.length_bigEndian 2 word)).bind_pure
    (f := fun low => [3, 2, 1, 0].map fun i =>
      UInt8.ofNat ((Word.ofBigEndian ((first - 0x10) :: low) >>> (i * 5)) % (1 <<< 5)))
  have hfive : ∀ x : UInt8, (x &&& 0x1f).toNat < 2 ^ 5 := by
    intro x
    rw [toNat_low]
    exact Nat.mod_lt _ (by norm_num)
  have hbases : ([3, 2, 1, 0].map fun i => UInt8.ofNat ((word >>> (i * 5)) % (1 <<< 5))) =
      lowBases [a, b, c, d] := by
    refine levels_of_word 0 (hfive a) (hfive b) (hfive c) (hfive d) ?_
    rw [hword, toNat_low, toNat_low, toNat_low, toNat_low]
    rfl
  rw [hall, hbases] at hlow
  rw [packedBases, if_pos hwide, ← hword]
  dsimp only
  rw [← hfirst]
  refine (Decodes.nextByte _).bind (l := Word.bigEndian 2 word) ?_
  rw [if_pos hle]
  exact hlow

/-- Without a wide one, the low bits of a level are one bit. -/
theorem low_of_narrow {bases : List UInt8} (hnarrow : ¬ hasWideBase bases = true) :
    ∀ b ∈ bases, b &&& 0x1f = 0 ∨ b &&& 0x1f = 1 := by
  intro b hb
  have hsmall : b &&& 0x1f < 32 := by
    rw [UInt8.lt_iff_toNat_lt, toNat_low]
    exact Nat.mod_lt _ (by norm_num)
  have hzero : b &&& 0x1e = 0 := by
    by_contra hbits
    exact hnarrow (List.any_eq_true.mpr ⟨b, hb, by simpa using hbits⟩)
  refine level_of_narrow hsmall ?_
  rw [UInt8.and_assoc]
  exact hzero

/-- Levels of one bit are the binary digits of the byte that they share. -/
theorem toNat_narrowBases {a b c d : UInt8} (ha : a = 0 ∨ a = 1) (hb : b = 0 ∨ b = 1)
    (hc : c = 0 ∨ c = 1) (hd : d = 0 ∨ d = 1) :
    (narrowBases [a, b, c, d]).toNat = a.toNat * 8 + b.toNat * 4 + c.toNat * 2 + d.toNat := by
  rcases ha with rfl | rfl <;> rcases hb with rfl | rfl <;> rcases hc with rfl | rfl <;>
    rcases hd with rfl | rfl <;> rfl

/-- Levels of one bit come back from the byte that they share, if no other bits are set in it. -/
theorem decodes_narrowBases {a b c d : UInt8} (hnarrow : ¬ hasWideBase [a, b, c, d] = true)
    (hfree : narrowBases [a, b, c, d] < 0x10) :
    Decodes (Replay.coloredBases : Decoder σ (List UInt8)) (packedBases [a, b, c, d])
      (lowBases [a, b, c, d]) := by
  have hbits := low_of_narrow hnarrow
  simp only [List.mem_cons, List.not_mem_nil, or_false, forall_eq_or_imp, forall_eq] at hbits
  obtain ⟨ha, hb, hc, hd⟩ := hbits
  have hone : ∀ x : UInt8, x = 0 ∨ x = 1 → x.toNat < 2 ^ 1 := by
    rintro x (rfl | rfl) <;> decide
  have hbases : ([3, 2, 1, 0].map fun i =>
      UInt8.ofNat (((narrowBases [a, b, c, d]).toNat >>> (i * 1)) % (1 <<< 1))) =
        lowBases [a, b, c, d] := by
    have hdigits := narrowBases_low [a, b, c, d]
    have hlow : lowBases [a, b, c, d] = [a &&& 0x1f, b &&& 0x1f, c &&& 0x1f, d &&& 0x1f] := rfl
    rw [hlow, toNat_narrowBases ha hb hc hd] at hdigits
    rw [hlow]
    refine levels_of_word ((narrowBases [a, b, c, d]).toNat / 16) (hone _ ha) (hone _ hb)
      (hone _ hc) (hone _ hd) ?_
    have := hone _ ha
    have := hone _ hb
    have := hone _ hc
    have := hone _ hd
    omega
  rw [packedBases, if_neg hnarrow]
  refine (Decodes.nextByte _).bind (l := []) ?_
  rw [if_neg (UInt8.not_le.mpr hfree), ← hbases]
  exact Decodes.pure _

/-- The low bits of the base levels are read back. -/
theorem decodes_packedBases {bases : List UInt8} (h : ReadableBases bases) :
    Decodes (Replay.coloredBases : Decoder σ (List UInt8)) (packedBases bases) (lowBases bases) := by
  obtain ⟨hlength, hform⟩ := h
  match bases, hlength with
  | [a, b, c, d], _ =>
    by_cases hwide : hasWideBase [a, b, c, d] = true
    · exact decodes_wideBases hwide
    · exact decodes_narrowBases hwide (hform.resolve_left hwide)

/-- No other base levels are read back: the byte that they share is taken for the first of three. -/
theorem decodes_packedBases_iff {bases : List UInt8} (hlength : bases.length = 4) :
    Decodes (Replay.coloredBases : Decoder Cursor (List UInt8)) (packedBases bases) (lowBases bases) ↔
      ReadableBases bases := by
  refine ⟨fun h => ?_, decodes_packedBases⟩
  by_contra hreadable
  obtain ⟨hnarrow, htaken⟩ := not_or.mp fun hform => hreadable ⟨hlength, hform⟩
  rw [packedBases, if_neg hnarrow] at h
  obtain ⟨c, hrun, -⟩ := h (Cursor.ofList [narrowBases bases]) [] rfl
  have hfirst : ByteSource.nextByte (Cursor.ofList [narrowBases bases]) =
      .ok (narrowBases bases) ⟨[], 1⟩ := rfl
  rw [Replay.coloredBases, bind_of_ok hfirst, if_pos (UInt8.not_lt.mp htaken)] at hrun
  cases hrun

/-- A sixth bit of the second level is one of the bits that tell the form. -/
example : ¬ ReadableBases [0, 0x20, 0, 0] := by decide

end BandedPage
