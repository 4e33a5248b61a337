import Mathlib
import BandedPage.Operand.Matrix
import BandedPage.Proofs.Operand.Number
import BandedPage.Proofs.Single

/-!
# Reading matrices back

A coefficient that equals another, or its opposite, is read back as that one, and any zero as
positive zero. Of the bits of a matrix nothing is lost but the signs of its zeros.
-/

namespace BandedPage.Matrix

/-- The same matrix up to the bits of its numbers. -/
structure Same (a b : Matrix) : Prop where
  xx : a.xx.Same b.xx
  xy : a.xy.Same b.xy
  yx : a.yx.Same b.yx
  yy : a.yy.Same b.yy
  tx : a.tx.Same b.tx
  ty : a.ty.Same b.ty

theorem Same.refl (m : Matrix) : m.Same m :=
  ⟨.refl _, .refl _, .refl _, .refl _, .refl _, .refl _⟩

theorem Same.trans {a b c : Matrix} (h : a.Same b) (h' : b.Same c) : a.Same c :=
  ⟨h.xx.trans h'.xx, h.xy.trans h'.xy, h.yx.trans h'.yx, h.yy.trans h'.yy, h.tx.trans h'.tx,
    h.ty.trans h'.ty⟩

/-- Matrices are equal if their coefficients are equal numbers. -/
theorem parts_of_beq {a b : Matrix} (h : (a == b) = true) :
    (a.xx == b.xx) = true ∧ (a.xy == b.xy) = true ∧ (a.yx == b.yx) = true ∧
      (a.yy == b.yy) = true ∧ (a.tx == b.tx) = true ∧ (a.ty == b.ty) = true := by
  obtain ⟨xx, xy, yx, yy, tx, ty⟩ := a
  obtain ⟨xx', xy', yx', yy', tx', ty'⟩ := b
  simpa [BEq.beq, instBEqMatrix.beq] using h

theorem Same.of_beq {a b : Matrix} (h : (a == b) = true) : a.Same b := by
  obtain ⟨hxx, hxy, hyx, hyy, htx, hty⟩ := parts_of_beq h
  exact ⟨.inl hxx, .inl hxy, .inl hyx, .inl hyy, .inl htx, .inl hty⟩

def sentPair (u v : Single) : Single × Single :=
  if u.isZero && v.isZero then (.zero, .zero)
  else if v == u then (u, u)
  else if v == -u then (u, -u)
  else (u, v)

/-- An offset as it is read back. -/
def sentOffset (v : Single) : Single := if v.isZero then .zero else v

/-- A matrix as it is read back. -/
def sent (m : Matrix) : Matrix :=
  { xx := (sentPair m.xx m.yy).1
    xy := (sentPair m.yx m.xy).2
    yx := (sentPair m.yx m.xy).1
    yy := (sentPair m.xx m.yy).2
    tx := sentOffset m.tx
    ty := sentOffset m.ty }

/-- `a` may be what is read back for `b`: no bits are lost but signs of zeros. -/
structure ReadFrom (a b : Matrix) : Prop where
  xx : a.xx.ReadFrom b.xx
  xy : a.xy.ReadFrom b.xy
  yx : a.yx.ReadFrom b.yx
  yy : a.yy.ReadFrom b.yy
  tx : a.tx.ReadFrom b.tx
  ty : a.ty.ReadFrom b.ty

theorem ReadFrom.same {a b : Matrix} (h : a.ReadFrom b) : a.Same b :=
  ⟨h.xx.same, h.xy.same, h.yx.same, h.yy.same, h.tx.same, h.ty.same⟩

/-- The same matrix to the bit, but for the signs of zeros. -/
structure EqOrZeros (a b : Matrix) : Prop where
  xx : a.xx.EqOrZeros b.xx
  xy : a.xy.EqOrZeros b.xy
  yx : a.yx.EqOrZeros b.yx
  yy : a.yy.EqOrZeros b.yy
  tx : a.tx.EqOrZeros b.tx
  ty : a.ty.EqOrZeros b.ty

theorem EqOrZeros.of_beq {a b : Matrix} (h : (a == b) = true) : a.EqOrZeros b := by
  obtain ⟨hxx, hxy, hyx, hyy, htx, hty⟩ := parts_of_beq h
  exact ⟨.of_beq hxx, .of_beq hxy, .of_beq hyx, .of_beq hyy, .of_beq htx, .of_beq hty⟩

theorem EqOrZeros.symm {a b : Matrix} (h : a.EqOrZeros b) : b.EqOrZeros a :=
  ⟨h.xx.symm, h.xy.symm, h.yx.symm, h.yy.symm, h.tx.symm, h.ty.symm⟩

theorem ReadFrom.eqOrZeros {a b : Matrix} (h : a.ReadFrom b) : a.EqOrZeros b :=
  ⟨h.xx.eqOrZeros, h.xy.eqOrZeros, h.yx.eqOrZeros, h.yy.eqOrZeros, h.tx.eqOrZeros, h.ty.eqOrZeros⟩

theorem readFrom_sentPair (u v : Single) :
    (sentPair u v).1.ReadFrom u ∧ (sentPair u v).2.ReadFrom v := by
  rw [sentPair]
  by_cases hzero : (u.isZero && v.isZero) = true
  · rw [if_pos hzero]
    obtain ⟨hu, hv⟩ := Bool.and_eq_true_iff.mp hzero
    exact ⟨.of_isZero hu, .of_isZero hv⟩
  rw [if_neg hzero]
  -- The second number could only lose its sign if both were zeros.
  have heq_of_beq : ∀ w : Single, w.isZero = u.isZero → (v == w) = true → v = w := by
    intro w hw hbeq
    obtain ⟨-, -, heq | ⟨hvzero, hwzero⟩⟩ := Single.beq_iff.mp hbeq
    · exact heq
    · exact absurd (by rw [← hw, hwzero, hvzero]; rfl) hzero
  split
  · next heq => exact ⟨.refl u, .inl (heq_of_beq u rfl heq).symm⟩
  split
  · next heq => exact ⟨.refl u, .inl (heq_of_beq (-u) (Single.isZero_neg u) heq).symm⟩
  · exact ⟨.refl u, .refl v⟩

theorem readFrom_sentOffset (v : Single) : (sentOffset v).ReadFrom v := by
  rw [sentOffset]
  split
  · next hzero => exact .of_isZero hzero
  · exact .refl v

theorem readFrom_sent (m : Matrix) : m.sent.ReadFrom m where
  xx := (readFrom_sentPair m.xx m.yy).1
  xy := (readFrom_sentPair m.yx m.xy).2
  yx := (readFrom_sentPair m.yx m.xy).1
  yy := (readFrom_sentPair m.xx m.yy).2
  tx := readFrom_sentOffset m.tx
  ty := readFrom_sentOffset m.ty

theorem same_sent (m : Matrix) : m.sent.Same m := m.readFrom_sent.same

theorem encodePair_lt (u v : Single) : (encodePair u v).1 < 4 := by
  rw [encodePair]
  split
  · norm_num
  split
  · norm_num
  split
  · norm_num
  · norm_num

theorem encodeOffset_lt (v : Single) : (encodeOffset v).1 < 2 := by
  rw [encodeOffset]
  split <;> norm_num

def flags (m : Matrix) : Nat :=
  (encodePair m.xx m.yy).1 * 64 + (encodePair m.yx m.xy).1 * 16 + (encodeOffset m.tx).1 * 8 +
    (encodeOffset m.ty).1 * 4

theorem encode_eq (m : Matrix) : m.encode = UInt8.ofNat m.flags ::
    ((encodePair m.xx m.yy).2 ++ ((encodePair m.yx m.xy).2 ++
      ((encodeOffset m.tx).2 ++ (encodeOffset m.ty).2))) := by
  rw [← List.append_assoc, ← List.append_assoc]
  rfl

/-- Each part finds its bits in the byte. -/
theorem flags_parts (m : Matrix) : m.flags < 256 ∧ m.flags / 64 = (encodePair m.xx m.yy).1 ∧
    m.flags / 16 % 4 = (encodePair m.yx m.xy).1 ∧ m.flags / 8 % 2 = (encodeOffset m.tx).1 ∧
    m.flags / 4 % 2 = (encodeOffset m.ty).1 := by
  have := encodePair_lt m.xx m.yy
  have := encodePair_lt m.yx m.xy
  have := encodeOffset_lt m.tx
  have := encodeOffset_lt m.ty
  rw [flags]
  omega

variable {σ : Type} [ByteSource σ] [LawfulSource σ]

theorem decodes_pair (u v : Single) :
    Decodes (decodePair (encodePair u v).1 : Decoder σ (Single × Single)) (encodePair u v).2
      (sentPair u v) := by
  rw [encodePair, sentPair]
  split
  · exact Decodes.pure _
  split
  · exact (Operand.decodes_single u).bind_pure (f := fun u => (u, u))
  split
  · exact (Operand.decodes_single u).bind_pure (f := fun u => (u, -u))
  · exact (Operand.decodes_single u).bind
      ((Operand.decodes_single v).bind_pure (f := fun v => (u, v)))

theorem decodes_offset (v : Single) :
    Decodes (decodeOffset (encodeOffset v).1 : Decoder σ Single) (encodeOffset v).2
      (sentOffset v) := by
  rw [encodeOffset, sentOffset]
  split
  · exact Decodes.pure _
  · exact Operand.decodes_single v

theorem decodes_encode (m : Matrix) : Decodes (decode : Decoder σ Matrix) m.encode m.sent := by
  obtain ⟨hlt, hdiagonal, hskew, hdx, hdy⟩ := m.flags_parts
  have hbyte : (UInt8.ofNat m.flags).toNat = m.flags := by
    rw [UInt8.toNat_ofNat']
    exact Nat.mod_eq_of_lt hlt
  rw [encode_eq, decode]
  refine (Decodes.nextByte _).bind (l := _ ++ (_ ++ (_ ++ _))) ?_
  rw [hbyte]
  dsimp only
  rw [hdiagonal, hskew, hdx, hdy]
  refine (decodes_pair m.xx m.yy).bind ?_
  refine (decodes_pair m.yx m.xy).bind ?_
  refine (decodes_offset m.tx).bind ?_
  exact (decodes_offset (σ := σ) m.ty).bind_pure (f := fun ty => { m.sent with ty })

/-- A matrix is read back, whatever follows it, and keeps the bits of its numbers up to the signs of
zeros. -/
theorem matrix_is_read_back (m : Matrix) :
    ∃ back : Matrix, Decodes (decode : Decoder σ Matrix) m.encode back ∧ back.ReadFrom m :=
  ⟨m.sent, decodes_encode m, m.readFrom_sent⟩

/-- A NaN twice, two opposite numbers, a negative zero and an infinity. -/
theorem odd_matrix_is_read_back :
    ∃ back c, decode (Cursor.ofList [0xe4, 1, 0, 0xc0, 0x7f, 1, 0, 0xc0, 0x7f, 0, 0, 0, 0x40,
          0, 0, 0x80, 0x7f, 255]) = .ok back c ∧ c.rest = [255] ∧
      back.ReadFrom ⟨⟨0x7fc00001⟩, ⟨0xc0000000⟩, ⟨0x40000000⟩, ⟨0x7fc00001⟩, .negZero, .infinity⟩ := by
  obtain ⟨back, hread, hback⟩ := matrix_is_read_back (σ := Cursor)
    ⟨⟨0x7fc00001⟩, ⟨0xc0000000⟩, ⟨0x40000000⟩, ⟨0x7fc00001⟩, .negZero, .infinity⟩
  obtain ⟨c, hc, hrest⟩ := hread (Cursor.ofList [0xe4, 1, 0, 0xc0, 0x7f, 1, 0, 0xc0, 0x7f,
    0, 0, 0, 0x40, 0, 0, 0x80, 0x7f, 255]) [255] rfl
  exact ⟨back, c, hc, hrest, hback⟩

end BandedPage.Matrix
