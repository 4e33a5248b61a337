import Mathlib
import BandedPage.Config
import BandedPage.Operand.Color
import BandedPage.Proofs.Operand.Number

/-!
# Reading colors back

A color command is read back for any last color, since differences are taken and added modulo
`2 ^ 64`. Only a color given in full must fit the bytes of the device's colors, or else its high
bytes are lost.
-/

namespace BandedPage

/-- A color that a device of the given depth has, or no color at all. -/
def Color.IsOf (depth : Nat) (color : Color) : Prop := color = noColor ∨ color.toNat < 2 ^ depth

theorem Op.ofByte?_setColor (slot : ColorSlot) {n : UInt8} (h : n < 16) :
    Op.ofByte? (Opcode.setColor slot + n) = some (.setColor slot n) :=
  Word.forall_byte_lt (P := fun n => Op.ofByte? (Opcode.setColor slot + n) = some (.setColor slot n))
    (by cases slot <;> decide) h

@[simp] theorem Op.ofByte?_colorDifference (slot : ColorSlot) :
    Op.ofByte? (Opcode.colorDifference slot) = some (.control (.colorDifference slot)) := by
  cases slot <;> rfl

namespace ColorCommand

namespace Packing

theorem unpack_of_pack? {p : Packing} {v n : Nat} (h : p.pack? v = some n) : p.unpack n = v := by
  induction p generalizing v n with
  | nil =>
    rw [pack?] at h
    split at h
    · next hv => exact hv.symm
    · cases h
  | cons w ws ih =>
    rw [pack?] at h
    split at h
    · next hlow =>
      obtain ⟨m, hm, rfl⟩ := Option.map_eq_some_iff.mp h
      rw [Nat.one_shiftLeft] at hlow
      have hshift : (m <<< w + v % 256) >>> w = m := by
        rw [Nat.shiftLeft_eq, Nat.shiftRight_eq_div_pow, Nat.mul_comm,
          Nat.mul_add_div (Nat.two_pow_pos w), Nat.div_eq_of_lt hlow, Nat.add_zero]
      have hmod : (m <<< w + v % 256) % (1 <<< w) = v % 256 := by
        rw [Nat.shiftLeft_eq, Nat.one_shiftLeft, Nat.mul_add_mod_self_right, Nat.mod_eq_of_lt hlow]
      rw [unpack, hshift, hmod, ih hm]
      omega
    · cases h

theorem pack?_lt {p : Packing} {v n : Nat} (h : p.pack? v = some n) : n < 2 ^ p.sum := by
  induction p generalizing v n with
  | nil =>
    rw [pack?] at h
    split at h
    · cases h
      simp
    · cases h
  | cons w ws ih =>
    rw [pack?] at h
    split at h
    · next hlow =>
      obtain ⟨m, hm, rfl⟩ := Option.map_eq_some_iff.mp h
      have hm := ih hm
      rw [Nat.one_shiftLeft] at hlow
      rw [Nat.shiftLeft_eq, List.sum_cons, pow_add]
      calc m * 2 ^ w + v % 256 < m * 2 ^ w + 2 ^ w := by omega
        _ = 2 ^ w * (m + 1) := by ring
        _ ≤ 2 ^ w * 2 ^ ws.sum := Nat.mul_le_mul_left _ hm
    · cases h

/-- A difference leads from the last color to the new one. -/
theorem apply_difference {p : Packing} {color last : Color} {packed : Nat}
    (h : p.difference? color last = some packed) : p.apply last packed = color := by
  have hunpack := unpack_of_pack? h
  rw [apply, hunpack, UInt64.ofNat_toNat]
  grind

end Packing

variable {σ : Type} [ByteSource σ] [LawfulSource σ]

theorem decodes_full (depth : Nat) (color : Color) :
    Decodes (decodeFull depth : Decoder σ Color) (Word.bigEndian (bytesAt depth) color.toNat)
      (UInt64.ofNat (color.toNat % 256 ^ bytesAt depth)) := by
  have := (Decodes.nextBytes_of_length (σ := σ)
    (Word.length_bigEndian (bytesAt depth) color.toNat)).bind_pure
    (f := fun bytes => UInt64.ofNat (Word.ofBigEndian bytes))
  rwa [Word.ofBigEndian_bigEndian] at this

theorem decodes_difference {p : Packing} {packed : Nat} (hlt : packed < 65536) {depth : Nat}
    (hwide : (if 24 < depth then Packing.wide4 else .wide3) = p) (last : Color) :
    Decodes (decodeDifference last depth : Decoder σ Color) (Word.bigEndian 2 packed)
      (p.apply last packed) := by
  have := (Decodes.nextBytes_of_length (σ := σ) (Word.length_bigEndian 2 packed)).bind_pure
    (f := fun bytes => p.apply last (Word.ofBigEndian bytes))
  rw [Word.ofBigEndian_bigEndian, Nat.mod_eq_of_lt (by norm_num; omega)] at this
  rw [decodeDifference]
  simpa only [hwide] using this

/-- The command `op` and its operands give `slot`, which holds `last`, the color. -/
def Gives (slot : ColorSlot) (last : Color) (depth : Nat) (op : Op) (operands : List UInt8)
    (color : Color) : Prop :=
  (∃ n, op = .setColor slot n ∧ ∀ {σ : Type} [ByteSource σ] [LawfulSource σ],
      Decodes (decode n last depth : Decoder σ Color) operands color) ∨
    (op = .control (.colorDifference slot) ∧ ∀ {σ : Type} [ByteSource σ] [LawfulSource σ],
      Decodes (decodeDifference last depth : Decoder σ Color) operands color)

theorem gives_noColor (slot : ColorSlot) (last : Color) (depth : Nat) :
    Gives slot last depth (.setColor slot Opcode.noColorNibble) [] noColor := by
  refine .inl ⟨_, rfl, fun {σ} _ _ => ?_⟩
  rw [decode, if_pos rfl]
  exact Decodes.pure _

theorem gives_full (slot : ColorSlot) (color last : Color) (depth : Nat) :
    Gives slot last depth (.setColor slot 0) (Word.bigEndian (bytesAt depth) color.toNat)
      (UInt64.ofNat (color.toNat % 256 ^ bytesAt depth)) := by
  refine .inl ⟨0, rfl, fun {σ} _ _ => ?_⟩
  rw [decode, if_neg (by decide), if_pos rfl]
  exact decodes_full depth color

/-- The low halves that stand for a difference are those in between. -/
theorem ne_of_toNat_ne {n : UInt8} (h0 : n.toNat ≠ 0) (h15 : n.toNat ≠ 15) :
    n ≠ Opcode.noColorNibble ∧ n ≠ 0 :=
  ⟨fun h => h15 (congrArg UInt8.toNat h), fun h => h0 (congrArg UInt8.toNat h)⟩

/-- A difference of twelve bits, the first four of them in the code. -/
theorem gives_near {depth : Nat} {near wide : Packing}
    (hp : packings (bytesAt depth) = some (near, wide)) {n : UInt8} (h0 : n.toNat ≠ 0)
    (h15 : n.toNat ≠ 15) (slot : ColorSlot) (last : Color) (b : UInt8) :
    Gives slot last depth (.setColor slot n) [b] (near.apply last (n.toNat * 256 + b.toNat)) := by
  obtain ⟨hnone, hfull⟩ := ne_of_toNat_ne h0 h15
  refine .inl ⟨n, rfl, fun {σ} _ _ => ?_⟩
  rw [decode, if_neg hnone, if_neg hfull, hp]
  have hread := (Decodes.nextByte (σ := σ) b).bind_pure
    (f := fun b => near.apply last (n.toNat * 256 + b.toNat))
  exact hread

/-- A difference of a color of one byte. -/
theorem gives_small {depth : Nat} (hp : packings (bytesAt depth) = none) (hone : bytesAt depth ≠ 2)
    {n : UInt8} (h0 : n.toNat ≠ 0) (h15 : n.toNat ≠ 15) (slot : ColorSlot) (last : Color) :
    Gives slot last depth (.setColor slot n) [] (last + n.toUInt64 - 8) := by
  obtain ⟨hnone, hfull⟩ := ne_of_toNat_ne h0 h15
  refine .inl ⟨n, rfl, fun {σ} _ _ => ?_⟩
  rw [decode, if_neg hnone, if_neg hfull, hp]
  simp only [if_neg hone]
  exact Decodes.pure _

/-- The bytes of a color at the depth hold the whole color, if it is one. -/
def Carries (depth : Nat) (color : Color) : Prop :=
  color = noColor ∨ color.toNat < 2 ^ (8 * bytesAt depth)

theorem Carries.of_isOf {depth : Nat} {color : Color} (h : color.IsOf depth) :
    Carries depth color := by
  have hbytes : depth ≤ 8 * bytesAt depth := by
    rw [bytesAt]
    omega
  exact h.imp_right fun hlt => hlt.trans_le (Nat.pow_le_pow_right (by norm_num) hbytes)

/-- A color given in full keeps its low bytes, which is all of it if they hold it. -/
theorem Carries.ofNat_mod {depth : Nat} {color : Color} (h : Carries depth color)
    (hc : color ≠ noColor) : UInt64.ofNat (color.toNat % 256 ^ bytesAt depth) = color := by
  have hlt : color.toNat < 256 ^ bytesAt depth :=
    calc color.toNat < 2 ^ (8 * bytesAt depth) := h.resolve_left hc
      _ = 256 ^ bytesAt depth := by rw [pow_mul]; norm_num
  rw [Nat.mod_eq_of_lt hlt, UInt64.ofNat_toNat]

/-- Colors of three and four bytes have packings, shorter ones have none. -/
theorem packings_of_mem {depth : Nat} (h : depth ∈ Config.depths) :
    (packings (bytesAt depth) = none ∧ (bytesAt depth = 1 ∨ bytesAt depth = 2)) ∨
      ∃ near wide, packings (bytesAt depth) = some (near, wide) ∧ near.sum = 12 ∧ wide.sum = 16 ∧
        (if 24 < depth then Packing.wide4 else .wide3) = wide := by
  simp only [Config.depths, List.mem_cons, List.not_mem_nil, or_false] at h
  rcases h with rfl | rfl | rfl | rfl | rfl | rfl | rfl
  · exact .inl ⟨rfl, .inl rfl⟩
  · exact .inl ⟨rfl, .inl rfl⟩
  · exact .inl ⟨rfl, .inl rfl⟩
  · exact .inl ⟨rfl, .inl rfl⟩
  · exact .inl ⟨rfl, .inr rfl⟩
  · exact .inr ⟨.near3, .wide3, rfl, rfl, rfl, rfl⟩
  · exact .inr ⟨.near4, .wide4, rfl, rfl, rfl, rfl⟩

/-- These are the bytes of a command for the slot. What it gives depends on what the slot holds, and
is the color if that is what the writer took it to hold. -/
def Writes (slot : ColorSlot) (color last : Color) (depth : Nat) (bytes : List UInt8) : Prop :=
  ∃ code operands op, ∃ result : Color → Color, bytes = code :: operands ∧
    Op.ofByte? code = some op ∧ (∀ last', Gives slot last' depth op operands (result last')) ∧
    (Carries depth color → result last = color)

section

variable (slot : ColorSlot) {color last : Color} {depth : Nat}

theorem writes_noColor (last : Color) (depth : Nat) :
    Writes slot noColor last depth [Opcode.setColor slot + Opcode.noColorNibble] :=
  ⟨_, [], _, fun _ => noColor, rfl, Op.ofByte?_setColor slot (by decide),
    fun last' => gives_noColor slot last' depth, fun _ => rfl⟩

theorem writes_full (hne : color ≠ noColor) (last : Color) (depth : Nat) :
    Writes slot color last depth
      (Opcode.setColor slot :: Word.bigEndian (bytesAt depth) color.toNat) := by
  have hop : Op.ofByte? (Opcode.setColor slot) = some (.setColor slot 0) := by
    have := Op.ofByte?_setColor slot (n := 0) (by decide)
    rwa [UInt8.add_zero] at this
  exact ⟨_, _, _, _, rfl, hop, fun last' => gives_full slot color last' depth,
    fun h => h.ofNat_mod hne⟩

theorem writes_near {near wide : Packing} (hp : packings (bytesAt depth) = some (near, wide))
    (hnear : near.sum = 12) {packed : Nat} (hdiff : near.difference? color last = some packed)
    (hfits : fitsCode packed = true) :
    Writes slot color last depth
      [Opcode.setColor slot + UInt8.ofNat (packed / 256), UInt8.ofNat packed] := by
  have hlt : packed < 4096 := by
    have := Packing.pack?_lt hdiff
    rwa [hnear] at this
  simp only [fitsCode, Bool.and_eq_true, bne_iff_ne, ne_eq] at hfits
  have hhigh : (UInt8.ofNat (packed / 256)).toNat = packed / 256 := by
    rw [UInt8.toNat_ofNat']
    omega
  have hlow : (UInt8.ofNat packed).toNat = packed % 256 := UInt8.toNat_ofNat'
  have hlt16 : UInt8.ofNat (packed / 256) < 16 :=
    UInt8.lt_iff_toNat_lt.mpr (show _ < 16 by omega)
  refine ⟨_, _, _, _, rfl, Op.ofByte?_setColor slot hlt16,
    fun last' => gives_near hp (by omega) (by omega) slot last' _, fun _ => ?_⟩
  rw [hhigh, hlow, Nat.div_add_mod' packed 256]
  exact Packing.apply_difference hdiff

theorem writes_wide {wide : Packing} (hform : (if 24 < depth then Packing.wide4 else .wide3) = wide)
    (hwide : wide.sum = 16) {packed : Nat} (hdiff : wide.difference? color last = some packed) :
    Writes slot color last depth (Opcode.colorDifference slot :: Word.bigEndian 2 packed) := by
  have hlt : packed < 65536 := by
    have := Packing.pack?_lt hdiff
    rwa [hwide] at this
  exact ⟨_, _, _, _, rfl, Op.ofByte?_colorDifference slot,
    fun last' => .inr ⟨rfl, fun {σ} _ _ => decodes_difference hlt hform last'⟩,
    fun _ => Packing.apply_difference hdiff⟩

theorem writes_small (hp : packings (bytesAt depth) = none) (hone : bytesAt depth ≠ 2)
    (hsmall : color - last + 7 < 14) :
    Writes slot color last depth [Opcode.setColor slot + (color - last + 8).toUInt8] := by
  have hval : (color - last + 8).toUInt8.toNat = (color - last + 8).toNat ∧
      1 ≤ (color - last + 8).toNat ∧ (color - last + 8).toNat < 15 := by
    generalize color - last = d at hsmall
    have h7 : (7 : UInt64).toNat = 7 := rfl
    have h8 : (8 : UInt64).toNat = 8 := rfl
    have h14 : (14 : UInt64).toNat = 14 := rfl
    rw [UInt64.lt_iff_toNat_lt, UInt64.toNat_add, h7, h14] at hsmall
    rw [UInt64.toNat_toUInt8, UInt64.toNat_add, h8]
    have := d.toNat_lt
    omega
  obtain ⟨hbyte, hlo, hhi⟩ := hval
  have hlt16 : (color - last + 8).toUInt8 < 16 :=
    UInt8.lt_iff_toNat_lt.mpr (show _ < 16 by omega)
  have hword : (color - last + 8).toUInt8.toUInt64 = color - last + 8 := by
    rw [← UInt64.toNat_inj, UInt8.toNat_toUInt64, hbyte]
  refine ⟨_, [], _, _, rfl, Op.ofByte?_setColor slot hlt16,
    fun last' => gives_small hp hone (by omega) (by omega) slot last', fun _ => ?_⟩
  rw [hword]
  grind

/-- A changed color has a command. -/
theorem writes_encode (hne : color ≠ last) (hdepth : depth ∈ Config.depths) :
    Writes slot color last depth (encode slot color last depth) := by
  rw [encode]
  simp only [beq_false_of_ne hne, Bool.false_eq_true, if_false]
  by_cases hno : color = noColor
  · subst hno
    exact writes_noColor slot last depth
  simp only [beq_false_of_ne hno, Bool.false_eq_true, if_false]
  rcases packings_of_mem hdepth with ⟨hp, hbytes⟩ | ⟨near, wide, hp, hnear, hwide, hform⟩
  · simp only [hp]
    by_cases htwo : bytesAt depth = 2
    · rw [if_pos htwo]
      exact writes_full slot hno last depth
    rw [if_neg htwo]
    split
    · next hsmall => exact writes_small slot hp htwo hsmall
    · have hfull := writes_full slot hno last depth
      rwa [hbytes.resolve_right htwo] at hfull
  · simp only [hp]
    split
    · next packed hpacked =>
      obtain ⟨hdiff, hfits⟩ := Option.filter_eq_some_iff.mp hpacked
      exact writes_near slot hp hnear hdiff hfits
    split
    · next packed hdiff => exact writes_wide slot hform hwide hdiff
    · exact writes_full slot hno last depth

end

/-- The command for a changed color names the slot, and what it says against the last color is the
color, whatever follows it. -/
theorem changed_color_is_read_back (slot : ColorSlot) {color last : Color} {depth : Nat}
    (hdepth : depth ∈ Config.depths) (hne : color ≠ last) (hcolor : Carries depth color) :
    ∃ code operands, encode slot color last depth = code :: operands ∧
      ((∃ n, (∀ offset, Op.decode code offset = .ok (.setColor slot n)) ∧
          Decodes (decode n last depth : Decoder σ Color) operands color) ∨
        ((∀ offset, Op.decode code offset = .ok (.control (.colorDifference slot))) ∧
          Decodes (decodeDifference last depth : Decoder σ Color) operands color)) := by
  obtain ⟨code, operands, op, result, hencode, hop, hgives, hresult⟩ :=
    writes_encode slot hne hdepth
  have hdecode : ∀ offset, Op.decode code offset = .ok op := fun offset => by
    rw [Op.decode, hop]
  refine ⟨code, operands, hencode, ?_⟩
  have hgives := hgives last
  rw [hresult hcolor] at hgives
  rcases hgives with ⟨n, rfl, hread⟩ | ⟨rfl, hread⟩
  · exact .inl ⟨n, hdecode, hread⟩
  · exact .inr ⟨hdecode, hread⟩

/-- A color of three bytes each of which changes by one, with a borrow between the lower two. -/
theorem borrowing_color_is_read_back :
    24 ∈ Config.depths ∧ (0x123456 : Color) ≠ 0x113357 ∧ Carries 24 0x123456 ∧
      encode .zero 0x123456 0x113357 24 = [0x19, 0x97] ∧
      ∃ c, decode 9 0x113357 24 (Cursor.ofList [0x97, 0xff]) = .ok 0x123456 c ∧ c.rest = [0xff] := by
  have hdepth : 24 ∈ Config.depths := by decide
  have hne : (0x123456 : Color) ≠ 0x113357 := by decide
  have hcolor : Carries 24 0x123456 := .inr (by decide)
  have hcode : encode .zero 0x123456 0x113357 24 = [0x19, 0x97] := by decide
  refine ⟨hdepth, hne, hcolor, hcode, ?_⟩
  obtain ⟨code, operands, hencode, hread⟩ :=
    changed_color_is_read_back (σ := Cursor) .zero hdepth hne hcolor
  rw [hcode] at hencode
  cases hencode
  rcases hread with ⟨n, hop, hread⟩ | ⟨hop, -⟩
  · cases hop 0
    exact hread (Cursor.ofList [0x97, 0xff]) [0xff] rfl
  · cases hop 0

end ColorCommand

end BandedPage
