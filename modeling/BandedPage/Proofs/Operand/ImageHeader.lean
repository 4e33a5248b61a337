import Mathlib
import BandedPage.Operand.ImageHeader
import BandedPage.Proofs.Operand.Matrix
import BandedPage.Proofs.Operand.Number

/-!
# Reading image headers back

A header is read back with the same geometry and the same layout of its samples. The numbers of its
matrix and of its sample ranges keep their bits, but for the signs of zeros, and ranges that are the
usual ones are left out. Of its alpha setting two bits count, and of the corners of the supplied part
32, so that a header which keeps to them comes back as it was.
-/

namespace BandedPage.ImageHeader

def sentRange (u v zero top : Single) : List Single :=
  if u.isZero && v == top then [zero, top]
  else if u == top && v.isZero then [top, .zero]
  else if u.isZero then [zero, v]
  else [u, v]

/-- Sample ranges as they are read back. -/
def sentRanges : List Single → List Single → List Single
  | u :: v :: rest, zero :: top :: usual => sentRange u v zero top ++ sentRanges rest usual
  | _, _ => []

def sentRect (h : ImageHeader) (r : Rect) : Rect :=
  .ofCorners (Word.wrap32 r.x1) (Word.wrap32 r.y1)
    (Word.wrap32 (h.width - Word.wrap32 (h.width - r.x2)))
    (Word.wrap32 (h.height - Word.wrap32 (h.height - r.y2)))

def sent (h : ImageHeader) (cs : ColorSpace) : ImageHeader :=
  { h with
    bitsPerComponent := if h.mask then 1 else h.bitsPerComponent
    alpha := UInt8.ofNat (h.alpha.toNat % 4)
    matrix := if h.matrix == defaultMatrix h.width h.height then defaultMatrix h.width h.height
      else h.matrix.sent
    decode := h.decode.bind fun ranges =>
      if ranges == h.defaultDecode cs then none else some (sentRanges ranges (h.defaultDecode cs))
    rect := h.rect.map h.sentRect }

@[simp] theorem sent_planes {h : ImageHeader} (hmask : h.mask = true → h.bitsPerComponent = 1)
    (cs : ColorSpace) : (h.sent cs).planes cs = h.planes cs := by
  have hbits : (h.sent cs).bitsPerComponent = h.bitsPerComponent := by
    show (if h.mask = true then 1 else h.bitsPerComponent) = h.bitsPerComponent
    split
    · next hm => exact (hmask hm).symm
    · rfl
  have hcomponents : (h.sent cs).components cs = h.components cs := rfl
  have hformat : (h.sent cs).format = h.format := rfl
  rw [planes, planes, hformat, hcomponents, hbits]

/-- What the first byte of a header says is found in it. -/
theorem headerFlags_bits {code : Nat} (hcode : code < 6) (layout matrix ranges adjust rect : Bool)
    {flags : Nat} (hflags : flags = code * 32 + (if layout then 16 else 0) +
      (if matrix then 8 else 0) + (if ranges then 4 else 0) + (if adjust then 2 else 0) +
      (if rect then 1 else 0)) :
    (UInt8.ofNat flags).toNat = flags ∧ flags / 32 = code ∧ flags.testBit 4 = layout ∧
      flags.testBit 3 = matrix ∧ flags.testBit 2 = ranges ∧ flags.testBit 1 = adjust ∧
      flags.testBit 0 = rect := by
  subst hflags
  interval_cases code <;> cases layout <;> cases matrix <;> cases ranges <;> cases adjust <;>
    cases rect <;> exact ⟨rfl, rfl, rfl, rfl, rfl, rfl, rfl⟩

/-- What the byte of the layout says is found in it. -/
theorem layoutByte_bits (format : ImageFormat) (interpolate : Bool) (alpha : UInt8) {b : UInt8}
    (hb : b = UInt8.ofNat (format.code.toNat * 64 + (if interpolate then 32 else 0) +
      alpha.toNat % 4 * 8)) :
    ImageFormat.ofCode (b >>> 6) = .ok format ∧ (b &&& 0x20 != 0) = interpolate ∧
      (b >>> 3) &&& 3 = UInt8.ofNat (alpha.toNat % 4) := by
  obtain ⟨a, ha⟩ : ∃ a, a = alpha.toNat % 4 := ⟨_, rfl⟩
  have hlt : a < 4 := ha ▸ Nat.mod_lt _ (by norm_num)
  rw [← ha] at hb ⊢
  subst hb
  interval_cases a <;> cases format <;> cases interpolate <;> exact ⟨rfl, rfl, rfl⟩

variable {σ : Type} [ByteSource σ] [LawfulSource σ]

/-- The bits of all ranges: two for each, and none after them. -/
theorem encodeRange_lt (u v top : Single) : (encodeRange u v top).1 < 4 := by
  rw [encodeRange]
  split
  · norm_num
  · split
    · norm_num
    · split <;> norm_num

/-- A range is announced by its two bits. -/
theorem decodes_range (u v zero top : Single) {flags : Nat}
    (hflags : flags / 64 % 4 = (encodeRange u v top).1) {usual : List Single} {bytes : List UInt8}
    {rest : List Single} (hrest : Decodes (decodeRanges (flags * 4) usual : Decoder σ _) bytes rest) :
    Decodes (decodeRanges flags (zero :: top :: usual) : Decoder σ (List Single))
      ((encodeRange u v top).2 ++ bytes) (sentRange u v zero top ++ rest) := by
  by_cases husual : (u.isZero && v == top) = true
  · rw [decodeRanges, hflags, encodeRange, if_pos husual, sentRange, if_pos husual]
    exact .pure_bind (hrest.bind_pure (f := ([zero, top] ++ ·)))
  by_cases hreversed : (u == top && v.isZero) = true
  · rw [decodeRanges, hflags, encodeRange, if_neg husual, if_pos hreversed, sentRange,
      if_neg husual, if_pos hreversed]
    exact .pure_bind (hrest.bind_pure (f := ([top, .zero] ++ ·)))
  by_cases hupper : u.isZero = true
  · rw [decodeRanges, hflags, encodeRange, if_neg husual, if_neg hreversed, if_pos hupper, sentRange,
      if_neg husual, if_neg hreversed, if_pos hupper]
    exact .bind (Operand.decodes_single v) (.pure_bind (hrest.bind_pure (f := ([zero, v] ++ ·))))
  · rw [decodeRanges, hflags, encodeRange, if_neg husual, if_neg hreversed, if_neg hupper, sentRange,
      if_neg husual, if_neg hreversed, if_neg hupper]
    have hboth : Decodes (Operand.many Operand.single 2 : Decoder σ (List Single))
        (u.toBytes ++ v.toBytes) [u, v] :=
      (@Operand.decodes_many _ _ _ _ _ Single.toBytes [u, v]
        (fun a _ => Operand.decodes_single a) 2 rfl).of_eq (by simp)
    exact .bind hboth (hrest.bind_pure (f := ([u, v] ++ ·)))

/-- Pairs of ranges, of which there are at most four, are read back from the high bits of a byte. -/
theorem decodes_ranges {n : Nat} {ranges usual : List Single} (hn : n ≤ 4)
    (hranges : ranges.length = 2 * n) (husual : usual.length = 2 * n) :
    (encodeRanges ranges usual).1 < 256 ∧ (encodeRanges ranges usual).1 % 4 ^ (4 - n) = 0 ∧
      ∀ m, Decodes (decodeRanges (m * 256 + (encodeRanges ranges usual).1) usual :
          Decoder σ (List Single))
        (encodeRanges ranges usual).2 (sentRanges ranges usual) := by
  induction n generalizing ranges usual with
  | zero =>
    obtain rfl := List.eq_nil_of_length_eq_zero hranges
    obtain rfl := List.eq_nil_of_length_eq_zero husual
    refine ⟨by simp [encodeRanges], by simp [encodeRanges], fun m => ?_⟩
    rw [encodeRanges, sentRanges, decodeRanges]
    · exact .pure []
    all_goals simp
  | succ n ih =>
    obtain ⟨u, ranges, rfl⟩ := List.exists_cons_of_length_eq_add_one
      (show ranges.length = 2 * n + 1 + 1 by omega)
    obtain ⟨v, ranges, rfl⟩ := List.exists_cons_of_length_eq_add_one
      (show ranges.length = 2 * n + 1 by simp only [List.length_cons] at hranges; omega)
    obtain ⟨zero, usual, rfl⟩ := List.exists_cons_of_length_eq_add_one
      (show usual.length = 2 * n + 1 + 1 by omega)
    obtain ⟨top, usual, rfl⟩ := List.exists_cons_of_length_eq_add_one
      (show usual.length = 2 * n + 1 by simp only [List.length_cons] at husual; omega)
    simp only [List.length_cons] at hranges husual
    obtain ⟨hlt, hmod, hrest⟩ := @ih ranges usual (by omega) (by omega) (by omega)
    have hfirst := encodeRange_lt u v top
    obtain ⟨flags, hflags⟩ : ∃ flags, flags = (encodeRanges ranges usual).1 := ⟨_, rfl⟩
    rw [← hflags] at hlt hmod hrest
    have hfour : flags % 4 = 0 := by
      have : 4 ∣ 4 ^ (4 - n) := dvd_pow_self 4 (by omega)
      exact Nat.mod_eq_zero_of_dvd (this.trans (Nat.dvd_of_mod_eq_zero hmod))
    have hcode : (encodeRanges (u :: v :: ranges) (zero :: top :: usual)).1 =
        (encodeRange u v top).1 * 64 + flags / 4 := by
      rw [encodeRanges, hflags]
    rw [hcode]
    refine ⟨by omega, ?_, fun m => ?_⟩
    · have hfew : n = 0 ∨ n = 1 ∨ n = 2 ∨ n = 3 := by omega
      rcases hfew with rfl | rfl | rfl | rfl <;> norm_num at hmod ⊢ <;> omega
    · rw [encodeRanges, sentRanges]
      refine decodes_range u v zero top (by omega) ?_
      have := hrest (m * 4 + (encodeRange u v top).1)
      have heq : (m * 256 + ((encodeRange u v top).1 * 64 + flags / 4)) * 4 =
        (m * 4 + (encodeRange u v top).1) * 256 + flags := by omega
      rw [heq]
      exact this

/-- A color has at most four components. -/
theorem length_defaultDecode (h : ImageHeader) (cs : ColorSpace) :
    ∃ n ≤ 4, (h.defaultDecode cs).length = 2 * n := by
  have hfour : h.components cs ≤ 4 := by
    rw [components, ColorSpace.components]
    split
    · norm_num
    · split
      · norm_num
      · cases cs.base <;> simp [ColorModel.components]
  rw [defaultDecode]
  split
  · exact ⟨1, by norm_num, rfl⟩
  · refine ⟨h.components cs, hfour, ?_⟩
    rw [List.length_flatten, List.map_replicate, List.sum_replicate, smul_eq_mul, mul_comm]
    rfl

/-- The sample ranges are read back from the byte in front of them. -/
theorem decodes_decodeBytes {h : ImageHeader} {cs : ColorSpace} {bytes : Option (List UInt8)}
    (hbytes : h.decodeBytes cs = .ok bytes) :
    bytes = none ∧ (h.sent cs).decode = none ∨
      ∃ flags rest ranges, bytes = some (flags :: rest) ∧ (h.sent cs).decode = some ranges ∧
        Decodes (decodeRanges flags.toNat (h.defaultDecode cs) : Decoder σ _) rest ranges := by
  have hsent : (h.sent cs).decode = h.decode.bind fun ranges =>
    if ranges == h.defaultDecode cs then none else some (sentRanges ranges (h.defaultDecode cs)) :=
    rfl
  rw [hsent]
  rw [decodeBytes] at hbytes
  cases hdecode : h.decode with
  | none =>
    rw [hdecode] at hbytes
    cases hbytes
    exact .inl ⟨rfl, rfl⟩
  | some ranges =>
    rw [hdecode] at hbytes
    dsimp only at hbytes
    split at hbytes
    · cases hbytes
    · next hlength =>
      obtain ⟨n, hn, husual⟩ := h.length_defaultDecode cs
      have hranges : ranges.length = 2 * n := (not_not.mp hlength).trans husual
      split at hbytes
      · next hsame =>
        cases hbytes
        exact .inl ⟨rfl, if_pos hsame⟩
      · next hdiffers =>
        cases hbytes
        obtain ⟨hlt, -, hread⟩ := decodes_ranges (σ := σ) hn hranges husual
        refine .inr ⟨_, _, _, rfl, if_neg hdiffers, ?_⟩
        rw [UInt8.toNat_ofNat', Nat.mod_eq_of_lt (by omega)]
        have := hread 0
        rw [Nat.zero_mul, Nat.zero_add] at this
        exact this

/-- The code of the sample size stands for it. -/
theorem sampleSizes_sampleCode {h : ImageHeader} {code : Nat} (hcode : h.sampleCode = .ok code)
    (cs : ColorSpace) :
    code < 6 ∧ sampleSizes[code]? = some (h.sent cs).bitsPerComponent ∧
      decide (code = 0) = h.mask := by
  have hbits : (h.sent cs).bitsPerComponent = if h.mask then 1 else h.bitsPerComponent := rfl
  rw [sampleCode] at hcode
  rw [hbits]
  split at hcode
  · next hmask =>
    cases hcode
    rw [if_pos hmask, hmask]
    exact ⟨by norm_num, rfl, rfl⟩
  · next hmask =>
    rw [if_neg hmask, Bool.not_eq_true _ |>.mp hmask]
    split at hcode <;> cases hcode <;> next hb => exact ⟨by norm_num, by rw [hb]; rfl, rfl⟩

/-- What goes on with the supplied part, if there is one. -/
theorem decodes_rect {α : Type} (h : ImageHeader) (f : Option Rect → α) :
    Decodes (if h.rect.isSome = true then do
        let x1 ← Varint.decodeInt
        let y1 ← Varint.decodeInt
        let right ← Varint.decodeInt
        let bottom ← Varint.decodeInt
        let rect ← pure (some (Rect.ofCorners x1 y1 (Word.wrap32 (h.width - right))
          (Word.wrap32 (h.height - bottom))))
        pure (f rect)
      else do
        let rect ← pure none
        pure (f rect) : Decoder σ α)
      ((h.rect.map h.encodeRect).getD []) (f (h.rect.map h.sentRect)) := by
  cases h.rect with
  | none => exact .pure (f none)
  | some r =>
    show Decodes _ (h.encodeRect r) _
    rw [encodeRect, List.append_assoc, List.append_assoc]
    exact .bind (Varint.decodes_int _) (.bind (Varint.decodes_int _)
      (.bind (Varint.decodes_int _) ((Varint.decodes_int _).bind_pure)))

/-- What goes on with an operand that is only there if a flag says so. -/
theorem decodes_optional {α β : Type} {flag : Bool} {d : Decoder σ α} {usual a : α}
    {f : α → Decoder σ β} {k l : List UInt8} {b : β}
    (h : Decodes (if flag then d else pure usual : Decoder σ α) k a) (hf : Decodes (f a) l b) :
    Decodes (if flag = true then d >>= f else pure usual >>= f) (k ++ l) b := by
  cases flag
  · exact .bind h hf
  · exact .bind h hf

/-- The layout is read back. -/
theorem decodes_layout (h : ImageHeader) :
    ∃ layout, Decodes (if h.layoutByte.isSome then nextByte else pure 0 : Decoder σ UInt8)
        h.layoutByte.toList layout ∧
      ImageFormat.ofCode (layout >>> 6) = .ok h.format ∧ (layout &&& 0x20 != 0) = h.interpolate ∧
      (layout >>> 3) &&& 3 = UInt8.ofNat (h.alpha.toNat % 4) := by
  by_cases husual : (h.format ≠ .chunky || h.interpolate || h.alpha != 0) = true
  · rw [layoutByte, if_pos husual]
    exact ⟨_, .nextByte _, layoutByte_bits h.format h.interpolate h.alpha rfl⟩
  · rw [layoutByte, if_neg husual]
    simp only [Bool.or_eq_true, decide_eq_true_eq, not_or, not_not, bne_iff_ne,
      Bool.not_eq_true] at husual
    obtain ⟨⟨hformat, hinterpolate⟩, halpha⟩ := husual
    refine ⟨0, .pure 0, ?_⟩
    rw [hformat, hinterpolate, halpha]
    exact ⟨rfl, rfl, rfl⟩

/-- The matrix is read back. -/
theorem decodes_matrix (h : ImageHeader) (cs : ColorSpace) :
    Decodes (if (!(h.matrix == defaultMatrix h.width h.height)) then Matrix.decode
        else pure (defaultMatrix h.width h.height) : Decoder σ Matrix)
      (if h.matrix == defaultMatrix h.width h.height then [] else h.matrix.encode)
      (h.sent cs).matrix := by
  show Decodes _ _ (if h.matrix == defaultMatrix h.width h.height then
    defaultMatrix h.width h.height else h.matrix.sent)
  cases h.matrix == defaultMatrix h.width h.height
  · exact Matrix.decodes_encode h.matrix
  · exact .pure _

/-- The usual ranges depend on the kind of image and the size of its samples only. -/
theorem defaultDecode_sent (h : ImageHeader) (cs : ColorSpace) {h' : ImageHeader}
    (hmask : h'.mask = h.mask) (hbits : h'.bitsPerComponent = (h.sent cs).bitsPerComponent) :
    h'.defaultDecode cs = h.defaultDecode cs := by
  have hcomponents : h'.components cs = h.components cs := by rw [components, components, hmask]
  rw [defaultDecode, defaultDecode, hmask, hcomponents, hbits]
  cases hm : h.mask
  · have hsame : (h.sent cs).bitsPerComponent = h.bitsPerComponent := by
      show (if h.mask = true then 1 else h.bitsPerComponent) = _
      rw [hm]
      rfl
    rw [hsame]
  · rfl

/-- Every header is read back for the space that it was sent for. -/
theorem decodes_encode {h : ImageHeader} {cs : ColorSpace} {bytes : List UInt8}
    (hbytes : h.encode cs = .ok bytes) (hwidth : h.width < 4294967296)
    (hheight : h.height < 4294967296) :
    Decodes (decodeFor cs : Decoder σ ImageHeader) bytes (h.sent cs) := by
  rw [encode] at hbytes
  cases hcode : h.sampleCode with
  | error e =>
    rw [hcode] at hbytes
    cases hbytes
  | ok code =>
    cases hranges : h.decodeBytes cs with
    | error e =>
      rw [hcode, hranges] at hbytes
      cases hbytes
    | ok ranges =>
      rw [hcode, hranges] at hbytes
      cases hbytes
      obtain ⟨hlt, hsize, hmask⟩ := sampleSizes_sampleCode hcode cs
      obtain ⟨flags, hflags⟩ : ∃ flags, flags = code * 32 + (if h.layoutByte.isSome then 16 else 0) +
        (if h.matrix == defaultMatrix h.width h.height then 0 else 8) +
        (if ranges.isSome then 4 else 0) + (if h.adjust then 2 else 0) +
        (if h.rect.isSome then 1 else 0) := ⟨_, rfl⟩
      rw [← hflags]
      obtain ⟨hnat, hcode', hlayout', hmatrix', hranges', hadjust', hrect'⟩ :=
        headerFlags_bits hlt h.layoutByte.isSome (!(h.matrix == defaultMatrix h.width h.height))
          ranges.isSome h.adjust h.rect.isSome (hflags.trans
            (by cases h.matrix == defaultMatrix h.width h.height <;> rfl))
      obtain ⟨layout, hlayout, hformat, hinterpolate, halpha⟩ := decodes_layout (σ := σ) h
      refine Decodes.of_eq (?_ : Decodes _ ([UInt8.ofNat flags] ++ (h.layoutByte.toList ++
        (Varint.encode h.width ++ (Varint.encode h.height ++
          ((if h.matrix == defaultMatrix h.width h.height then [] else h.matrix.encode) ++
            (ranges.getD [] ++ (h.rect.map h.encodeRect).getD [])))))) _)
        (by simp only [List.append_assoc]; rfl)
      rw [decodeFor]
      refine .bind (.nextByte _) ?_
      rw [hnat]
      simp only [hcode', hsize, hlayout', hmatrix', hranges', hadjust', hrect', hmask]
      refine decodes_optional hlayout (.lift_bind hformat ?_)
      refine .bind (Varint.decodes hwidth) (.bind (Varint.decodes hheight) ?_)
      refine decodes_optional (decodes_matrix h cs) ?_
      have hheader : h.sent cs =
          { width := h.width, height := h.height, bitsPerComponent := (h.sent cs).bitsPerComponent
            mask := h.mask, format := h.format, interpolate := layout &&& 0x20 != 0
            alpha := (layout >>> 3) &&& 3, matrix := (h.sent cs).matrix
            decode := (h.sent cs).decode, adjust := h.adjust, rect := h.rect.map h.sentRect } := by
        rw [hinterpolate, halpha]
        rfl
      rw [hheader]
      rcases decodes_decodeBytes (σ := σ) hranges with
        ⟨rfl, hdecode⟩ | ⟨first, rest, given, rfl, hdecode, hread⟩
      · rw [hdecode]
        exact decodes_rect h _
      · rw [hdecode]
        refine Decodes.bind (k := [first]) (.nextByte first) (.bind ?_ (decodes_rect h _))
        rw [h.defaultDecode_sent cs]
        · exact hread
        · rfl
        · rfl

/-! ### What may differ -/

/-- `back` may be what is read back for `h`: it differs in nothing but signs of zeros, and in sample
ranges that need not be sent since they are the usual ones. -/
structure ReadFrom (cs : ColorSpace) (back h : ImageHeader) : Prop where
  settings : back = { h with matrix := back.matrix, decode := back.decode }
  matrix : back.matrix.EqOrZeros h.matrix
  decode : Option.Rel (List.Forall₂ Single.EqOrZeros) back.decode
    (h.decode.filter fun ranges => !(ranges == h.defaultDecode cs))

/-- Corners of 32 bits, the near one in front of the far one. -/
structure SortedCorners (r : Rect) : Prop where
  x1 : Word.fits32 r.x1 = true
  y1 : Word.fits32 r.y1 = true
  x2 : Word.fits32 r.x2 = true
  y2 : Word.fits32 r.y2 = true
  width : r.x1 ≤ r.x2
  height : r.y1 ≤ r.y2

/-- The usual ranges all begin at zero. -/
theorem exists_tops (h : ImageHeader) (cs : ColorSpace) :
    ∃ tops : List Single, h.defaultDecode cs = tops.flatMap fun top => [.zero, top] := by
  rw [defaultDecode]
  split
  · exact ⟨[_], rfl⟩
  · refine ⟨List.replicate (h.components cs) .one, ?_⟩
    rw [List.flatMap_def, List.map_replicate]

/-- A range is read back to the bit, but for the signs of zeros. -/
theorem exists_sentRange (u v top : Single) :
    ∃ u' v', sentRange u v .zero top = [u', v'] ∧ u'.EqOrZeros u ∧ v'.EqOrZeros v := by
  rw [sentRange]
  split
  · next husual =>
    obtain ⟨hu, hv⟩ := Bool.and_eq_true_iff.mp husual
    exact ⟨_, _, rfl, .inr ⟨rfl, hu⟩, (Single.EqOrZeros.of_beq hv).symm⟩
  split
  · next hreversed =>
    obtain ⟨hu, hv⟩ := Bool.and_eq_true_iff.mp hreversed
    exact ⟨_, _, rfl, (Single.EqOrZeros.of_beq hu).symm, .inr ⟨rfl, hv⟩⟩
  split
  · next hu => exact ⟨_, _, rfl, .inr ⟨rfl, hu⟩, .refl v⟩
  · exact ⟨_, _, rfl, .refl u, .refl v⟩

theorem forall₂_sentRanges {tops ranges : List Single} (hlength : ranges.length = 2 * tops.length) :
    List.Forall₂ Single.EqOrZeros (sentRanges ranges (tops.flatMap fun top => [.zero, top]))
      ranges := by
  induction tops generalizing ranges with
  | nil =>
    obtain rfl := List.eq_nil_of_length_eq_zero hlength
    exact .nil
  | cons top tops ih =>
    match ranges, hlength with
    | u :: v :: ranges, hlength =>
      obtain ⟨u', v', hrange, hu, hv⟩ := exists_sentRange u v top
      rw [List.flatMap_cons, List.cons_append, List.cons_append, List.nil_append, sentRanges, hrange]
      refine .cons hu (.cons hv (ih ?_))
      simp only [List.length_cons] at hlength
      omega

theorem sentRect_eq (h : ImageHeader) {r : Rect} (hr : SortedCorners r) : h.sentRect r = r := by
  rw [sentRect, Word.wrap32_sub_wrap32, Word.wrap32_sub_wrap32, Word.wrap32_of_fits32 hr.x1,
    Word.wrap32_of_fits32 hr.y1, Word.wrap32_of_fits32 hr.x2, Word.wrap32_of_fits32 hr.y2,
    Rect.ofCorners, min_eq_left hr.width, min_eq_left hr.height, max_eq_right hr.width,
    max_eq_right hr.height]

theorem settings_sent {h : ImageHeader} (cs : ColorSpace) (halpha : h.alpha ≤ 3)
    (hmask : h.mask = true → h.bitsPerComponent = 1) (hrect : ∀ r ∈ h.rect, SortedCorners r) :
    h.sent cs = { h with matrix := (h.sent cs).matrix, decode := (h.sent cs).decode } := by
  have hbits : (if h.mask then 1 else h.bitsPerComponent) = h.bitsPerComponent := by
    split
    · next hm => exact (hmask hm).symm
    · rfl
  have hfour : h.alpha.toNat < 4 := Nat.lt_succ_of_le (UInt8.le_iff_toNat_le.mp halpha)
  have halpha' : UInt8.ofNat (h.alpha.toNat % 4) = h.alpha := by
    rw [Nat.mod_eq_of_lt hfour, UInt8.ofNat_toNat]
  have hrect' : h.rect.map h.sentRect = h.rect := by
    cases hr : h.rect with
    | none => rfl
    | some r => exact congrArg some (h.sentRect_eq (hrect r hr))
  simp only [sent, hbits, halpha', hrect']

theorem eqOrZeros_sent_matrix (h : ImageHeader) (cs : ColorSpace) :
    (h.sent cs).matrix.EqOrZeros h.matrix := by
  show (if h.matrix == defaultMatrix h.width h.height then defaultMatrix h.width h.height
    else h.matrix.sent).EqOrZeros h.matrix
  split
  · next husual => exact (Matrix.EqOrZeros.of_beq husual).symm
  · exact h.matrix.readFrom_sent.eqOrZeros

/-- Only headers with the right number of sample ranges are sent. -/
theorem length_of_encode {h : ImageHeader} {cs : ColorSpace} {bytes : List UInt8}
    (hbytes : h.encode cs = .ok bytes) {ranges : List Single} (hranges : h.decode = some ranges) :
    ranges.length = (h.defaultDecode cs).length := by
  by_contra hlength
  have hrefused : h.decodeBytes cs = .error (.malformed
      s!"decode array of {ranges.length} values, {(h.defaultDecode cs).length} expected") := by
    rw [decodeBytes, hranges]
    exact if_pos hlength
  rw [encode, hrefused] at hbytes
  cases hcode : h.sampleCode with
  | error e =>
    rw [hcode] at hbytes
    cases hbytes
  | ok code =>
    rw [hcode] at hbytes
    cases hbytes

theorem rel_sent_decode {h : ImageHeader} {cs : ColorSpace} {bytes : List UInt8}
    (hbytes : h.encode cs = .ok bytes) :
    Option.Rel (List.Forall₂ Single.EqOrZeros) (h.sent cs).decode
      (h.decode.filter fun ranges => !(ranges == h.defaultDecode cs)) := by
  show Option.Rel _ (h.decode.bind fun ranges =>
    if ranges == h.defaultDecode cs then none else some (sentRanges ranges (h.defaultDecode cs))) _
  cases hranges : h.decode with
  | none => exact .none
  | some ranges =>
    have hlength := length_of_encode hbytes hranges
    rw [Option.bind_some, Option.filter_some]
    cases ranges == h.defaultDecode cs with
    | true => exact .none
    | false =>
      obtain ⟨tops, htops⟩ := h.exists_tops cs
      rw [htops] at hlength ⊢
      refine .some (forall₂_sentRanges ?_)
      rw [hlength]
      simp [mul_comm]

/-- Every header that can be sent is read back, whatever follows it. No bits of its numbers are lost but
signs of zeros, and sample ranges are left out if they are the usual ones. The corners of the supplied
part are sent as distances that may wrap, and wrap back. -/
theorem header_is_read_back {h : ImageHeader} {cs : ColorSpace} {bytes : List UInt8}
    (hbytes : h.encode cs = .ok bytes) (hwidth : h.width < 4294967296)
    (hheight : h.height < 4294967296) (halpha : h.alpha ≤ 3)
    (hmask : h.mask = true → h.bitsPerComponent = 1) (hrect : ∀ r ∈ h.rect, SortedCorners r) :
    ∃ back : ImageHeader, Decodes (decodeFor cs : Decoder σ ImageHeader) bytes back ∧
      back.ReadFrom cs h := by
  refine ⟨h.sent cs, decodes_encode hbytes hwidth hheight, ?_⟩
  exact ⟨settings_sent cs halpha hmask hrect, h.eqOrZeros_sent_matrix cs, rel_sent_decode hbytes⟩

/-- Every optional part is there: the matrix holds a NaN and negative zeros, and the sample ranges take
each of the four forms. -/
theorem planar_header_is_read_back :
    ∃ back c, decodeFor { base := .cmyk } (Cursor.ofList [159, 120, 172, 2, 2, 200, 1, 0, 192, 127,
          0, 0, 128, 63, 0, 0, 128, 63, 27, 0, 0, 0, 64, 0, 0, 0, 63, 1, 0, 192, 127,
          255, 255, 255, 255, 15, 0, 0, 0, 77]) = .ok back c ∧ c.rest = [77] ∧
      back.ReadFrom { base := .cmyk }
        { width := 300, height := 2, bitsPerComponent := 8, format := .componentPlanar
          interpolate := true, alpha := 3
          matrix := ⟨⟨0x7fc00001⟩, .zero, .negZero, .one, .one, .negZero⟩
          decode := some [.negZero, .one, .one, .zero, .zero, ⟨0x40000000⟩, ⟨0x3f000000⟩, ⟨0x7fc00001⟩]
          adjust := true, rect := some ⟨-1, 0, 300, 2⟩ } := by
  have hmatrix : ((⟨⟨0x7fc00001⟩, .zero, .negZero, .one, .one, .negZero⟩ : Matrix) ==
      defaultMatrix 300 2) = false := rfl
  have hbytes : encode
      { width := 300, height := 2, bitsPerComponent := 8, format := .componentPlanar
        interpolate := true, alpha := 3
        matrix := ⟨⟨0x7fc00001⟩, .zero, .negZero, .one, .one, .negZero⟩
        decode := some [.negZero, .one, .one, .zero, .zero, ⟨0x40000000⟩, ⟨0x3f000000⟩, ⟨0x7fc00001⟩]
        adjust := true, rect := some ⟨-1, 0, 300, 2⟩ } { base := .cmyk } =
      .ok [159, 120, 172, 2, 2, 200, 1, 0, 192, 127, 0, 0, 128, 63, 0, 0, 128, 63, 27, 0, 0, 0, 64,
        0, 0, 0, 63, 1, 0, 192, 127, 255, 255, 255, 255, 15, 0, 0, 0] := by
    rw [encode]
    dsimp only
    rw [hmatrix]
    cbv
  have hcorners : ∀ r ∈ some (⟨-1, 0, 300, 2⟩ : Rect), SortedCorners r := by
    intro r hr
    obtain rfl := Option.mem_some_iff.mp hr
    exact ⟨rfl, rfl, rfl, rfl, by decide, by decide⟩
  obtain ⟨back, hread, hback⟩ := header_is_read_back (σ := Cursor) hbytes (by decide) (by decide)
    (by decide) (by decide) hcorners
  obtain ⟨c, hc, hrest⟩ := hread (Cursor.ofList _) [77] rfl
  exact ⟨back, c, hc, hrest, hback⟩

end BandedPage.ImageHeader
