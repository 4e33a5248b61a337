import Mathlib
import BandedPage.Bits.Basic

/-!
# Reading, setting and copying bits

A bit is one of the eight of its byte, so setting one leaves every other alone, and bytes are known
by their bits. Bytes that are written into others and bits that are copied are then as they were
given, and everything else is as before.
-/

namespace BandedPage.Bits

theorem and_maskOf (b : UInt8) (i : Nat) : (b &&& maskOf i != 0) = b.toNat.testBit (7 - i % 8) := by
  have h : ∀ b < 256, ∀ i < 8, (UInt8.ofNat b &&& (0x80 >>> UInt8.ofNat i) != 0) =
      b.testBit (7 - i) := by
    decide +kernel
  have := h b.toNat b.toNat_lt (i % 8) (Nat.mod_lt i (by norm_num))
  rwa [UInt8.ofNat_toNat] at this

theorem get_eq_testBit (data : Bytes) (i : Nat) :
    get data i = (data[i / 8]?.getD 0).toNat.testBit (7 - i % 8) := and_maskOf _ i

@[simp] theorem toNat_maskOf (i : Nat) : (maskOf i).toNat = 2 ^ (7 - i % 8) := by
  have h : ∀ i < 8, ((0x80 : UInt8) >>> UInt8.ofNat i).toNat = 2 ^ (7 - i) := by decide
  exact h (i % 8) (Nat.mod_lt i (by norm_num))

@[simp] theorem size_set (data : Bytes) (i : Nat) (on : Bool) : (set data i on).size = data.size :=
  Array.size_modify

/-- Setting a bit changes no other. -/
theorem get_set_true (data : Bytes) (i j : Nat) :
    get (set data i true) j = ((decide (i = j) && decide (i / 8 < data.size)) || get data j) := by
  rw [get_eq_testBit, get_eq_testBit, set, Array.getElem?_modify]
  by_cases hbyte : i / 8 = j / 8
  · rw [if_pos hbyte]
    by_cases hsize : i / 8 < data.size
    · rw [hbyte] at hsize
      simp only [Array.getElem?_eq_getElem hsize, Option.map_some, Option.getD_some, if_true,
        UInt8.toNat_or, Nat.testBit_or, toNat_maskOf, Nat.testBit_two_pow, hbyte, hsize,
        decide_true, Bool.and_true]
      rw [Bool.or_comm]
      congr 1
      rw [Bool.eq_iff_iff, decide_eq_true_iff, decide_eq_true_iff]
      omega
    · have hnone : data[j / 8]? = none := Array.getElem?_eq_none (by omega)
      simp [hnone, hsize]
  · have hne : i ≠ j := by
      rintro rfl
      exact hbyte rfl
    rw [if_neg hbyte]
    simp [hne]

/-- Bytes are known by their bits. -/
theorem ext_get {data data' : Bytes} (hsize : data.size = data'.size)
    (h : ∀ i < data.size * 8, get data i = get data' i) : data = data' := by
  apply Array.ext hsize
  intro k hk hk'
  apply UInt8.toNat_inj.mp
  apply Nat.eq_of_testBit_eq
  intro i
  by_cases hi : i < 8
  · have := h (k * 8 + (7 - i)) (by omega)
    rw [get_eq_testBit, get_eq_testBit] at this
    have hdiv : (k * 8 + (7 - i)) / 8 = k := by omega
    have hmod : 7 - (k * 8 + (7 - i)) % 8 = i := by omega
    rw [hdiv, hmod, Array.getElem?_eq_getElem hk, Array.getElem?_eq_getElem hk'] at this
    exact this
  · have hpow : 256 ≤ 2 ^ i := by
      calc 256 = 2 ^ 8 := rfl
        _ ≤ 2 ^ i := Nat.pow_le_pow_right (by norm_num) (by omega)
    rw [Nat.testBit_lt_two_pow (lt_of_lt_of_le data[k].toNat_lt hpow),
      Nat.testBit_lt_two_pow (lt_of_lt_of_le data'[k].toNat_lt hpow)]

@[simp] theorem get_replicate_zero (n i : Nat) : get (Array.replicate n 0) i = false := by
  rw [get_eq_testBit]
  by_cases h : i / 8 < n
  · simp [h]
  · simp [h]

end BandedPage.Bits

/-!
## Overwriting bytes

`Bits.overwrite` as a cut through the list of bytes: what stands before and behind the new bytes
stays, and bytes that fall behind the end are dropped.
-/

namespace BandedPage.Bits

@[simp] theorem size_overwrite (data : Bytes) (start : Nat) (bytes : List UInt8) :
    (overwrite data start bytes).size = data.size := by
  induction bytes generalizing data start with
  | nil => rfl
  | cons b bytes ih => simp [overwrite, ih]

@[simp] theorem getElem?_overwrite (data : Bytes) (start : Nat) (bytes : List UInt8) (i : Nat) :
    (overwrite data start bytes)[i]? =
      if start ≤ i ∧ i < start + bytes.length ∧ i < data.size then bytes[i - start]? else data[i]? := by
  induction bytes generalizing data start with
  | nil =>
    rw [if_neg (by simp; omega)]
    rfl
  | cons b bytes ih =>
    rw [overwrite, ih]
    simp only [Array.size_setIfInBounds, List.length_cons]
    by_cases hi : start = i
    · subst hi
      rw [if_neg (by omega)]
      by_cases hs : start < data.size
      · rw [if_pos (by omega)]
        simp [hs]
      · rw [if_neg (by omega)]
        simp [hs]
    · by_cases hs : start + 1 ≤ i ∧ i < start + 1 + bytes.length ∧ i < data.size
      · rw [if_pos hs, if_pos (by omega)]
        obtain ⟨k, rfl⟩ : ∃ k, i = start + 1 + k := ⟨i - (start + 1), by omega⟩
        simp [show start + 1 + k - start = k + 1 by omega]
      · rw [if_neg hs, if_neg (by omega)]
        simp [hi]

/-- Bytes written inside the data replace as many bytes there. -/
theorem toList_overwrite {data : Bytes} {start : Nat} {bytes : List UInt8}
    (h : start + bytes.length ≤ data.size) :
    (overwrite data start bytes).toList =
      data.toList.take start ++ bytes ++ data.toList.drop (start + bytes.length) := by
  apply List.ext_getElem?
  intro i
  have key := getElem?_overwrite data start bytes i
  rw [Array.getElem?_toList, key]
  by_cases h₁ : i < start
  · rw [if_neg (by omega), List.append_assoc, List.getElem?_append_left (by simp; omega)]
    simp [h₁]
  · by_cases h₂ : i < start + bytes.length
    · rw [if_pos (by omega), List.append_assoc, List.getElem?_append_right (by simp; omega),
        List.getElem?_append_left (by simp; omega)]
      congr 1
      simp
      omega
    · rw [if_neg (by omega), List.getElem?_append_right (by simp; omega)]
      simp only [List.length_append, List.length_take, Array.length_toList, List.getElem?_drop,
        Array.getElem?_toList]
      congr 1
      omega

/-- The bytes just written, read back. -/
theorem extract_overwrite {data : Bytes} {start : Nat} {bytes : List UInt8}
    (h : start + bytes.length ≤ data.size) :
    ((overwrite data start bytes).extract start (start + bytes.length)).toList = bytes := by
  rw [Array.toList_extract, toList_overwrite h, List.extract_eq_take_drop, List.append_assoc,
    List.drop_left' (by simp; omega), Nat.add_sub_cancel_left, List.take_left' rfl]

/-- Bytes beside the new ones are as before. -/
@[simp] theorem extract_overwrite_of_disjoint {data : Bytes} {start a b : Nat} {bytes : List UInt8}
    (h : b ≤ start ∨ start + bytes.length ≤ a) :
    (overwrite data start bytes).extract a b = data.extract a b := by
  apply Array.ext_getElem?
  intro i
  simp only [Array.getElem?_extract, size_overwrite]
  split
  · rw [getElem?_overwrite, if_neg (by omega)]
  · rfl

/-- Bytes that lie apart can be written in either order. -/
theorem overwrite_comm {data : Bytes} {start start' : Nat} {bytes bytes' : List UInt8}
    (h : start + bytes.length ≤ start' ∨ start' + bytes'.length ≤ start) :
    overwrite (overwrite data start bytes) start' bytes' =
      overwrite (overwrite data start' bytes') start bytes := by
  apply Array.ext_getElem?
  intro i
  simp only [getElem?_overwrite, size_overwrite]
  by_cases hi : start ≤ i ∧ i < start + bytes.length ∧ i < data.size
  · rw [if_pos hi, if_neg (by omega), if_pos hi]
  · rw [if_neg hi, if_neg hi]

@[simp] theorem size_copyEach (src : Bytes) (s : Nat) (dst : Bytes) (d n : Nat) :
    (copyEach src s dst d n).size = dst.size := by
  induction n generalizing s dst d with
  | zero => rfl
  | succ n ih => simp [copyEach, ih]

@[simp] theorem size_copy (src : Bytes) (s : Nat) (dst : Bytes) (d n : Nat) :
    (copy src s dst d n).size = dst.size := by
  rw [copy]
  split
  · exact size_overwrite ..
  · exact size_copyEach ..

/-- Bits that are copied one after another leave the size as it is. -/
@[simp]
theorem size_foldl_copy {ι : Type} (src : Bytes) (source place : ι → Nat) (n : Nat) (items : List ι)
    (dst : Bytes) :
    (items.foldl (fun dst k => copy src (source k) dst (place k) n) dst).size = dst.size := by
  induction items generalizing dst with
  | nil => rfl
  | cons k items ih => exact (ih _).trans (size_copy ..)

/-- Rows that were extracted have their short raster. -/
theorem size_of_extract {data out : Bytes} {raster x width rows : Nat}
    (h : extract data raster x width rows = .ok out) : out.size = shortRaster width * rows := by
  rw [extract] at h
  split at h
  · cases h
  · cases h
    split
    · next hzero => rw [hzero, Nat.zero_mul]; rfl
    · simp

end BandedPage.Bits

/-!
## Bits that were copied

Copied bits are those of the source, whether they were moved one by one or byte by byte, and all others
stay as they were. So rows that are taken out of a bitmap have the bits that they had there.
-/

namespace BandedPage.Bits

variable {data src dst out : Bytes}

/-- A bit that was set is as it was set, and all others are as they were. -/
theorem get_set {i : Nat} (hi : i / 8 < data.size) (j : Nat) (on : Bool) :
    get (set data i on) j = if j = i then on else get data j := by
  cases on with
  | true =>
    rw [get_set_true]
    by_cases hj : j = i
    · simp [hj, hi]
    · simp [hj, Ne.symm hj]
  | false =>
    rw [get_eq_testBit, get_eq_testBit, set, Array.getElem?_modify]
    by_cases hbyte : i / 8 = j / 8
    · rw [hbyte] at hi
      simp only [if_pos hbyte, Array.getElem?_eq_getElem hi, Option.map_some, Option.getD_some,
        Bool.false_eq_true, if_false]
      have hbits : (data[j / 8] &&& ~~~maskOf i).toNat.testBit (7 - j % 8) =
          (data[j / 8].toNat.testBit (7 - j % 8) && !decide (7 - i % 8 = 7 - j % 8)) := by
        have hnot : (~~~maskOf i).toNat.testBit (7 - j % 8) = !decide (7 - i % 8 = 7 - j % 8) := by
          have h : ∀ i < 8, ∀ k < 8, (~~~((0x80 : UInt8) >>> UInt8.ofNat i)).toNat.testBit k =
              !decide (7 - i = k) := by decide
          exact h (i % 8) (Nat.mod_lt i (by norm_num)) _ (by omega)
        rw [UInt8.toNat_and, Nat.testBit_and, hnot]
      rw [hbits]
      by_cases hj : j = i
      · simp [hj]
      · have hne : 7 - i % 8 ≠ 7 - j % 8 := by omega
        simp [hj, hne]
    · have hj : j ≠ i := by
        rintro rfl
        exact hbyte rfl
      rw [if_neg hbyte, if_neg hj]

theorem get_copyEach {s d n : Nat} (hroom : d + n ≤ dst.size * 8) (j : Nat) :
    get (copyEach src s dst d n) j =
      if d ≤ j ∧ j < d + n then get src (s + (j - d)) else get dst j := by
  induction n generalizing s dst d with
  | zero =>
    rw [if_neg (by omega)]
    rfl
  | succ n ih =>
    rw [copyEach, ih (by rw [size_set]; omega), get_set (by omega)]
    by_cases hj : j = d
    · subst hj
      rw [if_neg (by omega), if_pos rfl, if_pos (by omega), Nat.sub_self, Nat.add_zero]
    · rw [if_neg hj]
      by_cases hin : d + 1 ≤ j ∧ j < d + 1 + n
      · rw [if_pos hin, if_pos (by omega)]
        congr 1
        omega
      · rw [if_neg hin, if_neg (by omega)]

theorem get_copy {s d n : Nat} (hsrc : s + n ≤ src.size * 8) (hroom : d + n ≤ dst.size * 8)
    (j : Nat) :
    get (copy src s dst d n) j =
      if d ≤ j ∧ j < d + n then get src (s + (j - d)) else get dst j := by
  rw [copy]
  split
  · next hwhole =>
    simp only [Bool.and_eq_true, decide_eq_true_eq] at hwhole
    obtain ⟨⟨hs, hd⟩, hn⟩ := hwhole
    have hlength : (src.extract (s / 8) (s / 8 + n / 8)).toList.length = n / 8 := by
      rw [Array.length_toList, Array.size_extract]
      omega
    rw [get_eq_testBit, getElem?_overwrite, hlength]
    by_cases hin : d ≤ j ∧ j < d + n
    · have hbyte : s / 8 + (j / 8 - d / 8) = (s + (j - d)) / 8 := by omega
      have hbit : j % 8 = (s + (j - d)) % 8 := by omega
      rw [if_pos (by omega), if_pos hin, get_eq_testBit, Array.getElem?_toList,
        Array.getElem?_extract, if_pos (by omega), hbyte, hbit]
    · rw [if_neg (by omega), if_neg hin, get_eq_testBit]
  · exact get_copyEach hroom j

/-- Of copies that lie apart each has the bits of its source, in whatever order they are made. -/
theorem get_foldl_copy {ι : Type} (src dst : Bytes) (source place : ι → Nat) {n : Nat} {items : List ι}
    (hsrc : ∀ k ∈ items, source k + n ≤ src.size * 8) (hroom : ∀ k ∈ items, place k + n ≤ dst.size * 8)
    (hapart : ∀ k ∈ items, ∀ k' ∈ items, k = k' ∨ place k + n ≤ place k' ∨ place k' + n ≤ place k)
    {k : ι} (hk : k ∈ items) {i : Nat} (hi : i < n) :
    get (items.foldl (fun out k => copy src (source k) out (place k) n) dst) (place k + i) =
      get src (source k + i) := by
  induction items using List.reverseRecOn with
  | nil => cases hk
  | append_singleton items last ih =>
    have hlast : last ∈ items ++ [last] := List.mem_append_right _ (List.mem_singleton_self _)
    rw [List.foldl_append, List.foldl_cons, List.foldl_nil,
      get_copy (hsrc last hlast) ((size_foldl_copy src source place n items dst).symm ▸ hroom last hlast)]
    by_cases heq : k = last
    · subst heq
      rw [if_pos (by omega), Nat.add_sub_cancel_left]
    · have hdisjoint := (hapart k hk last hlast).resolve_left heq
      have hbefore : k ∈ items := by
        rcases List.mem_append.mp hk with hk | hk
        · exact hk
        · exact absurd (List.mem_singleton.mp hk) heq
      have hsub : ∀ k' ∈ items, k' ∈ items ++ [last] := fun _ => List.mem_append_left _
      rw [if_neg (by omega)]
      exact ih (fun k' hk' => hsrc k' (hsub k' hk')) (fun k' hk' => hroom k' (hsub k' hk'))
        (fun k' hk' k'' hk'' => hapart k' (hsub k' hk') k'' (hsub k'' hk'')) hbefore

theorem width_le_shortRaster (width : Nat) : width ≤ shortRaster width * 8 := by
  rw [shortRaster]
  omega

/-- The bits of rows that were taken out of a bitmap. -/
theorem get_extract {raster x width rows : Nat} (h : extract data raster x width rows = .ok out)
    {row i : Nat} (hrow : row < rows) (hi : i < width) :
    get out (row * shortRaster width * 8 + i) = get data (row * raster * 8 + (x + i)) := by
  have hshort := width_le_shortRaster width
  rw [extract] at h
  split at h
  · cases h
  next hsize =>
  dsimp only at h
  rw [if_neg (by omega)] at h
  cases h
  rw [extent, if_neg (by omega)] at hsize
  rw [← Nat.add_assoc]
  refine get_foldl_copy data _ (fun y => y * raster * 8 + x) (fun y => y * shortRaster width * 8)
    (fun k hk => ?_) (fun k hk => ?_) (fun k _ k' _ => ?_) (List.mem_range.mpr hrow) hi
  · have hle : k * raster ≤ (rows - 1) * raster := Nat.mul_le_mul_right _ (by
      have := List.mem_range.mp hk
      omega)
    rw [shortRaster] at hsize
    omega
  · have hle : (k + 1) * shortRaster width ≤ rows * shortRaster width :=
      Nat.mul_le_mul_right _ (List.mem_range.mp hk)
    rw [Nat.add_mul, Nat.one_mul, Nat.mul_comm rows] at hle
    rw [Array.size_replicate]
    omega
  · rcases Nat.lt_trichotomy k k' with hlt | heq | hgt
    · have hle : (k + 1) * shortRaster width ≤ k' * shortRaster width := Nat.mul_le_mul_right _ hlt
      rw [Nat.add_mul, Nat.one_mul] at hle
      omega
    · exact .inl heq
    · have hle : (k' + 1) * shortRaster width ≤ k * shortRaster width := Nat.mul_le_mul_right _ hgt
      rw [Nat.add_mul, Nat.one_mul] at hle
      omega

/-- The copies of a pattern's rows, in the order in which they are made: the row, the copy on top of
others and the copy beside others that it is in. -/
def copiesOf (height across down : Nat) : List (Nat × Nat × Nat) :=
  (List.range height).flatMap fun row => (List.range down).flatMap fun copyDown =>
    (List.range across).map fun copyAcross => (row, copyDown, copyAcross)

@[simp] theorem mem_copiesOf {height across down : Nat} {k : Nat × Nat × Nat} :
    k ∈ copiesOf height across down ↔ k.1 < height ∧ k.2.1 < down ∧ k.2.2 < across := by
  obtain ⟨row, copyDown, copyAcross⟩ := k
  simp only [copiesOf, List.mem_flatMap, List.mem_map, List.mem_range, Prod.mk.injEq]
  constructor
  · rintro ⟨row, hrow, copyDown, hdown, copyAcross, hacross, rfl, rfl, rfl⟩
    exact ⟨hrow, hdown, hacross⟩
  · rintro ⟨hrow, hdown, hacross⟩
    exact ⟨row, hrow, copyDown, hdown, copyAcross, hacross, rfl, rfl, rfl⟩

/-- The copies of a pattern are made one after another. -/
theorem replicate_eq {width height across down : Nat} (rows : Bytes)
    (hraster : shortRaster (width * across) ≠ 0) :
    replicate rows width height across down =
      (copiesOf height across down).foldl (fun out k => copy rows (k.1 * shortRaster width * 8) out
        ((k.2.1 * height + k.1) * shortRaster (width * across) * 8 + k.2.2 * width) width)
        (.replicate (shortRaster (width * across) * height * down) 0) := by
  rw [replicate]
  simp only [if_neg hraster, copiesOf, List.foldl_flatMap, List.foldl_map]

/-- The rows of all copies have their short raster. -/
@[simp] theorem size_replicate (rows : Bytes) (width height across down : Nat) :
    (replicate rows width height across down).size =
      shortRaster (width * across) * height * down := by
  by_cases hraster : shortRaster (width * across) = 0
  · simp [replicate, hraster]
  · simp [replicate_eq rows hraster]

/-- Each copy of a pattern has its bits. -/
theorem get_replicate {rows : Bytes} {width height across down : Nat}
    (hrows : shortRaster width * height ≤ rows.size) {row copyDown copyAcross i : Nat}
    (hrow : row < height) (hdown : copyDown < down) (hacross : copyAcross < across) (hi : i < width) :
    get (replicate rows width height across down)
      ((copyDown * height + row) * shortRaster (width * across) * 8 + copyAcross * width + i) =
        get rows (row * shortRaster width * 8 + i) := by
  have hshort := width_le_shortRaster width
  have hraster := width_le_shortRaster (width * across)
  have hpos : 0 < width * across := Nat.mul_pos (by omega) (by omega)
  have hbelow : ∀ {k l : Nat} (r : Nat), k < l → k * r + r ≤ l * r := by
    intro k l r hlt
    have hle : (k + 1) * r ≤ l * r := Nat.mul_le_mul_right _ hlt
    rwa [Nat.add_mul, Nat.one_mul] at hle
  rw [replicate_eq rows (by omega)]
  generalize shortRaster width = short at hshort hrows ⊢
  generalize shortRaster (width * across) = raster at hraster ⊢
  have hmem : (row, copyDown, copyAcross) ∈ copiesOf height across down :=
    mem_copiesOf.mpr ⟨hrow, hdown, hacross⟩
  have hfold := get_foldl_copy rows (.replicate (raster * height * down) 0) (fun k => k.1 * short * 8)
    (fun k => (k.2.1 * height + k.1) * raster * 8 + k.2.2 * width) (fun k hk => ?_)
    (fun k hk => ?_) (fun k hk k' hk' => ?_) hmem hi
  · exact hfold
  · obtain ⟨hrow, -, -⟩ := mem_copiesOf.mp hk
    have := hbelow short hrow
    rw [Nat.mul_comm short] at hrows
    omega
  · obtain ⟨hrow, hdown, hacross⟩ := mem_copiesOf.mp hk
    have hlast : (k.2.1 * height + k.1) < height * down := by
      have := hbelow height hdown
      rw [Nat.mul_comm height]
      omega
    have hcolumn := hbelow width hacross
    have hline := hbelow raster hlast
    rw [Array.size_replicate, Nat.mul_assoc raster, Nat.mul_comm raster]
    rw [Nat.mul_comm width] at hraster
    omega
  · obtain ⟨hrow, hdown, hacross⟩ := mem_copiesOf.mp hk
    obtain ⟨hrow', hdown', hacross'⟩ := mem_copiesOf.mp hk'
    obtain ⟨y, v, u⟩ := k
    obtain ⟨y', v', u'⟩ := k'
    dsimp only at *
    have hcolumn := hbelow width hacross
    have hcolumn' := hbelow width hacross'
    rw [Nat.mul_comm width] at hraster
    rcases Nat.lt_trichotomy (v * height + y) (v' * height + y') with hlt | heq | hgt
    · have := hbelow raster hlt
      omega
    · obtain ⟨rfl, rfl⟩ : y = y' ∧ v = v' := by
        have hmod := congrArg (· % height) heq
        simp only [Nat.mul_add_mod', Nat.mod_eq_of_lt hrow, Nat.mod_eq_of_lt hrow'] at hmod
        subst hmod
        exact ⟨rfl, Nat.eq_of_mul_eq_mul_right (by omega) (Nat.add_right_cancel heq)⟩
      rcases Nat.lt_trichotomy u u' with hlt | rfl | hgt
      · have := hbelow width hlt
        omega
      · exact .inl rfl
      · have := hbelow width hgt
        omega
    · have := hbelow raster hgt
      omega

/-- Numbers of the same bits are the same. -/
theorem value_congr {data data' : Bytes} {start start' n : Nat}
    (h : ∀ i < n, get data (start + i) = get data' (start' + i)) :
    value data start n = value data' start' n := by
  induction n with
  | zero => rfl
  | succ n ih => rw [value, value, ih fun i hi => h i (by omega), h n (by omega)]

/-- A number has no more bits than were taken. -/
theorem value_lt (data : Bytes) (start n : Nat) : value data start n < 2 ^ n := by
  induction n with
  | zero => simp [value]
  | succ n ih =>
    have hbit : (get data (start + n)).toNat ≤ 1 := Bool.toNat_le _
    rw [value, Nat.pow_succ]
    omega

/-- Numbers in rows that were taken out of a bitmap. -/
theorem value_extract {raster x width rows : Nat} (h : extract data raster x width rows = .ok out)
    {row i n : Nat} (hrow : row < rows) (hi : i + n ≤ width) :
    value out (row * shortRaster width * 8 + i) n = value data (row * raster * 8 + (x + i)) n := by
  refine value_congr fun k hk => ?_
  rw [Nat.add_assoc, get_extract h hrow (by omega)]
  simp only [Nat.add_assoc]

/-- A bitmap without its first rows has the others. -/
@[simp] theorem get_extract_size (data : Bytes) (start i : Nat) :
    get (data.extract start data.size) i = get data (start * 8 + i) := by
  rw [get_eq_testBit, get_eq_testBit]
  have hbyte : (start * 8 + i) / 8 = start + i / 8 := by omega
  have hbit : (start * 8 + i) % 8 = i % 8 := by omega
  rw [hbyte, hbit, Array.getElem?_extract]
  by_cases hin : start + i / 8 < data.size
  · rw [if_pos (by omega)]
  · rw [if_neg (by omega), Array.getElem?_eq_none (by omega)]

@[simp] theorem value_extract_size (data : Bytes) (start i n : Nat) :
    value (data.extract start data.size) i n = value data (start * 8 + i) n :=
  value_congr fun k _ => by simp [Nat.add_assoc]

end BandedPage.Bits
