import Mathlib
import BandedPage.Bits.Payload
import BandedPage.Bits.RunLength
import BandedPage.Proofs.Facsimile.Rows
import BandedPage.Proofs.Source.Lawful

/-!
# Reading payloads back

A coded run is read back as the bytes it stands for, so the runs joined are the data. The reader is
told how many bytes to expect and needs no more runs than that. And whatever method was chosen for
them, the rows of a bitmap are read back as they were.
-/

namespace BandedPage.RunLength

theorem repeats_le (b : UInt8) (n : Nat) (data : List UInt8) : repeats b n data ≤ n := by
  fun_induction repeats b n data with
  | case1 n rest ih => omega
  | case2 => omega
  | case3 => omega

/-- The repeated bytes stand at the start. -/
@[simp] theorem replicate_repeats (b : UInt8) (n : Nat) (data : List UInt8) :
    List.replicate (repeats b n data) b ++ data.drop (repeats b n data) = data := by
  fun_induction repeats b n data with
  | case1 n rest ih => rw [List.replicate_succ, List.cons_append, List.drop_succ_cons, ih]
  | case2 => rfl
  | case3 => rfl

theorem length_literal_le (n : Nat) (data : List UInt8) : (literal n data).length ≤ n := by
  fun_induction literal n data with
  | case1 => exact Nat.zero_le _
  | case2 n b rest h ih =>
    rw [List.length_cons]
    omega
  | case3 => exact Nat.zero_le _

/-- The literal bytes stand at the start. -/
@[simp] theorem literal_append_drop (n : Nat) (data : List UInt8) :
    literal n data ++ data.drop (literal n data).length = data := by
  fun_induction literal n data with
  | case1 => rfl
  | case2 n b rest h ih => rw [List.cons_append, List.length_cons, List.drop_succ_cons, ih]
  | case3 => rfl

/-- A byte that is not repeated begins a literal run. -/
theorem literal_ne_nil {b : UInt8} {n m : Nat} {rest : List UInt8}
    (h : repeats b (n + 1) rest = 0) : literal (m + 1) (b :: rest) ≠ [] := by
  have hhead : rest.head? ≠ some b := by
    intro hb
    cases rest with
    | nil => cases hb
    | cons c rest =>
      obtain rfl : c = b := Option.some.inj hb
      rw [repeats, if_pos rfl] at h
      omega
  rw [literal, if_neg hhead]
  exact List.cons_ne_nil _ _

variable {σ : Type} [ByteSource σ] [LawfulSource σ]

/-- A run of equal bytes is read back. -/
theorem decodes_repeat {fuel left more : Nat} {b : UInt8} {bytes : List UInt8}
    {runs : List (List UInt8)} (hmore : more ≠ 0) (hle : more ≤ 127) (hleft : more + 1 ≤ left)
    (h : Decodes (decodeRuns fuel (left - (more + 1)) : Decoder σ (List (List UInt8))) bytes runs) :
    Decodes (decodeRuns (fuel + 1) left : Decoder σ (List (List UInt8)))
      (UInt8.ofNat (256 - more) :: b :: bytes) (List.replicate (more + 1) b :: runs) := by
  obtain ⟨k, rfl⟩ : ∃ k, left = k + 1 := ⟨left - 1, by omega⟩
  have hn : (UInt8.ofNat (256 - more)).toNat = 256 - more := by
    rw [UInt8.toNat_ofNat']
    omega
  have hcount : 257 - (256 - more) = more + 1 := by omega
  rw [decodeRuns.eq_3 _ _ (Nat.succ_ne_zero k)]
  refine (Decodes.nextByte _).bind (l := b :: bytes) ?_
  rw [hn, if_neg (by omega), if_neg (by omega), hcount]
  dsimp only
  rw [if_neg (by omega)]
  refine (Decodes.nextByte b).bind (l := bytes) ?_
  exact h.bind_pure (f := (List.replicate (more + 1) b :: ·))

/-- A literal run is read back. -/
theorem decodes_literal {fuel left : Nat} {run bytes : List UInt8} {runs : List (List UInt8)}
    (hne : run ≠ []) (hle : run.length ≤ 128) (hleft : run.length ≤ left)
    (h : Decodes (decodeRuns fuel (left - run.length) : Decoder σ (List (List UInt8))) bytes runs) :
    Decodes (decodeRuns (fuel + 1) left : Decoder σ (List (List UInt8)))
      (UInt8.ofNat (run.length - 1) :: (run ++ bytes)) (run :: runs) := by
  have hpos : 0 < run.length := List.length_pos_iff.mpr hne
  obtain ⟨k, rfl⟩ : ∃ k, left = k + 1 := ⟨left - 1, by omega⟩
  have hn : (UInt8.ofNat (run.length - 1)).toNat = run.length - 1 := by
    rw [UInt8.toNat_ofNat']
    omega
  have hlength : run.length - 1 + 1 = run.length := by omega
  rw [decodeRuns.eq_3 _ _ (Nat.succ_ne_zero k)]
  refine (Decodes.nextByte _).bind (l := run ++ bytes) ?_
  rw [hn, if_pos (by omega), hlength, if_neg (by omega)]
  refine (Decodes.take rfl).bind ?_
  exact h.bind_pure (f := (run :: ·))

theorem decodes_encodeRuns {fuel : Nat} {data : List UInt8} (hfuel : data.length ≤ fuel)
    {fuel' : Nat} (hfuel' : data.length ≤ fuel') :
    ∃ runs, runs.flatten = data ∧
      Decodes (decodeRuns fuel' data.length : Decoder σ (List (List UInt8)))
        (encodeRuns fuel data) runs := by
  induction fuel generalizing data fuel' with
  | zero =>
    obtain rfl := List.eq_nil_of_length_eq_zero (Nat.le_zero.mp hfuel)
    refine ⟨[], rfl, ?_⟩
    cases fuel' <;> exact Decodes.pure []
  | succ fuel ih =>
    cases data with
    | nil =>
      refine ⟨[], rfl, ?_⟩
      cases fuel' <;> exact Decodes.pure []
    | cons b rest =>
      rw [List.length_cons] at hfuel hfuel'
      obtain ⟨fuel', rfl⟩ : ∃ k, fuel' = k + 1 := ⟨fuel' - 1, by omega⟩
      simp only [encodeRuns]
      split
      · next hmore =>
        have hle := repeats_le b 127 rest
        have hdata := replicate_repeats b 127 rest
        have hshort : (rest.drop (repeats b (maxRun - 1) rest)).length ≤ rest.length := by
          rw [List.length_drop]
          omega
        obtain ⟨runs, hruns, hdecode⟩ :=
          ih (hshort.trans (Nat.le_of_succ_le_succ hfuel)) (hshort.trans (Nat.le_of_succ_le_succ hfuel'))
        have hlength := congrArg List.length hdata
        rw [List.length_append, List.length_replicate, List.length_drop] at hlength
        rw [List.length_drop] at hdecode
        refine ⟨List.replicate (repeats b (maxRun - 1) rest + 1) b :: runs, ?_, ?_⟩
        · rw [List.flatten_cons, hruns, List.replicate_succ, List.cons_append]
          exact congrArg (b :: ·) hdata
        · refine decodes_repeat hmore hle ?_ ?_
          · rw [List.length_cons]
            show repeats b 127 rest + 1 ≤ _
            omega
          · rwa [List.length_cons, Nat.add_sub_add_right]
      · next hmore =>
        rw [not_not] at hmore
        have hne : literal maxRun (b :: rest) ≠ [] := literal_ne_nil hmore
        have hle : (literal maxRun (b :: rest)).length ≤ 128 := length_literal_le maxRun (b :: rest)
        have hdata := literal_append_drop maxRun (b :: rest)
        generalize literal maxRun (b :: rest) = run at hne hle hdata
        have hpos : 0 < run.length := List.length_pos_iff.mpr hne
        have hlength := congrArg List.length hdata
        rw [List.length_append, List.length_drop, List.length_cons] at hlength
        have hshort : ((b :: rest).drop run.length).length ≤ rest.length := by
          rw [List.length_drop, List.length_cons]
          omega
        obtain ⟨runs, hruns, hdecode⟩ :=
          ih (hshort.trans (Nat.le_of_succ_le_succ hfuel)) (hshort.trans (Nat.le_of_succ_le_succ hfuel'))
        rw [List.length_drop] at hdecode
        refine ⟨run :: runs, ?_, decodes_literal hne hle ?_ hdecode⟩
        · rw [List.flatten_cons, hruns, hdata]
        · rw [List.length_cons]
          omega

theorem decodes_encode (data : List UInt8) :
    Decodes (decode data.length : Decoder σ (List UInt8)) (encode data) data := by
  obtain ⟨runs, hruns, h⟩ := decodes_encodeRuns (σ := σ) (Nat.le_refl data.length)
    (Nat.le_refl data.length)
  have := h.bind_pure (f := List.flatten)
  rwa [hruns] at this

omit [LawfulSource σ] in
/-- With fuel for a run a byte, as many bytes are decoded as were asked for. -/
theorem length_flatten_of_decodeRuns [BlockSource σ] {fuel left : Nat} {s s' : σ}
    {runs : List (List UInt8)} (h : decodeRuns fuel left s = .ok runs s') (hfuel : left ≤ fuel) :
    runs.flatten.length = left := by
  induction fuel generalizing left s runs with
  | zero =>
    obtain rfl := Nat.le_zero.mp hfuel
    cases h
    rfl
  | succ fuel ih =>
    cases left with
    | zero =>
      cases h
      rfl
    | succ k =>
      rw [decodeRuns.eq_3 _ _ (Nat.succ_ne_zero k)] at h
      obtain ⟨n, s₁, -, h⟩ := bind_eq_ok_iff.mp h
      dsimp only at h
      split at h
      · split at h
        · cases h
        · next hfits =>
          obtain ⟨run, s₂, hrun, h⟩ := bind_eq_ok_iff.mp h
          obtain ⟨rest, s₃, hrest, h⟩ := bind_eq_ok_iff.mp h
          cases h
          rw [List.flatten_cons, List.length_append, BlockSource.length_of_take hrun,
            ih hrest (by omega)]
          omega
      · split at h
        · cases h
        · split at h
          · cases h
          · next hfits =>
            have hn := n.toNat_lt
            obtain ⟨b, s₂, -, h⟩ := bind_eq_ok_iff.mp h
            obtain ⟨rest, s₃, hrest, h⟩ := bind_eq_ok_iff.mp h
            cases h
            rw [List.flatten_cons, List.length_append, List.length_replicate, ih hrest (by omega)]
            omega

/-! ### The length bytes of a code -/

/-- The length bytes of a code whose first `skip` bytes belong to a run. Behind the byte that ends the
data there are none. -/
def lengthBytesFrom : Nat → List UInt8 → List UInt8
  | _, [] => []
  | skip + 1, _ :: rest => lengthBytesFrom skip rest
  | 0, n :: rest =>
    if n = 128 then [n]
    else n :: lengthBytesFrom (if n.toNat < 128 then n.toNat + 1 else 1) rest

def lengthBytes (code : List UInt8) : List UInt8 := lengthBytesFrom 0 code

@[simp] theorem lengthBytesFrom_append (run bytes : List UInt8) :
    lengthBytesFrom run.length (run ++ bytes) = lengthBytes bytes := by
  induction run with
  | nil => rfl
  | cons b run ih => exact ih

/-- A run of equal bytes has one length byte. -/
theorem lengthBytes_repeat {more : Nat} (hmore : more ≠ 0) (hle : more ≤ 127) (b : UInt8)
    (bytes : List UInt8) : lengthBytes (UInt8.ofNat (256 - more) :: b :: bytes) =
      UInt8.ofNat (256 - more) :: lengthBytes bytes ∧ UInt8.ofNat (256 - more) ≠ 128 := by
  have hn : (UInt8.ofNat (256 - more)).toNat = 256 - more := by
    rw [UInt8.toNat_ofNat']
    omega
  have hne : UInt8.ofNat (256 - more) ≠ 128 := by
    intro heq
    rw [heq] at hn
    have : (128 : UInt8).toNat = 128 := rfl
    omega
  refine ⟨?_, hne⟩
  rw [lengthBytes, lengthBytesFrom, if_neg hne, hn, if_neg (by omega)]
  rfl

/-- A literal run has one length byte. -/
theorem lengthBytes_literal {run : List UInt8} (hrun : run ≠ []) (hle : run.length ≤ 128)
    (bytes : List UInt8) : lengthBytes (UInt8.ofNat (run.length - 1) :: (run ++ bytes)) =
      UInt8.ofNat (run.length - 1) :: lengthBytes bytes ∧ UInt8.ofNat (run.length - 1) ≠ 128 := by
  have hpos := List.length_pos_iff.mpr hrun
  have hn : (UInt8.ofNat (run.length - 1)).toNat = run.length - 1 := by
    rw [UInt8.toNat_ofNat']
    omega
  have hne : UInt8.ofNat (run.length - 1) ≠ 128 := by
    intro heq
    rw [heq] at hn
    have : (128 : UInt8).toNat = 128 := rfl
    omega
  refine ⟨?_, hne⟩
  rw [lengthBytes, lengthBytesFrom, if_neg hne, hn, if_pos (by omega), Nat.sub_add_cancel hpos,
    lengthBytesFrom_append]

/-- The byte that ends data is never written. -/
theorem lengthBytes_encodeRuns (fuel : Nat) (data : List UInt8) :
    128 ∉ lengthBytes (encodeRuns fuel data) := by
  fun_induction encodeRuns fuel data with
  | case1 => exact List.not_mem_nil
  | case2 => exact List.not_mem_nil
  | case3 fuel b rest more hmore ih =>
    obtain ⟨heq, hne⟩ := lengthBytes_repeat hmore (repeats_le b 127 rest) b
      (encodeRuns fuel (rest.drop more))
    rw [heq, List.mem_cons, not_or]
    exact ⟨hne.symm, ih⟩
  | case4 fuel b rest more hmore run ih =>
    have hrun : run ≠ [] := literal_ne_nil (not_not.mp hmore)
    obtain ⟨heq, hne⟩ := lengthBytes_literal hrun (length_literal_le maxRun (b :: rest))
      (encodeRuns fuel ((b :: rest).drop run.length))
    rw [heq, List.mem_cons, not_or]
    exact ⟨hne.symm, ih⟩

/-- Bytes are read back as they were coded, whatever follows their code, and just the code is read; no
length byte of it ends the data. From any bytes as many are decoded as were asked for, or none. -/
theorem coded_bytes_are_read_back [BlockSource σ] :
    (∀ (data further : List UInt8) (source : σ),
      LawfulSource.Holds source (encode data ++ further) →
        ∃ source', decode data.length source = .ok data source' ∧
          LawfulSource.Holds source' further) ∧
    (∀ data : List UInt8, 128 ∉ lengthBytes (encode data)) ∧
    ∀ (size : Nat) (source : σ),
      (∃ e source', decode size source = .error e source') ∨
        ∃ data source', decode size source = .ok data source' ∧ data.length = size := by
  refine ⟨fun data further source hsource => decodes_encode data source further hsource,
    fun data => lengthBytes_encodeRuns data.length data, fun size source => ?_⟩
  cases hdecode : decode size source with
  | error e source' => exact .inl ⟨e, source', rfl⟩
  | ok data source' =>
    refine .inr ⟨data, source', rfl, ?_⟩
    rw [decode] at hdecode
    obtain ⟨runs, s, hruns, hdecode⟩ := bind_eq_ok_iff.mp hdecode
    cases hdecode
    exact length_flatten_of_decodeRuns hruns (Nat.le_refl size)

/-- A run of equal bytes, a literal run and another run, read through a buffer of three bytes. -/
theorem coded_runs_are_read_back :
    encode [5, 5, 5, 1, 2, 3, 7, 7] = [254, 5, 2, 1, 2, 3, 255, 7] ∧
      ∃ s, decode 8 (⟨⟨[254, 5, 2, 1, 2, 3, 255, 7, 128], some 2⟩, 3, [], 0, false⟩ :
          Buffered Portions) = .ok [5, 5, 5, 1, 2, 3, 7, 7] s ∧ LawfulSource.Holds s [128] := by
  refine ⟨by decide, coded_bytes_are_read_back.1 [5, 5, 5, 1, 2, 3, 7, 7] [128] _ ?_⟩
  have hfeed : LawfulFeed.Holds (⟨[254, 5, 2, 1, 2, 3, 255, 7, 128], some 2⟩ : Portions)
      (encode [5, 5, 5, 1, 2, 3, 7, 7] ++ [128]) := ⟨by decide, by decide⟩
  exact Buffered.holds_of_feed hfeed (by decide)

end BandedPage.RunLength

/-!
## Reading payloads back

Whatever method was chosen for them, the rows of a bitmap are read back as they were.
-/

namespace BandedPage.Payload

variable {σ : Type} [ByteSource σ] [LawfulSource σ]
variable {rows : Bytes} {raster height readerSize : Nat} {methods : CompressionSet} {p : Payload}

/-- A chosen payload holds the rows as they are, or compressed. -/
theorem choose_cases (h : choose rows raster height methods readerSize = .ok p) :
    p.shortSize = raster * height ∧
      (p.compression = .none ∧ p.data = (rows.extract 0 (raster * height)).toList ∧
          raster * height ≤ readerSize ∨
        mayCompress raster (raster * height) methods readerSize = true ∧
          (p.compression, p.data) = compress rows raster height methods ∧
          p.data.length ≤ raster * height / 2 ∧ p.data.length ≤ readerSize) := by
  rw [choose] at h
  dsimp only at h
  split at h
  · next payload hsome =>
    cases h
    split at hsome
    · next hmay =>
      split at hsome
      · next hpays =>
        cases hsome
        rw [Bool.and_eq_true, decide_eq_true_eq, decide_eq_true_eq] at hpays
        exact ⟨rfl, .inr ⟨hmay, rfl, hpays⟩⟩
      · cases hsome
    · cases hsome
  · split at h
    · cases h
    · next hfits =>
      cases h
      exact ⟨rfl, .inl ⟨rfl, rfl, Nat.not_lt.mp hfits⟩⟩

/-- There are only too many rows. -/
theorem choose_eq_error {e : Error} (h : choose rows raster height methods readerSize = .error e) :
    e = .bitmapTooLarge (raster * height) readerSize ∧ readerSize < raster * height := by
  rw [choose] at h
  dsimp only at h
  split at h
  · cases h
  · split at h
    · next hlarge =>
      cases h
      exact ⟨rfl, hlarge⟩
    · cases h

theorem raster_ne_zero_of_mayCompress {shortSize : Nat}
    (h : mayCompress raster shortSize methods readerSize = true) : raster ≠ 0 := by
  simp only [mayCompress, Bool.and_eq_true, bne_iff_ne] at h
  exact h.1.1.2

/-- Rows that are decoded by the reader fit its buffer. -/
theorem le_readerSize_of_mayCompress {shortSize : Nat}
    (h : mayCompress raster shortSize methods readerSize = true)
    (hhere : methods.decodesElsewhere = false) : shortSize ≤ readerSize := by
  simp only [mayCompress, hhere, Bool.or_false, Bool.and_eq_true, decide_eq_true_eq] at h
  exact h.2

/-- Rows are compressed by a method of the set. -/
theorem allows_compress {shortSize : Nat}
    (h : mayCompress raster shortSize methods readerSize = true) :
    methods.allows (compress rows raster height methods).1 = true := by
  simp only [mayCompress, CompressionSet.allowsAny, Bool.and_eq_true, Bool.or_eq_true] at h
  rw [compress]
  split
  · next hfacsimile => exact hfacsimile
  · next hfacsimile => exact h.1.2.resolve_right hfacsimile

/-- What is sent fits the reader's buffer. -/
theorem length_data_le_readerSize (h : choose rows raster height methods readerSize = .ok p) :
    p.data.length ≤ readerSize := by
  rcases (choose_cases h).2 with ⟨-, hdata, hle⟩ | ⟨-, -, -, hle⟩
  · rw [hdata, Array.length_toList, Array.size_extract]
    omega
  · exact hle

theorem choose_of_toOption (h : (choose rows raster height methods readerSize).toOption = some p) :
    choose rows raster height methods readerSize = .ok p := by
  cases hchosen : choose rows raster height methods readerSize with
  | error e =>
    rw [hchosen] at h
    cases h
  | ok p' =>
    rw [hchosen] at h
    cases h
    rfl

/-- Rows that fit the reader's buffer as they are can be sent. -/
theorem exists_choose (rows : Bytes) (methods : CompressionSet) (h : raster * height ≤ readerSize) :
    ∃ p, choose rows raster height methods readerSize = .ok p := by
  rw [choose]
  dsimp only
  split
  · exact ⟨_, rfl⟩
  · rw [if_neg (by omega)]
    exact ⟨_, rfl⟩

/-- The rows are read back. -/
theorem decodes_choose (h : choose rows raster height methods readerSize = .ok p)
    (hrows : raster * height ≤ rows.size) :
    Decodes (decode p.compression raster height : Decoder σ Bytes) p.data
      (rows.extract 0 (raster * height)) := by
  have hlength : (rows.extract 0 (raster * height)).toList.length = raster * height := by
    rw [Array.length_toList, Array.size_extract]
    omega
  rcases (choose_cases h).2 with ⟨hnone, hdata, -⟩ | ⟨hmay, hcompress, -⟩
  · rw [hnone, hdata]
    exact (Decodes.take hlength).bind_pure
  · rw [compress] at hcompress
    split at hcompress
    · obtain ⟨hcompression, hdata⟩ := Prod.mk.inj hcompress
      have hraster := raster_ne_zero_of_mayCompress hmay
      rw [hcompression, hdata, decode, if_neg hraster]
      exact Facsimile.decodes_encode hraster hrows
    · obtain ⟨hcompression, hdata⟩ := Prod.mk.inj hcompress
      rw [hcompression, hdata, decode]
      have := (RunLength.decodes_encode (σ := σ) (rows.extract 0 (raster * height)).toList).bind_pure
        (f := List.toArray)
      rw [hlength] at this
      exact this

/-- What a payload for rows keeps to. -/
structure Suits (p : Payload) (raster height : Nat) (methods : CompressionSet) (readerSize : Nat) :
    Prop where
  shortSize_eq : p.shortSize = raster * height
  /-- What is sent fits the reader's buffer. -/
  fits : p.data.length ≤ readerSize
  allowed : methods.allows p.compression = true
  /-- Rows are only compressed to half their size or less. -/
  halved : p.compression ≠ .none → 2 * p.data.length ≤ p.shortSize
  /-- The rows fit the reader's buffer where they are decoded there. -/
  decodable : methods.decodesElsewhere = false → p.shortSize ≤ readerSize

/-- A chosen payload suits its rows: it is read back as the rows, whatever follows it, and just the
payload is read. There is none only where the rows are too large. -/
theorem chosen_payload_is_read_back (rows : Bytes) {raster height : Nat}
    (hrows : raster * height ≤ rows.size) (methods : CompressionSet) (readerSize : Nat) :
    (∀ p, choose rows raster height methods readerSize = .ok p →
      p.Suits raster height methods readerSize ∧
        ∀ (source : σ) (further : List UInt8), LawfulSource.Holds source (p.data ++ further) →
          ∃ source', decode p.compression raster height source =
              .ok (rows.extract 0 (raster * height)) source' ∧
            LawfulSource.Holds source' further) ∧
    ∀ e, choose rows raster height methods readerSize = .error e →
      e = .bitmapTooLarge (raster * height) readerSize ∧ readerSize < raster * height := by
  refine ⟨fun p h => ⟨?_, decodes_choose h hrows⟩, fun e h => choose_eq_error h⟩
  obtain ⟨hshort, hcases⟩ := choose_cases h
  have hfits := length_data_le_readerSize h
  rcases hcases with ⟨hnone, -, hle⟩ | ⟨hmay, hcompress, hhalf, -⟩
  · exact ⟨hshort, hfits, by rw [hnone]; rfl, fun h => absurd hnone h, fun _ => hshort ▸ hle⟩
  · refine ⟨hshort, hfits, ?_, fun _ => by omega, fun hhere => ?_⟩
    · have hmethod : p.compression = (compress rows raster height methods).1 :=
        congrArg Prod.fst hcompress
      rw [hmethod]
      exact allows_compress hmay
    · rw [hshort]
      exact le_readerSize_of_mayCompress hmay hhere

/-- Rows of equal bytes, compressed to two bytes. -/
theorem chosen_run_is_read_back :
    choose (Array.replicate 64 7) 8 8 { runLength := true } 80 = .ok ⟨.runLength, [193, 7], 64⟩ ∧
      ∃ c, decode .runLength 8 8 (Cursor.ofList [193, 7, 255]) = .ok (Array.replicate 64 7) c ∧
        c.rest = [255] := by
  have hchosen : choose (Array.replicate 64 7) 8 8 { runLength := true } 80 =
      .ok ⟨.runLength, [193, 7], 64⟩ := by decide +kernel
  refine ⟨hchosen, ?_⟩
  have hread := ((chosen_payload_is_read_back (Array.replicate 64 7) (by decide)
    { runLength := true } 80).1 _ hchosen).2 (Cursor.ofList [193, 7, 255]) [255] rfl
  have hrows : (Array.replicate 64 (7 : UInt8)).extract 0 (8 * 8) = Array.replicate 64 7 := by
    decide +kernel
  rwa [hrows] at hread

end BandedPage.Payload
