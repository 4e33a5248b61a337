import Mathlib
import BandedPage.Facsimile.Decode
import BandedPage.Facsimile.Encode
import BandedPage.Proofs.Source.Lawful

/-!
# Reading facsimile words back

The bits that are packed into bytes are handed out again one by one, and behind them only the zeros
that fill the last byte. `Spells` says of a reader of bits which bits it reads, whatever stands
behind them. No code word is the beginning of another one, so each is read as what it stands for.
-/

namespace BandedPage.Facsimile

/-- The lowest `n` bits of a number, the highest of them first. -/
def lowBits (v : Nat) : Nat → List Bool
  | 0 => []
  | n + 1 => v.testBit n :: lowBits v n

/-- The bits of bytes, as they are read. -/
def bitsOf (bytes : List UInt8) : List Bool := bytes.flatMap fun b => lowBits b.toNat 8

@[simp] theorem length_lowBits (v n : Nat) : (lowBits v n).length = n := by
  induction n with
  | zero => rfl
  | succ n ih => rw [lowBits, List.length_cons, ih]

@[simp] theorem length_bitsOf (bytes : List UInt8) : (bitsOf bytes).length = bytes.length * 8 := by
  induction bytes with
  | nil => rfl
  | cons b bytes ih =>
    rw [bitsOf, List.flatMap_cons, List.length_append, length_lowBits, ← bitsOf, ih,
      List.length_cons]
    omega

/-- A byte put together from eight bits has these bits. -/
@[simp] theorem lowBits_byteOf {bits : List Bool} (h : bits.length = 8) :
    lowBits (byteOf bits).toNat 8 = bits := by
  match bits, h with
  | [a, b, c, d, e, f, g, h], _ =>
    revert a b c d e f g h
    decide

/-- Packed bits are read again, with zeros behind them that fill the last byte. -/
theorem bitsOf_pack (bits : List Bool) :
    ∃ zeros, zeros.length < 8 ∧ bitsOf (pack bits) = bits ++ zeros := by
  fun_induction pack bits with
  | case1 a b c d e f g h rest ih =>
    obtain ⟨zeros, hlt, heq⟩ := ih
    refine ⟨zeros, hlt, ?_⟩
    rw [bitsOf, List.flatMap_cons, ← bitsOf, heq, lowBits_byteOf rfl]
    rfl
  | case2 => exact ⟨[], by decide, rfl⟩
  | case3 bits hshort hne =>
    have hpos : 0 < bits.length := List.length_pos_iff.mpr hne
    have hlt : bits.length < 8 := by
      match bits, hshort with
      | [], _ | [_], _ | [_, _], _ | [_, _, _], _ | [_, _, _, _], _ | [_, _, _, _, _], _
      | [_, _, _, _, _, _], _ | [_, _, _, _, _, _, _], _ => simp
      | a :: b :: c :: d :: e :: f :: g :: h :: rest, hshort =>
        exact absurd rfl (hshort a b c d e f g h rest)
    refine ⟨List.replicate (8 - bits.length) false, ?_, ?_⟩
    · rw [List.length_replicate]
      omega
    · rw [bitsOf, List.flatMap_cons, List.flatMap_nil, List.append_nil]
      refine lowBits_byteOf ?_
      rw [List.length_append, List.length_replicate]
      omega

namespace BitSource

variable {σ α β : Type} [ByteSource σ] [LawfulSource σ]

/-- The source hands out `bits` before `rest`, and perhaps a few more that fill a byte. -/
def Holds (s : BitSource σ) (bits : List Bool) (rest : List UInt8) : Prop :=
  ∃ bytes fill, LawfulSource.Holds s.source (bytes ++ rest) ∧ fill.length < 8 ∧
    lowBits s.byte.toNat s.left ++ bitsOf bytes = bits ++ fill

/-- Packed bits can be read bit by bit. -/
theorem holds_pack {source : σ} {bits : List Bool} {rest : List UInt8}
    (h : LawfulSource.Holds source (pack bits ++ rest)) :
    Holds ({ source } : BitSource σ) bits rest := by
  obtain ⟨zeros, hlt, heq⟩ := bitsOf_pack bits
  exact ⟨pack bits, zeros, h, hlt, heq⟩

/-- When all bits are read, so are the bytes they were in. -/
theorem Holds.done {s : BitSource σ} {rest : List UInt8} (h : s.Holds [] rest) :
    LawfulSource.Holds s.source rest := by
  obtain ⟨bytes, fill, hs, hlt, heq⟩ := h
  have hlength := congrArg List.length heq
  rw [List.length_append, length_lowBits, length_bitsOf, List.nil_append] at hlength
  have hnil : bytes = [] := List.length_eq_zero_iff.mp (by omega)
  rwa [hnil, List.nil_append] at hs

/-- No more bits are to come than the source can hand out. -/
theorem Holds.length_le_unread {s : BitSource σ} {bits : List Bool} {rest : List UInt8}
    (h : s.Holds bits rest) : bits.length ≤ s.unread := by
  obtain ⟨bytes, fill, hs, hlt, heq⟩ := h
  have hlength := congrArg List.length heq
  have hunread := LawfulSource.length_le_unread hs
  simp only [List.length_append, length_lowBits, length_bitsOf] at hlength hunread
  rw [unread]
  omega

/-- The reader reads just `bits`, whatever stands behind them, and answers `a`. -/
def Spells (m : EStateM Error (BitSource σ) α) (bits : List Bool) (a : α) : Prop :=
  ∀ s more rest, Holds s (bits ++ more) rest → ∃ s', m s = .ok a s' ∧ Holds s' more rest

theorem Spells.pure (a : α) : Spells (Pure.pure a : EStateM Error (BitSource σ) α) [] a :=
  fun s _ _ h => ⟨s, rfl, h⟩

theorem Spells.bind {m : EStateM Error (BitSource σ) α} {f : α → EStateM Error (BitSource σ) β}
    {bits bits' : List Bool} {a : α} {b : β} (hm : Spells m bits a) (hf : Spells (f a) bits' b) :
    Spells (m >>= f) (bits ++ bits') b := by
  intro s more rest hs
  rw [List.append_assoc] at hs
  obtain ⟨s', hm', hs'⟩ := hm s (bits' ++ more) rest hs
  obtain ⟨s'', hf', hs''⟩ := hf s' more rest hs'
  exact ⟨s'', by rw [bind_of_ok hm', hf'], hs''⟩

/-- The reader may be chosen by what is still unread. -/
theorem Spells.get_bind {f : BitSource σ → EStateM Error (BitSource σ) β} {bits : List Bool} {b : β}
    (hf : ∀ s more rest, Holds s (bits ++ more) rest → Spells (f s) bits b) :
    Spells (get >>= f) bits b :=
  fun s more rest hs => hf s more rest hs s more rest hs

theorem spells_nextBit (b : Bool) : Spells (nextBit : EStateM Error (BitSource σ) Bool) [b] b := by
  rintro ⟨source, byte, left⟩ more rest ⟨bytes, fill, hs, hlt, heq⟩
  cases left with
  | succ left =>
    rw [lowBits, List.cons_append, List.cons_append, List.cons_append, List.cons.injEq] at heq
    obtain ⟨rfl, heq⟩ := heq
    exact ⟨⟨source, byte, left⟩, rfl, bytes, fill, hs, hlt, heq⟩
  | zero =>
    cases bytes with
    | nil => cases heq
    | cons next bytes =>
      rw [lowBits, List.nil_append, bitsOf, List.flatMap_cons, lowBits, List.cons_append,
        List.cons_append, List.cons_append, List.cons.injEq] at heq
      obtain ⟨rfl, heq⟩ := heq
      obtain ⟨source', hbyte, hs'⟩ := LawfulSource.nextByte_cons hs
      refine ⟨⟨source', next, 7⟩, ?_, bytes, fill, hs', hlt, heq⟩
      simp only [nextBit, hbyte]

end BitSource

theorem Codeword.bits_eq (w : Codeword) : w.bits = lowBits w.code w.length := by
  obtain ⟨code, length⟩ := w
  rw [bits]
  dsimp only
  induction length with
  | zero => rfl
  | succ n ih =>
    rw [List.range_succ_eq_map, List.map_cons, List.map_map, lowBits, ← ih]
    refine congrArg₂ List.cons ?_ (List.map_congr_left fun i hi => ?_)
    · simp
    · show code.testBit (n + 1 - 1 - (i + 1)) = code.testBit (n - 1 - i)
      congr 1
      omega

def Codeword.begins (w w' : Codeword) : Bool :=
  Nat.ble w.length w'.length && Nat.beq (w'.code >>> (w'.length - w.length)) w.code

/-- No word is the beginning of one at another place in the list. -/
def prefixFree : List Codeword → Bool
  | [] => true
  | w :: words => words.all (fun w' => !w.begins w' && !w'.begins w) && prefixFree words

/-- A table whose words can be told apart as they are read. -/
def isReadable {α : Type} (table : List (Codeword × α)) : Bool :=
  prefixFree (table.map (·.1)) &&
    table.all fun entry => Nat.blt 0 entry.1.length && Nat.blt entry.1.code (1 <<< entry.1.length)

@[simp] theorem isReadable_modes : isReadable modes = true := by decide

@[simp] theorem isReadable_runs (black : Bool) : isReadable (runsOf black) = true := by
  revert black
  decide +kernel

/-- A word that is the beginning of another one is that one. -/
theorem eq_of_begins {words : List Codeword} (h : prefixFree words = true) {w w' : Codeword}
    (hw : w ∈ words) (hw' : w' ∈ words) (hbegins : w.begins w' = true) : w = w' := by
  induction words with
  | nil => cases hw
  | cons word words ih =>
    rw [prefixFree, Bool.and_eq_true, List.all_eq_true] at h
    obtain ⟨hword, hwords⟩ := h
    rcases List.mem_cons.mp hw with rfl | hw
    · rcases List.mem_cons.mp hw' with rfl | hw'
      · rfl
      · have := hword w' hw'
        simp [hbegins] at this
    · rcases List.mem_cons.mp hw' with heq | hw'
      · have := hword w hw
        simp [← heq, hbegins] at this
      · exact ih hwords hw hw'

theorem nodup_of_prefixFree {words : List Codeword} (h : prefixFree words = true) :
    words.Nodup := by
  induction words with
  | nil => exact .nil
  | cons word words ih =>
    rw [prefixFree, Bool.and_eq_true, List.all_eq_true] at h
    refine List.nodup_cons.mpr ⟨fun hmem => ?_, ih h.2⟩
    have hself : word.begins word = true := by
      simp [Codeword.begins]
    have := h.1 word hmem
    simp [hself] at this

section

variable {α : Type} {table : List (Codeword × α)} {w : Codeword} {v : α}

theorem length_le_longest (h : (w, v) ∈ table) : w.length ≤ longest table := by
  have hfold : ∀ (entries : List (Codeword × α)) (n : Nat),
      n ≤ entries.foldl (fun n entry => max n entry.1.length) n ∧
        ∀ entry ∈ entries, entry.1.length ≤ entries.foldl (fun n entry => max n entry.1.length) n := by
    intro entries
    induction entries with
    | nil => exact fun n => ⟨le_rfl, fun _ h => absurd h List.not_mem_nil⟩
    | cons entry entries ih =>
      intro n
      obtain ⟨hle, hall⟩ := ih (max n entry.1.length)
      refine ⟨(le_max_left _ _).trans hle, fun entry' h => ?_⟩
      rcases List.mem_cons.mp h with rfl | h
      · exact (le_max_right _ _).trans hle
      · exact hall entry' h
  exact (hfold table 0).2 (w, v) h

/-- A word of the table stands for its value. -/
theorem meaning?_of_mem (h : isReadable table = true) (hw : (w, v) ∈ table) :
    meaning? table w = some v := by
  rw [isReadable, Bool.and_eq_true] at h
  have hsome : (table.find? fun entry => entry.1 = w).isSome = true := by
    rw [List.find?_isSome]
    exact ⟨(w, v), hw, by simp⟩
  obtain ⟨entry, hentry⟩ := Option.isSome_iff_exists.mp hsome
  have hmem := List.mem_of_find?_eq_some hentry
  have heq : entry.1 = w := by simpa using List.find?_some hentry
  have hentry' : entry = (w, v) :=
    List.inj_on_of_nodup_map (nodup_of_prefixFree h.1) hmem hw heq
  rw [meaning?, hentry, hentry']
  rfl

/-- What has been read of a word stands for nothing yet. -/
theorem meaning_eq_none_of_begins (h : isReadable table = true) (hw : (w, v) ∈ table) {m : Nat}
    (hpos : 0 < m) (hm : m < w.length) :
    meaning? table ⟨w.code >>> m, w.length - m⟩ = none := by
  rw [isReadable, Bool.and_eq_true] at h
  rw [meaning?, Option.map_eq_none_iff, List.find?_eq_none]
  intro entry hentry heq
  have hword : entry.1 = ⟨w.code >>> m, w.length - m⟩ := by simpa using heq
  have hbegins : entry.1.begins w = true := by
    have hsub : w.length - (w.length - m) = m := by omega
    rw [hword, Codeword.begins, hsub, Bool.and_eq_true, Nat.ble_eq, Nat.beq_eq]
    exact ⟨Nat.sub_le _ _, rfl⟩
  have hsame := eq_of_begins h.1 (List.mem_map_of_mem hentry) (List.mem_map_of_mem hw) hbegins
  have hlength := congrArg Codeword.length (hword.symm.trans hsame)
  dsimp only at hlength
  omega

/-- One more bit of a number. -/
theorem shiftRight_mul_two_add (code m : Nat) :
    code >>> (m + 1) * 2 + (code.testBit m).toNat = code >>> m := by
  rw [Nat.testBit_eq_decide_div_mod_eq, Nat.shiftRight_eq_div_pow, Nat.shiftRight_eq_div_pow,
    Nat.pow_succ, ← Nat.div_div_eq_div_mul]
  have hmod := Nat.mod_two_eq_zero_or_one (code / 2 ^ m)
  rcases hmod with hmod | hmod <;> simp [hmod] <;> omega

/-- The bits of a value are those of one of its words. -/
theorem exists_bitsFor [DecidableEq α] (h : isReadable table = true) (hv : ∃ w, (w, v) ∈ table) :
    ∃ w, (w, v) ∈ table ∧ bitsFor table v = lowBits w.code w.length ∧ 0 < w.length ∧
      w.code < 2 ^ w.length := by
  obtain ⟨w, hw⟩ := hv
  have hsome : (table.find? fun entry => entry.2 = v).isSome = true := by
    rw [List.find?_isSome]
    exact ⟨(w, v), hw, by simp⟩
  obtain ⟨⟨w', v'⟩, hentry⟩ := Option.isSome_iff_exists.mp hsome
  have hmem := List.mem_of_find?_eq_some hentry
  obtain rfl : v' = v := by simpa using List.find?_some hentry
  rw [isReadable, Bool.and_eq_true, List.all_eq_true] at h
  have hword := h.2 _ hmem
  rw [Bool.and_eq_true, Nat.blt_eq, Nat.blt_eq, Nat.one_shiftLeft] at hword
  refine ⟨w', hmem, ?_, hword⟩
  rw [bitsFor, hentry]
  exact Codeword.bits_eq w'

theorem length_bitsFor_pos [DecidableEq α] (h : isReadable table = true)
    (hv : ∃ w, (w, v) ∈ table) : 0 < (bitsFor table v).length := by
  obtain ⟨w, -, hbits, hpos, -⟩ := exists_bitsFor h hv
  rw [hbits, length_lowBits]
  exact hpos

namespace BitSource

variable {σ : Type} [ByteSource σ] [LawfulSource σ]

/-- The rest of a word is read. -/
theorem spells_restOfWord (h : isReadable table = true) (hw : (w, v) ∈ table) {m n : Nat}
    (hpos : 0 < m) (hm : m ≤ w.length) (hn : m ≤ n) :
    Spells (readWord table n ⟨w.code >>> m, w.length - m⟩ : EStateM Error (BitSource σ) α)
      (lowBits w.code m) v := by
  induction m generalizing n with
  | zero => omega
  | succ m ih =>
    obtain ⟨n, rfl⟩ : ∃ k, n = k + 1 := ⟨n - 1, by omega⟩
    rw [lowBits, ← List.singleton_append]
    refine (spells_nextBit _).bind ?_
    have hword : (⟨w.code >>> (m + 1) * 2 + (w.code.testBit m).toNat,
        w.length - (m + 1) + 1⟩ : Codeword) = ⟨w.code >>> m, w.length - m⟩ := by
      rw [shiftRight_mul_two_add, show w.length - (m + 1) + 1 = w.length - m by omega]
    dsimp only
    rw [hword]
    cases Nat.eq_zero_or_pos m with
    | inl hzero =>
      subst hzero
      have hwhole : (⟨w.code >>> 0, w.length - 0⟩ : Codeword) = w := rfl
      rw [hwhole, meaning?_of_mem h hw]
      exact .pure v
    | inr hpos' =>
      rw [meaning_eq_none_of_begins h hw hpos' (by omega)]
      exact ih hpos' (by omega) (by omega)

/-- A value is read from the bits of its word. -/
theorem spells_readWord [DecidableEq α] (h : isReadable table = true)
    (hv : ∃ w, (w, v) ∈ table) :
    Spells (readWord table (longest table) ⟨0, 0⟩ : EStateM Error (BitSource σ) α)
      (bitsFor table v) v := by
  obtain ⟨w, hmem, hbits, hpos, hlt⟩ := exists_bitsFor h hv
  have hstart : (⟨w.code >>> w.length, w.length - w.length⟩ : Codeword) = ⟨0, 0⟩ := by
    rw [Nat.shiftRight_eq_div_pow, Nat.div_eq_of_lt hlt, Nat.sub_self]
  have hread : Spells (readWord table (longest table) ⟨w.code >>> w.length, w.length - w.length⟩ :
      EStateM Error (BitSource σ) α) (lowBits w.code w.length) v :=
    spells_restOfWord h hmem hpos le_rfl (length_le_longest hmem)
  rw [hstart] at hread
  rw [hbits]
  exact hread

theorem spells_readMode {m : Mode} (h : ∃ w, (w, m) ∈ modes) :
    Spells (readMode : EStateM Error (BitSource σ) Mode) (bitsFor modes m) m :=
  spells_readWord isReadable_modes h

end BitSource

end

end BandedPage.Facsimile
