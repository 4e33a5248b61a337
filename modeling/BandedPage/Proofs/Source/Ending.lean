import Mathlib
import BandedPage.Operand.Number
import BandedPage.Proofs.Source.Lawful

/-!
# Reading no more than is needed

A source that ends says how many bytes it is short of. A computation that reads from such a source
is exact if its success depends on just the bytes that it has read: whatever stands behind them it
does the same, and when some of them are missing it fails for lack of them, at the place where the
source ends. Computations put together from exact ones are exact.

A counting source need not know the place where a block was missed that was cut short, only how many
bytes a read is short of. What a decoder does with it still depends on the bytes that it holds and on
their position: from two such sources that stand at the same place the decoder gives the same answer and
stops at the same place, or it fails for the same cause.
-/

namespace BandedPage

/-- The source holds these bytes, the first of which has this position in the stream. -/
structure Standing {σ : Type} [ByteSource σ] [LawfulSource σ] (s : σ) (bytes : List UInt8)
    (offset : Nat) : Prop where
  holds : LawfulSource.Holds s bytes
  offset_eq : ByteSource.offset s = offset

/-- A source that counts the bytes it hands out and fails where they end. -/
class EndingSource (σ : Type) [ByteSource σ] [LawfulSource σ] : Prop where
  nextByte_cons {s : σ} {b : UInt8} {bytes : List UInt8} {offset : Nat}
    (h : Standing s (b :: bytes) offset) :
    ∃ s', ByteSource.nextByte s = .ok b s' ∧ Standing s' bytes (offset + 1)
  nextByte_nil {s : σ} {offset : Nat} (h : Standing s [] offset) :
    ∃ s', ByteSource.nextByte s = .error (.truncated offset 1) s'
  take_append {s : σ} {taken bytes : List UInt8} {offset : Nat}
    (h : Standing s (taken ++ bytes) offset) :
    ∃ s', ByteSource.take taken.length s = .ok taken s' ∧
      Standing s' bytes (offset + taken.length)
  take_short {s : σ} {bytes : List UInt8} {offset n : Nat} (h : Standing s bytes offset)
    (hn : bytes.length < n) :
    ∃ needed s', ByteSource.take n s = .error (.truncated (offset + bytes.length) needed) s' ∧
      0 < needed
  prepare_eq {s : σ} {bytes : List UInt8} {offset : Nat} (h : Standing s bytes offset) :
    ∃ s', ByteSource.prepare s = .ok () s' ∧ Standing s' bytes offset

instance {ρ : Type} [ByteFeed ρ] [LawfulFeed ρ] : EndingSource (Buffered ρ) where
  nextByte_cons := by
    rintro s b bytes _ ⟨h, rfl⟩
    obtain ⟨s', hs', hh, hoffset⟩ := Buffered.nextByte_eq h
    exact ⟨s', hs', hh, hoffset⟩
  nextByte_nil := by
    rintro s _ ⟨h, rfl⟩
    obtain ⟨s', hs'⟩ := Buffered.refill_of_end h 1
    exact ⟨s', bind_of_error hs' _⟩
  take_append := by
    rintro s taken bytes _ ⟨h, rfl⟩
    obtain ⟨s', hs', hh, hoffset⟩ := Buffered.takeLoads_eq h (Nat.le_refl _)
    exact ⟨s', hs', hh, hoffset⟩
  take_short := by
    rintro s bytes _ n ⟨h, rfl⟩ hn
    obtain ⟨s', hs'⟩ := Buffered.takeLoads_of_short h hn (Nat.le_refl _)
    exact ⟨n - bytes.length, s', hs', Nat.sub_pos_of_lt hn⟩
  prepare_eq := by
    rintro s bytes _ ⟨h, rfl⟩
    obtain ⟨s', hs', hh, hoffset, -⟩ := Buffered.topUp_eq h
    exact ⟨s', hs', hh, hoffset⟩

/-- A state that carries a source along with what else a computation works on. -/
structure SourceView (S σ : Type) where
  source : S → σ
  /-- Another source in place of the present one. -/
  put : σ → S → S
  /-- The second state has gone on from the first, as far as can be seen from outside. -/
  Grows : S → S → Prop
  source_put (s : σ) (p : S) : source (put s p) = s
  put_source (p : S) : put (source p) p = p
  put_put (s s' : σ) (p : S) : put s (put s' p) = put s p
  grows_refl (p : S) : Grows p p
  grows_trans {p q r : S} (h : Grows p q) (h' : Grows q r) : Grows p r

/-- A source alone, of which nothing is seen from outside. -/
def SourceView.alone {σ : Type} : SourceView σ σ where
  source s := s
  put s _ := s
  Grows _ _ := True
  source_put _ _ := rfl
  put_source _ := rfl
  put_put _ _ _ := rfl
  grows_refl _ := trivial
  grows_trans _ _ := trivial

/-! ### Exact computations -/

section

variable {S σ α β : Type} [ByteSource σ] [LawfulSource σ]

/-- From `p`, with a source at `offset`, the computation needs the bytes `taken` and no others to
answer `a` and end in `p'`. -/
structure Needs (v : SourceView S σ) (m : EStateM Error S α) (p : S) (offset : Nat)
    (taken : List UInt8) (a : α) (p' : S) : Prop where
  ok : ∀ s rest, Standing s (taken ++ rest) offset →
    ∃ s', m (v.put s p) = .ok a (v.put s' p') ∧ Standing s' rest (offset + taken.length)
  short : ∀ s part missing, taken = part ++ missing → missing ≠ [] → Standing s part offset →
    ∃ needed q, m (v.put s p) = .error (.truncated (offset + part.length) needed) q ∧
      0 < needed ∧ v.Grows q p'
  grows : v.Grows p p'

/-- If the computation succeeds from `p`, it needs just the bytes that it has read. -/
def ExactFrom (v : SourceView S σ) (m : EStateM Error S α) (p : S) : Prop :=
  ∀ bytes offset a p', Standing (v.source p) bytes offset → m p = .ok a p' →
    ∃ taken rest, bytes = taken ++ rest ∧
      Standing (v.source p') rest (offset + taken.length) ∧ Needs v m p offset taken a p'

/-- Whenever the computation succeeds, it needs just the bytes that it has read. -/
def Exact (v : SourceView S σ) (m : EStateM Error S α) : Prop := ∀ p, ExactFrom v m p

namespace ExactFrom

variable {v : SourceView S σ} {m : EStateM Error S α} {p : S}

/-- What reads nothing and does the same with any source is exact. -/
theorem of_same (h : ∀ a p', m p = .ok a p' → v.source p' = v.source p ∧ v.Grows p p' ∧
    ∀ s, m (v.put s p) = .ok a (v.put s p')) : ExactFrom v m p := by
  intro bytes offset a p' hp hm
  obtain ⟨hsource, hgrows, hsame⟩ := h a p' hm
  refine ⟨[], bytes, rfl, by rwa [hsource], ?_, ?_, hgrows⟩
  · intro s rest hs
    exact ⟨s, hsame s, hs⟩
  · intro s part missing heq hmissing _
    exact absurd (List.append_eq_nil_iff.mp heq.symm).2 hmissing

/-- What only decodes from the source is as exact as the decoder. -/
theorem of_decoder {γ : Type} {d : Decoder σ γ} (hd : Exact .alone d) (answer : γ → α)
    (next : γ → S) (hgrows : ∀ c s s', v.Grows (v.put s p) (v.put s' (next c)))
    (hm : ∀ s, m (v.put s p) = match d s with
      | .ok c s' => .ok (answer c) (v.put s' (next c))
      | .error e s' => .error e (v.put s' p)) : ExactFrom v m p := by
  intro bytes offset a p' hp hrun
  rw [← v.put_source p, hm] at hrun
  cases hc : d (v.source p) with
  | error e s' =>
    rw [hc] at hrun
    cases hrun
  | ok c s' =>
    rw [hc] at hrun
    cases hrun
    obtain ⟨taken, rest, rfl, hrest, hneeds⟩ := hd _ bytes offset c s' hp hc
    refine ⟨taken, rest, rfl, by rwa [v.source_put], ?_, ?_, ?_⟩
    · intro s rest hs
      obtain ⟨s'', hs'', hstand⟩ := hneeds.ok s rest hs
      exact ⟨s'', by rw [hm, show d s = _ from hs'', v.put_put]; rfl, hstand⟩
    · intro s part missing heq hmissing hs
      obtain ⟨needed, q, hq, hneeded, -⟩ := hneeds.short s part missing heq hmissing hs
      exact ⟨needed, v.put q p, by rw [hm, show d s = _ from hq], hneeded, hgrows c q s'⟩
    · have := hgrows c (v.source p) s'
      rwa [v.put_source] at this

end ExactFrom

namespace Exact

variable {v : SourceView S σ} {m : EStateM Error S α} {f : α → EStateM Error S β}

theorem pure (a : α) : Exact v (pure a : EStateM Error S α) :=
  fun p => .of_same fun _ _ h => by
    cases h
    exact ⟨rfl, v.grows_refl p, fun _ => rfl⟩

/-- A failure is no success. -/
theorem throw (e : Error) : Exact v (throw e : EStateM Error S α) :=
  fun _ => .of_same fun _ _ h => by cases h

theorem lift (x : Except Error α) : Exact v (liftM x : EStateM Error S α) := by
  cases x with
  | ok a => exact pure a
  | error e => exact throw e

theorem bind (hm : Exact v m) (hf : ∀ a, Exact v (f a)) : Exact v (m >>= f) := by
  intro p bytes offset b p'' hp hrun
  obtain ⟨a, p', hm', hf'⟩ := bind_eq_ok_iff.mp hrun
  obtain ⟨taken, rest, rfl, hrest, hneeds⟩ := hm p bytes offset a p' hp hm'
  obtain ⟨taken', rest', rfl, hrest', hneeds'⟩ := hf a p' rest _ b p'' hrest hf'
  have hlength : offset + (taken ++ taken').length = offset + taken.length + taken'.length := by
    rw [List.length_append, Nat.add_assoc]
  refine ⟨taken ++ taken', rest', by rw [List.append_assoc], by rwa [hlength], ?_, ?_,
    v.grows_trans hneeds.grows hneeds'.grows⟩
  · intro s rest hs
    rw [List.append_assoc] at hs
    obtain ⟨s', hs', hstand⟩ := hneeds.ok s _ hs
    obtain ⟨s'', hs'', hstand'⟩ := hneeds'.ok s' _ hstand
    exact ⟨s'', by rw [bind_of_ok hs', hs''], by rwa [hlength]⟩
  · intro s part missing heq hmissing hs
    -- the bytes end within those of the first step, or behind them
    by_cases hpart : part.length < taken.length
    · obtain ⟨more, htaken⟩ : part <+: taken :=
        List.prefix_of_prefix_length_le ⟨missing, heq.symm⟩ ⟨taken', rfl⟩ hpart.le
      have hmore : more ≠ [] := by
        rintro rfl
        rw [List.append_nil] at htaken
        exact hpart.ne (congrArg List.length htaken)
      obtain ⟨needed, q, hq, hneeded, hgrows⟩ := hneeds.short s part more htaken.symm hmore hs
      exact ⟨needed, q, bind_of_error hq _, hneeded, v.grows_trans hgrows hneeds'.grows⟩
    · obtain ⟨part', rfl⟩ : taken <+: part :=
        List.prefix_of_prefix_length_le ⟨taken', rfl⟩ ⟨missing, heq.symm⟩ (not_lt.mp hpart)
      rw [List.append_assoc] at heq
      obtain ⟨s', hs', hstand⟩ := hneeds.ok s part' hs
      obtain ⟨needed, q, hq, hneeded, hgrows⟩ :=
        hneeds'.short s' part' missing (List.append_cancel_left heq) hmissing hstand
      refine ⟨needed, q, ?_, hneeded, hgrows⟩
      rw [bind_of_ok hs', hq, List.length_append, Nat.add_assoc]

theorem ite {c : Prop} [Decidable c] {m' : EStateM Error S α} (h : c → Exact v m)
    (h' : ¬ c → Exact v m') : Exact v (if c then m else m') := by
  split
  · exact h ‹_›
  · exact h' ‹_›

/-- A loop is exact if with enough fuel it does not depend on how much there is. -/
theorem of_fuel {loop : Nat → EStateM Error S α} (hloop : ∀ n, Exact v (loop n))
    (hfuel : ∀ p bytes offset, Standing (v.source p) bytes offset →
      ∃ least, ∀ n, least ≤ n → m p = loop n p) : Exact v m := by
  intro p bytes offset a p' hp hrun
  obtain ⟨least, hleast⟩ := hfuel p bytes offset hp
  have hexact : ∀ n, least ≤ n → ∃ taken rest, bytes = taken ++ rest ∧
      Standing (v.source p') rest (offset + taken.length) ∧
      Needs v (loop n) p offset taken a p' := fun n hn =>
    hloop n p bytes offset a p' hp (by rw [← hleast n hn]; exact hrun)
  obtain ⟨taken, rest, rfl, hrest, hneeds⟩ := hexact least (Nat.le_refl _)
  -- with more fuel the same bytes are taken
  have hmore : ∀ n, least ≤ n → Needs v (loop n) p offset taken a p' := by
    intro n hn
    obtain ⟨taken', rest', heq, hrest', hneeds'⟩ := hexact n hn
    have hlength : taken.length = taken'.length :=
      Nat.add_left_cancel (hrest.offset_eq.symm.trans hrest'.offset_eq)
    rwa [(List.append_inj heq hlength).1]
  refine ⟨taken, rest, rfl, hrest, ?_, ?_, hneeds.grows⟩
  · intro s rest hs
    obtain ⟨least', hleast'⟩ := hfuel (v.put s p) _ _ (by rwa [v.source_put])
    obtain ⟨s', hs', hstand⟩ := (hmore (max least least') (Nat.le_max_left _ _)).ok s rest hs
    exact ⟨s', by rw [hleast' _ (Nat.le_max_right _ _), hs'], hstand⟩
  · intro s part missing heq hmissing hs
    obtain ⟨least', hleast'⟩ := hfuel (v.put s p) _ _ (by rwa [v.source_put])
    obtain ⟨needed, q, hq, hrest⟩ :=
      (hmore (max least least') (Nat.le_max_left _ _)).short s part missing heq hmissing hs
    exact ⟨needed, q, by rw [hleast' _ (Nat.le_max_right _ _), hq], hrest⟩

theorem forM {γ : Type} {g : γ → EStateM Error S PUnit} (hg : ∀ c, Exact v (g c)) (l : List γ) :
    Exact v (l.forM g) := by
  induction l with
  | nil => exact pure _
  | cons c l ih => exact (hg c).bind fun _ => ih

end Exact

/-! ### Decoders -/

variable [EndingSource σ]

theorem exact_nextByte : Exact .alone (nextByte : Decoder σ UInt8) := by
  intro s bytes offset b s' hs hrun
  cases bytes with
  | nil =>
    obtain ⟨s'', hs''⟩ := EndingSource.nextByte_nil hs
    rw [show SourceView.alone.source s = s from rfl, hrun] at hs''
    cases hs''
  | cons c bytes =>
    obtain ⟨s'', hs'', hstand⟩ := EndingSource.nextByte_cons hs
    rw [show SourceView.alone.source s = s from rfl, hrun] at hs''
    cases hs''
    refine ⟨[b], bytes, rfl, hstand, ?_, ?_, trivial⟩
    · intro s rest hs
      exact EndingSource.nextByte_cons hs
    · intro s part missing heq hmissing hs
      have hpart : part = [] := by
        rcases List.cons_eq_append_iff.mp heq with ⟨rfl, -⟩ | ⟨more, rfl, hnil⟩
        · rfl
        · exact absurd (List.append_eq_nil_iff.mp hnil.symm).2 hmissing
      subst hpart
      obtain ⟨s', hs'⟩ := EndingSource.nextByte_nil hs
      exact ⟨1, s', hs', Nat.one_pos, trivial⟩

theorem exact_take (n : Nat) : Exact .alone (ByteSource.take n : Decoder σ (List UInt8)) := by
  intro s bytes offset taken s' hs hrun
  by_cases hn : bytes.length < n
  · obtain ⟨needed, s'', hs'', -⟩ := EndingSource.take_short hs hn
    rw [show SourceView.alone.source s = s from rfl, hrun] at hs''
    cases hs''
  · obtain ⟨front, rest, rfl, rfl⟩ : ∃ front rest, bytes = front ++ rest ∧ n = front.length :=
      ⟨bytes.take n, bytes.drop n, (List.take_append_drop n bytes).symm, by simp; omega⟩
    obtain ⟨s'', hs'', hstand⟩ := EndingSource.take_append hs
    rw [show SourceView.alone.source s = s from rfl, hrun] at hs''
    cases hs''
    refine ⟨taken, rest, rfl, hstand, ?_, ?_, trivial⟩
    · intro s rest hs
      exact EndingSource.take_append hs
    · intro s part missing heq hmissing hs
      have hlength : part.length < taken.length := by
        rw [heq, List.length_append]
        have := List.length_pos_of_ne_nil hmissing
        omega
      obtain ⟨needed, s', hs', hneeded⟩ := EndingSource.take_short hs hlength
      exact ⟨needed, s', hs', hneeded, trivial⟩

omit [EndingSource σ] in
/-- What is known of a source by its place, whatever it holds there. -/
theorem exact_of_standing {d : Decoder σ α} (answer : Nat → α)
    (h : ∀ s bytes offset, Standing s bytes offset →
      ∃ s', d s = .ok (answer offset) s' ∧ Standing s' bytes offset) : Exact .alone d := by
  intro s bytes offset a s' hs hrun
  obtain ⟨s'', hs'', hstand⟩ := h s bytes offset hs
  rw [hrun] at hs''
  cases hs''
  refine ⟨[], bytes, rfl, hstand, ?_, ?_, trivial⟩
  · intro s rest hs
    exact h s rest offset hs
  · intro _ _ missing heq hmissing _
    exact absurd (List.append_eq_nil_iff.mp heq.symm).2 hmissing

theorem exact_prepare : Exact .alone (ByteSource.prepare : Decoder σ Unit) :=
  exact_of_standing (fun _ => ()) fun _ _ _ => EndingSource.prepare_eq

omit [EndingSource σ] in
theorem exact_currentOffset : Exact .alone (currentOffset : Decoder σ Nat) :=
  exact_of_standing id fun s _ _ hs => ⟨s, by rw [← hs.offset_eq]; rfl, hs⟩

theorem exact_nextBytes (n : Nat) : Exact .alone (nextBytes n : Decoder σ (List UInt8)) := by
  induction n with
  | zero => exact .pure []
  | succ n ih => exact exact_nextByte.bind fun b => ih.bind fun bs => .pure (b :: bs)

omit [EndingSource σ] in
theorem exact_many {γ : Type} {operand : Decoder σ γ} (h : Exact .alone operand) (n : Nat) :
    Exact .alone (Operand.many operand n) := by
  induction n with
  | zero => exact .pure []
  | succ n ih => exact h.bind fun c => ih.bind fun cs => .pure (c :: cs)

end

/-! ### Sources that count -/

/-- A source that counts the bytes it hands out, and those that a read is short of. -/
class CountingSource (σ : Type) [ByteSource σ] [LawfulSource σ] : Prop where
  nextByte_cons {s : σ} {b : UInt8} {bytes : List UInt8} {offset : Nat}
    (h : Standing s (b :: bytes) offset) :
    ∃ s', ByteSource.nextByte s = .ok b s' ∧ Standing s' bytes (offset + 1)
  nextByte_nil {s : σ} {offset : Nat} (h : Standing s [] offset) :
    ∃ place s', ByteSource.nextByte s = .error (.truncated place 1) s'
  take_append {s : σ} {taken bytes : List UInt8} {offset : Nat}
    (h : Standing s (taken ++ bytes) offset) :
    ∃ s', ByteSource.take taken.length s = .ok taken s' ∧
      Standing s' bytes (offset + taken.length)
  take_short {s : σ} {bytes : List UInt8} {offset n : Nat} (h : Standing s bytes offset)
    (hn : bytes.length < n) :
    ∃ place s', ByteSource.take n s = .error (.truncated place (n - bytes.length)) s'
  prepare_eq {s : σ} {bytes : List UInt8} {offset : Nat} (h : Standing s bytes offset) :
    ∃ s', ByteSource.prepare s = .ok () s' ∧ Standing s' bytes offset

instance : CountingSource Cursor where
  nextByte_cons := by
    rintro ⟨_, _⟩ b bytes _ ⟨rfl, rfl⟩
    exact ⟨_, Cursor.nextByte_cons b bytes _, rfl, rfl⟩
  nextByte_nil := by
    rintro ⟨_, _⟩ _ ⟨rfl, rfl⟩
    exact ⟨_, _, Cursor.nextByte_nil _⟩
  take_append := by
    rintro ⟨_, _⟩ taken bytes _ ⟨rfl, rfl⟩
    exact ⟨_, Cursor.take_append taken bytes _, rfl, rfl⟩
  take_short := by
    rintro ⟨bytes, offset⟩ _ _ n ⟨rfl, rfl⟩ hn
    refine ⟨offset, ⟨bytes, offset⟩, ?_⟩
    have htaken : bytes.take n = bytes := List.take_of_length_le hn.le
    show Cursor.take n ⟨bytes, offset⟩ = _
    simp [Cursor.take, htaken, hn]
  prepare_eq h := ⟨_, rfl, h⟩

instance {ρ : Type} [ByteFeed ρ] [LawfulFeed ρ] : CountingSource (Buffered ρ) where
  nextByte_cons := EndingSource.nextByte_cons
  nextByte_nil h := ⟨_, EndingSource.nextByte_nil h⟩
  take_append := EndingSource.take_append
  take_short := by
    rintro s bytes _ n ⟨h, rfl⟩ hn
    exact ⟨_, Buffered.takeLoads_of_short h hn (Nat.le_refl n)⟩
  prepare_eq := EndingSource.prepare_eq

/-! ### The place where a decoder stops -/

section

variable {σ α : Type} [ByteSource σ] [LawfulSource σ] [CountingSource σ]

/-- The sources that end at the position `last`, known by the bytes they hold. -/
abbrev LawfulSource.endingAt (last : Nat) : LawfulSource σ where
  Holds s bytes := bytes.length ≤ last ∧ Standing s bytes (last - bytes.length)
  nextByte_cons := by
    rintro s b bytes ⟨hlast, hs⟩
    rw [List.length_cons] at hlast hs
    obtain ⟨s', hrun, hstand⟩ := CountingSource.nextByte_cons hs
    rw [show last - (bytes.length + 1) + 1 = last - bytes.length by omega] at hstand
    exact ⟨s', hrun, by omega, hstand⟩
  take_append := by
    rintro s taken bytes ⟨hlast, hs⟩
    rw [List.length_append] at hlast hs
    obtain ⟨s', hrun, hstand⟩ := CountingSource.take_append hs
    rw [show last - (taken.length + bytes.length) + taken.length = last - bytes.length by omega]
      at hstand
    exact ⟨s', hrun, by omega, hstand⟩
  prepare_eq := by
    rintro s bytes ⟨hlast, hs⟩
    obtain ⟨s', hrun, hstand⟩ := CountingSource.prepare_eq hs
    exact ⟨s', hrun, hlast, hstand⟩
  length_le_unread h := LawfulSource.length_le_unread h.2.holds

/-- A decoder that reads these bytes, however it is known what a source holds, stops behind them. -/
theorem Decodes.standing {d : Decoder σ α} {bytes : List UInt8} {a : α}
    (h : ∀ lawful : LawfulSource σ, @Decodes σ α _ lawful d bytes a) {s : σ} {rest : List UInt8}
    {offset : Nat} (hs : Standing s (bytes ++ rest) offset) :
    ∃ s', d s = .ok a s' ∧ Standing s' rest (offset + bytes.length) := by
  have hlast : offset + (bytes ++ rest).length - (bytes ++ rest).length = offset :=
    Nat.add_sub_cancel offset _
  obtain ⟨s', hrun, -, hstand⟩ := h (.endingAt (offset + (bytes ++ rest).length)) s rest
    ⟨Nat.le_add_left _ _, by rwa [hlast]⟩
  rw [List.length_append, ← Nat.add_assoc, Nat.add_sub_cancel] at hstand
  exact ⟨s', hrun, hstand⟩

end

/-! ### Two sources at the same place -/

/-- Failures for the same cause. Only the place of a truncation may differ. -/
inductive Error.SameCause : Error → Error → Prop
  | refl (e : Error) : SameCause e e
  | truncated (place place' needed : Nat) :
      SameCause (.truncated place needed) (.truncated place' needed)

variable {σ τ α β : Type} [ByteSource σ] [LawfulSource σ] [ByteSource τ] [LawfulSource τ]

/-- The same answer, from sources that stand at the same place, or failures for the same cause. -/
inductive SameOutcome : EStateM.Result Error σ α → EStateM.Result Error τ α → Prop
  | ok {a : α} {s : σ} {t : τ} {rest : List UInt8} {offset : Nat} (hs : Standing s rest offset)
      (ht : Standing t rest offset) : SameOutcome (.ok a s) (.ok a t)
  | error {e e' : Error} {s : σ} {t : τ} (h : e.SameCause e') : SameOutcome (.error e s) (.error e' t)

/-- From sources that stand at the same place, both decoders have the same outcome. -/
def Agree (d : Decoder σ α) (d' : Decoder τ α) : Prop :=
  ∀ s t bytes offset, Standing s bytes offset → Standing t bytes offset → SameOutcome (d s) (d' t)

namespace Agree

theorem pure (a : α) : Agree (pure a : Decoder σ α) (pure a : Decoder τ α) :=
  fun _ _ _ _ hs ht => .ok hs ht

theorem throw (e : Error) : Agree (throw e : Decoder σ α) (throw e : Decoder τ α) :=
  fun _ _ _ _ _ _ => .error (.refl e)

theorem bind {d : Decoder σ α} {d' : Decoder τ α} {f : α → Decoder σ β} {f' : α → Decoder τ β}
    (hd : Agree d d') (hf : ∀ a, Agree (f a) (f' a)) : Agree (d >>= f) (d' >>= f') := by
  intro s t bytes offset hs ht
  have hfirst := hd s t bytes offset hs ht
  generalize hr : d s = r, hr' : d' t = r' at hfirst
  cases hfirst with
  | ok hs' ht' =>
    rw [bind_of_ok hr, bind_of_ok hr']
    exact hf _ _ _ _ _ hs' ht'
  | error h =>
    rw [bind_of_error hr, bind_of_error hr']
    exact .error h

theorem ite {c : Prop} [Decidable c] {d₁ d₂ : Decoder σ α} {d₁' d₂' : Decoder τ α}
    (h : c → Agree d₁ d₁') (h' : ¬ c → Agree d₂ d₂') :
    Agree (if c then d₁ else d₂) (if c then d₁' else d₂') := by
  split
  · exact h ‹_›
  · exact h' ‹_›

variable [CountingSource σ] [CountingSource τ]

theorem nextByte : Agree (nextByte : Decoder σ UInt8) (nextByte : Decoder τ UInt8) := by
  intro s t bytes offset hs ht
  cases bytes with
  | nil =>
    obtain ⟨_, _, hrun⟩ := CountingSource.nextByte_nil hs
    obtain ⟨_, _, hrun'⟩ := CountingSource.nextByte_nil ht
    rw [hrun, hrun']
    exact .error (.truncated _ _ _)
  | cons b bytes =>
    obtain ⟨_, hrun, hs'⟩ := CountingSource.nextByte_cons hs
    obtain ⟨_, hrun', ht'⟩ := CountingSource.nextByte_cons ht
    rw [hrun, hrun']
    exact .ok hs' ht'

theorem take (n : Nat) : Agree (ByteSource.take n : Decoder σ (List UInt8))
    (ByteSource.take n : Decoder τ (List UInt8)) := by
  intro s t bytes offset hs ht
  by_cases hn : bytes.length < n
  · obtain ⟨_, _, hrun⟩ := CountingSource.take_short hs hn
    obtain ⟨_, _, hrun'⟩ := CountingSource.take_short ht hn
    rw [hrun, hrun']
    exact .error (.truncated _ _ _)
  · obtain ⟨front, rest, rfl, rfl⟩ : ∃ front rest, bytes = front ++ rest ∧ n = front.length :=
      ⟨bytes.take n, bytes.drop n, (List.take_append_drop n bytes).symm, by simp; omega⟩
    obtain ⟨_, hrun, hs'⟩ := CountingSource.take_append hs
    obtain ⟨_, hrun', ht'⟩ := CountingSource.take_append ht
    rw [hrun, hrun']
    exact .ok hs' ht'

end Agree

end BandedPage
