import Mathlib
import BandedPage.Proofs.Computation
import BandedPage.Source.Basic
import BandedPage.Source.Buffered

/-!
# Sources that hand out what they hold

A lawful source is known by the bytes it still holds. What a decoder reads is then said without
the source: `Decodes d bytes a` says that `d` reads just `bytes`, whatever stands behind them, and
answers `a`. Decoders built from decoders are judged part by part.
-/

namespace BandedPage

/-- A source that is known by the bytes it holds. -/
class LawfulSource (σ : Type) [ByteSource σ] where
  /-- These are the bytes still to be read. -/
  Holds : σ → List UInt8 → Prop
  nextByte_cons {s : σ} {b : UInt8} {bytes : List UInt8} (h : Holds s (b :: bytes)) :
    ∃ s', ByteSource.nextByte s = .ok b s' ∧ Holds s' bytes
  take_append {s : σ} {taken bytes : List UInt8} (h : Holds s (taken ++ bytes)) :
    ∃ s', ByteSource.take taken.length s = .ok taken s' ∧ Holds s' bytes
  prepare_eq {s : σ} {bytes : List UInt8} (h : Holds s bytes) :
    ∃ s', ByteSource.prepare s = .ok () s' ∧ Holds s' bytes
  length_le_unread {s : σ} {bytes : List UInt8} (h : Holds s bytes) :
    bytes.length ≤ ByteSource.unread s

instance : LawfulSource Cursor where
  Holds c bytes := c.rest = bytes
  nextByte_cons := by
    rintro ⟨_, offset⟩ b bytes rfl
    exact ⟨_, Cursor.nextByte_cons b bytes offset, rfl⟩
  take_append := by
    rintro ⟨_, offset⟩ taken bytes rfl
    exact ⟨_, Cursor.take_append taken bytes offset, rfl⟩
  prepare_eq := fun h => ⟨_, rfl, h⟩
  length_le_unread := by
    rintro c bytes rfl
    exact Nat.le_refl _

/-- A source that fails rather than handing out a block of another length than was asked for. -/
class BlockSource (σ : Type) [ByteSource σ] : Prop where
  length_of_take {n : Nat} {s s' : σ} {taken : List UInt8}
    (h : ByteSource.take n s = .ok taken s') : taken.length = n

instance : BlockSource Cursor where
  length_of_take {n c c' taken} h := by
    rw [show ByteSource.take n c = Cursor.take n c from rfl, Cursor.take, List.splitAt_eq] at h
    dsimp only at h
    split at h
    · cases h
    · cases h
      have := List.length_take_le n c.rest
      omega

variable {σ α β : Type} [ByteSource σ] [LawfulSource σ]

/-- `d` reads `bytes` and nothing behind them, and answers `a`. -/
def Decodes (d : Decoder σ α) (bytes : List UInt8) (a : α) : Prop :=
  ∀ s rest, LawfulSource.Holds s (bytes ++ rest) →
    ∃ s', d s = .ok a s' ∧ LawfulSource.Holds s' rest

namespace Decodes

theorem pure (a : α) : Decodes (Pure.pure a : Decoder σ α) [] a :=
  fun s _ h => ⟨s, rfl, h⟩

/-- One decoder after the other reads what each of them reads. -/
theorem bind {d : Decoder σ α} {f : α → Decoder σ β} {k l : List UInt8} {a : α} {b : β}
    (hd : Decodes d k a) (hf : Decodes (f a) l b) :
    Decodes (d >>= f) (k ++ l) b := by
  intro s rest h
  rw [List.append_assoc] at h
  obtain ⟨s', hs, h'⟩ := hd s (l ++ rest) h
  obtain ⟨s'', hs', h''⟩ := hf s' rest h'
  exact ⟨s'', by rw [bind_of_ok hs, hs'], h''⟩

/-- The answer may be worked on further. -/
theorem bind_pure {d : Decoder σ α} {f : α → β} {bytes : List UInt8} {a : α}
    (h : Decodes d bytes a) : Decodes (d >>= fun x => Pure.pure (f x)) bytes (f a) := by
  have := h.bind (Decodes.pure (σ := σ) (f a)) (f := fun x => Pure.pure (f x))
  rwa [List.append_nil] at this

/-- What is known without reading changes nothing. -/
theorem pure_bind {f : α → Decoder σ β} {bytes : List UInt8} {a : α} {b : β}
    (h : Decodes (f a) bytes b) : Decodes ((Pure.pure a : Decoder σ α) >>= f) bytes b := h

/-- A check that is passed changes nothing. -/
theorem lift_bind {x : Except Error α} {f : α → Decoder σ β} {bytes : List UInt8} {a : α} {b : β}
    (hx : x = .ok a) (h : Decodes (f a) bytes b) :
    Decodes ((liftM x : Decoder σ α) >>= f) bytes b := by
  subst hx
  exact h

theorem lift {x : Except Error α} {a : α} (hx : x = .ok a) :
    Decodes (liftM x : Decoder σ α) [] a := by
  subst hx
  exact pure a

theorem nextByte (b : UInt8) : Decodes (ByteSource.nextByte : Decoder σ UInt8) [b] b :=
  fun _ _ h => LawfulSource.nextByte_cons h

theorem take {n : Nat} {bytes : List UInt8} (h : bytes.length = n) :
    Decodes (ByteSource.take n : Decoder σ (List UInt8)) bytes bytes := by
  subst h
  exact fun _ _ h => LawfulSource.take_append h

theorem nextBytes (bytes : List UInt8) :
    Decodes (BandedPage.nextBytes bytes.length : Decoder σ (List UInt8)) bytes bytes := by
  induction bytes with
  | nil => exact pure []
  | cons b bytes ih => exact (nextByte b).bind (bind_pure (f := (b :: ·)) ih)

theorem nextBytes_of_length {n : Nat} {bytes : List UInt8} (h : bytes.length = n) :
    Decodes (BandedPage.nextBytes n : Decoder σ (List UInt8)) bytes bytes := by
  subst h
  exact nextBytes bytes

/-- The bytes are judged as a whole when they are put together from parts. -/
theorem of_eq {d : Decoder σ α} {bytes bytes' : List UInt8} {a : α} (h : Decodes d bytes a)
    (heq : bytes' = bytes) : Decodes d bytes' a := heq ▸ h

end Decodes

end BandedPage

/-!
## Reading through a buffer loses nothing

A lawful feed hands out what it holds, in portions of its own choosing, and ends only when nothing
is left. Read through a buffer of any capacity but none, it is a lawful source: the bytes held are
those in the buffer and, behind them, those the feed still holds.
-/

namespace BandedPage

/-- A feed that is known by the bytes it holds. -/
class LawfulFeed (ρ : Type) [ByteFeed ρ] where
  /-- These are the bytes still to come. -/
  Holds : ρ → List UInt8 → Prop
  read_eq {feed : ρ} {bytes : List UInt8} (h : Holds feed bytes) {n : Nat} (hn : 0 < n) :
    ∃ portion rest feed', ByteFeed.read feed n = .ok (portion, feed') ∧ Holds feed' rest ∧
      bytes = portion ++ rest ∧ portion.length ≤ n ∧ (portion = [] → rest = [])
  length_le_remaining {feed : ρ} {bytes : List UInt8} (h : Holds feed bytes) :
    bytes.length ≤ ByteFeed.remaining feed

/-- The bytes at the front make a portion, if some are asked for. -/
theorem take_is_portion (bytes : List UInt8) {k n : Nat} (hk : 0 < k) (hkn : k ≤ n) :
    bytes = bytes.take k ++ bytes.drop k ∧ (bytes.take k).length ≤ n ∧
      (bytes.take k = [] → bytes.drop k = []) := by
  refine ⟨(List.take_append_drop k bytes).symm, (List.length_take_le k bytes).trans hkn, ?_⟩
  intro hempty
  rcases List.take_eq_nil_iff.mp hempty with h | rfl
  · omega
  · exact List.drop_nil

instance : LawfulFeed Portions where
  Holds p bytes := p.rest = bytes ∧ p.portion ≠ some 0
  read_eq := by
    rintro ⟨bytes, portion⟩ _ ⟨rfl, hp⟩ n hn
    obtain ⟨k, hk, hkn, hread⟩ : ∃ k, 0 < k ∧ k ≤ n ∧
        ByteFeed.read (⟨bytes, portion⟩ : Portions) n =
          .ok (bytes.take k, ⟨bytes.drop k, portion⟩) := by
      cases portion with
      | none => exact ⟨n, hn, Nat.le_refl n, by simp [ByteFeed.read]⟩
      | some m =>
        have hm : m ≠ 0 := fun h => hp (by rw [h])
        exact ⟨min n m, by omega, Nat.min_le_left n m, by simp [ByteFeed.read]⟩
    exact ⟨bytes.take k, bytes.drop k, ⟨bytes.drop k, portion⟩, hread, ⟨rfl, hp⟩,
      take_is_portion bytes hk hkn⟩
  length_le_remaining := by
    rintro p bytes ⟨rfl, _⟩
    exact Nat.le_refl _

namespace Buffered

variable {ρ : Type} [ByteFeed ρ] [LawfulFeed ρ]

/-- The buffer and the feed behind it hold these bytes. -/
def Holds (s : Buffered ρ) (bytes : List UInt8) : Prop :=
  ∃ rest, LawfulFeed.Holds s.feed rest ∧ bytes = s.buffered ++ rest ∧
    (s.ended = true → rest = []) ∧ 0 < s.capacity

/-- Filling keeps what is held. If there was room, the buffer is empty then only when all bytes
have been handed out. -/
theorem fill_eq {s : Buffered ρ} {bytes : List UInt8} (h : Holds s bytes) (n : Nat) :
    ∃ s', fill n s = .ok () s' ∧ Holds s' bytes ∧ s'.offset = s.offset ∧
      (0 < n → s'.buffered = [] → bytes = []) := by
  induction n generalizing s with
  | zero => exact ⟨s, rfl, h, rfl, fun hn => absurd hn (Nat.lt_irrefl 0)⟩
  | succ n ih =>
    obtain ⟨rest, hfeed, hbytes, hended, hcap⟩ := h
    by_cases hroom : s.capacity - s.buffered.length = 0
    · refine ⟨s, by simp [fill, hroom], ⟨rest, hfeed, hbytes, hended, hcap⟩, rfl, ?_⟩
      intro _ hempty
      rw [hempty] at hroom
      simp at hroom
      omega
    · obtain ⟨portion, rest', feed', hread, hholds, happ, -, hend⟩ :=
        LawfulFeed.read_eq hfeed (Nat.pos_of_ne_zero hroom)
      cases portion with
      | nil =>
        have hrest : rest = [] := by rw [happ, hend rfl, List.nil_append]
        refine ⟨{ s with feed := feed', ended := true }, by simp [fill, hroom, hread], ?_, rfl, ?_⟩
        · exact ⟨rest', hholds, by simpa [happ] using hbytes, fun _ => hend rfl, hcap⟩
        · intro _ hempty
          rw [hbytes, hrest, List.append_nil]
          exact hempty
      | cons b portion =>
        have hstep : Holds { s with feed := feed', buffered := s.buffered ++ (b :: portion) } bytes := by
          refine ⟨rest', hholds, by simp [hbytes, happ], ?_, hcap⟩
          intro he
          have := hended he
          simp [happ] at this
        obtain ⟨s', hs', hholds', hoffset, hmore⟩ := ih hstep
        refine ⟨s', ?_, hholds', hoffset, ?_⟩
        · simp only [fill, get_bind_run, if_neg hroom, hread, set_bind_run, hs']
        · intro _ hempty
          cases n with
          | zero =>
            rw [fill, pure_run] at hs'
            cases hs'
            simp at hempty
          | succ n => exact hmore (Nat.succ_pos n) hempty

theorem topUp_eq {s : Buffered ρ} {bytes : List UInt8} (h : Holds s bytes) :
    ∃ s', topUp s = .ok () s' ∧ Holds s' bytes ∧ s'.offset = s.offset ∧
      (s'.buffered = [] → bytes = []) := by
  have hcap := h.choose_spec.2.2.2
  by_cases hlow : s.isLow = true
  · obtain ⟨s', hs', hh, hoffset, hmore⟩ := fill_eq h (s.capacity - s.buffered.length)
    refine ⟨s', by simp [topUp, hlow, hs'], hh, hoffset, ?_⟩
    intro hempty
    by_cases hroom : 0 < s.capacity - s.buffered.length
    · exact hmore hroom hempty
    · have hzero : s.capacity - s.buffered.length = 0 := by omega
      rw [hzero, fill, pure_run] at hs'
      cases hs'
      rw [hempty] at hzero
      simp at hzero
      omega
  · refine ⟨s, by simp [topUp, hlow], h, rfl, ?_⟩
    intro hempty
    obtain ⟨rest, -, hbytes, hended, -⟩ := h
    have he : s.ended = true := by
      simp only [isLow, hempty, List.length_nil, lookahead, Bool.and_eq_true, decide_eq_true_eq,
        Bool.not_eq_true', not_and, Bool.not_eq_false] at hlow
      exact hlow (by norm_num)
    rw [hbytes, hempty, hended he, List.append_nil]

/-- As long as bytes are held, there are some in the buffer after refilling it. -/
theorem refill_eq {s : Buffered ρ} {bytes : List UInt8} (h : Holds s bytes) (hne : bytes ≠ [])
    (missing : Nat) :
    ∃ s', refill missing s = .ok () s' ∧ Holds s' bytes ∧ s'.offset = s.offset ∧
      s'.buffered ≠ [] := by
  by_cases hempty : s.buffered.isEmpty = true
  · obtain ⟨s', hs', hh, hoffset, hmore⟩ := topUp_eq h
    have hne' : s'.buffered ≠ [] := fun he => hne (hmore he)
    refine ⟨s', ?_, hh, hoffset, hne'⟩
    have hnot : s'.buffered.isEmpty = false := by simpa using hne'
    simp only [refill, get_bind_run, hempty, if_true]
    rw [bind_of_ok hs', get_bind_run, hnot]
    rfl
  · have hnot : s.buffered.isEmpty = false := by simpa using hempty
    refine ⟨s, ?_, h, rfl, by simpa using hempty⟩
    rw [refill, get_bind_run, hnot]
    rfl

/-- Where no bytes are held, refilling finds the end. -/
theorem refill_of_end {s : Buffered ρ} (h : Holds s []) (missing : Nat) :
    ∃ s', refill missing s = .error (.truncated s.offset missing) s' := by
  obtain ⟨s', hs', hh, hoffset, -⟩ := topUp_eq h
  have hbuffered : ∀ {s : Buffered ρ}, Holds s [] → s.buffered = [] := by
    rintro s ⟨rest, -, hbytes, -⟩
    exact (List.append_eq_nil_iff.mp hbytes.symm).1
  refine ⟨s', ?_⟩
  simp only [refill, get_bind_run, hbuffered h, List.isEmpty_nil, if_true]
  rw [bind_of_ok hs', get_bind_run, hbuffered hh, hoffset]
  rfl

/-- What is in the buffer may be taken from its front. -/
theorem Holds.consume {s : Buffered ρ} {bytes taken buffered : List UInt8}
    (h : Holds s (taken ++ bytes)) (hb : s.buffered = taken ++ buffered) (offset : Nat) :
    Holds { s with buffered, offset } bytes := by
  obtain ⟨rest, hfeed, hbytes, hended, hcap⟩ := h
  refine ⟨rest, hfeed, ?_, hended, hcap⟩
  rw [hb, List.append_assoc] at hbytes
  exact List.append_cancel_left hbytes

theorem nextByte_eq {s : Buffered ρ} {b : UInt8} {bytes : List UInt8}
    (h : Holds s (b :: bytes)) :
    ∃ s', nextByte s = .ok b s' ∧ Holds s' bytes ∧ s'.offset = s.offset + 1 := by
  obtain ⟨s', hs', hh, hoffset, hne⟩ := refill_eq h (List.cons_ne_nil b bytes) 1
  obtain ⟨c, buffered, hc⟩ := List.exists_cons_of_ne_nil hne
  have hcb : c = b := by
    obtain ⟨rest, -, hbytes, -⟩ := hh
    rw [hc] at hbytes
    exact (List.cons.inj hbytes).1.symm
  subst hcb
  refine ⟨{ s' with buffered, offset := s'.offset + 1 }, ?_, ?_, by rw [hoffset]⟩
  · rw [nextByte, bind_of_ok hs', get_bind_run, hc]
    rfl
  · exact (show Holds s' ([c] ++ bytes) from hh).consume hc (s'.offset + 1)

/-- What the buffer has of the next bytes, and what is left in it behind them. -/
theorem Holds.exists_load {s : Buffered ρ} {taken bytes : List UInt8}
    (h : Holds s (taken ++ bytes)) (hs : s.buffered ≠ []) (ht : taken ≠ []) :
    ∃ first second buffered, taken = first ++ second ∧ first ≠ [] ∧
      s.buffered = first ++ buffered ∧ s.buffered.splitAt taken.length = (first, buffered) := by
  obtain ⟨rest, -, hbytes, -⟩ := h
  rw [List.splitAt_eq]
  rcases List.append_eq_append_iff.mp hbytes with ⟨more, hbuf, -⟩ | ⟨more, htaken, -⟩
  · refine ⟨taken, [], more, by simp, ht, hbuf, ?_⟩
    rw [hbuf, List.take_left, List.drop_left]
  · refine ⟨s.buffered, more, [], htaken, hs, by simp, ?_⟩
    rw [List.take_of_length_le (by simp [htaken]), List.drop_of_length_le (by simp [htaken])]

/-- Each load of the buffer takes at least one byte, so no more loads than bytes are needed. -/
theorem takeLoads_eq {n : Nat} {s : Buffered ρ} {taken bytes : List UInt8}
    (h : Holds s (taken ++ bytes)) (hn : taken.length ≤ n) :
    ∃ s', takeLoads n taken.length s = .ok taken s' ∧ Holds s' bytes ∧
      s'.offset = s.offset + taken.length := by
  induction n generalizing s taken with
  | zero =>
    have : taken = [] := List.eq_nil_of_length_eq_zero (by omega)
    subst this
    exact ⟨s, rfl, h, rfl⟩
  | succ n ih =>
    by_cases htaken : taken = []
    · subst htaken
      exact ⟨s, rfl, h, rfl⟩
    · obtain ⟨s', hs', hh, hoffset, hfull⟩ := refill_eq h (by simp [htaken]) taken.length
      obtain ⟨first, second, buffered, hsplit, hfirst, hbuf, hload⟩ := hh.exists_load hfull htaken
      have hstep : Holds { s' with buffered, offset := s'.offset + first.length } (second ++ bytes) := by
        rw [hsplit, List.append_assoc] at hh
        exact hh.consume hbuf _
      have hlength : taken.length = first.length + second.length := by
        rw [hsplit, List.length_append]
      have hpos := List.length_pos_of_ne_nil hfirst
      obtain ⟨s'', hs'', hholds, hoffset'⟩ := ih hstep (by omega)
      refine ⟨s'', ?_, hholds, by rw [hoffset', hlength, ← hoffset, Nat.add_assoc]⟩
      obtain ⟨missing, hmissing⟩ := Nat.exists_eq_succ_of_ne_zero (show taken.length ≠ 0 by omega)
      rw [hmissing, takeLoads.eq_3 _ _ (Nat.succ_ne_zero missing), ← hmissing, bind_of_ok hs',
        get_bind_run, hload]
      simp only [set_bind_run]
      rw [show taken.length - first.length = second.length by omega, bind_of_ok hs'', hsplit]
      rfl

/-- A block that is cut short is taken as far as it goes. -/
theorem takeLoads_of_short {n missing : Nat} {s : Buffered ρ} {bytes : List UInt8}
    (h : Holds s bytes) (hshort : bytes.length < missing) (hn : missing ≤ n) :
    ∃ s', takeLoads n missing s =
      .error (.truncated (s.offset + bytes.length) (missing - bytes.length)) s' := by
  induction n generalizing s missing bytes with
  | zero => omega
  | succ n ih =>
    obtain ⟨left, rfl⟩ := Nat.exists_eq_succ_of_ne_zero (show missing ≠ 0 by omega)
    rw [takeLoads.eq_3 _ _ (Nat.succ_ne_zero left)]
    by_cases hbytes : bytes = []
    · subst hbytes
      obtain ⟨s', hs'⟩ := refill_of_end h (left + 1)
      exact ⟨s', by rw [bind_of_error hs']; rfl⟩
    · obtain ⟨s', hs', hh, hoffset, hfull⟩ := refill_eq h hbytes (left + 1)
      obtain ⟨rest, hfeed, heq, hended, hcap⟩ := hh
      have hlength : bytes.length = s'.buffered.length + rest.length := by
        rw [heq, List.length_append]
      have hpos := List.length_pos_of_ne_nil hfull
      have hload : s'.buffered.splitAt (left + 1) = (s'.buffered, []) := by
        rw [List.splitAt_eq, List.take_of_length_le (by omega), List.drop_of_length_le (by omega)]
      have hstep : Holds { s' with buffered := [], offset := s'.offset + s'.buffered.length } rest :=
        ⟨rest, hfeed, rfl, hended, hcap⟩
      obtain ⟨s'', hs''⟩ :=
        ih hstep (by omega : rest.length < left + 1 - s'.buffered.length) (by omega)
      refine ⟨s'', ?_⟩
      rw [bind_of_ok hs', get_bind_run, hload]
      simp only [set_bind_run]
      rw [bind_of_error hs'', hlength, hoffset, Nat.add_assoc, Nat.sub_sub]

omit [LawfulFeed ρ] in
/-- A refilled buffer is not empty. -/
theorem buffered_ne_nil_of_refill {s s' : Buffered ρ} {missing : Nat}
    (h : refill missing s = .ok () s') : s'.buffered ≠ [] := by
  rw [refill, get_bind_run] at h
  split at h
  · obtain ⟨_, s'', -, h⟩ := bind_eq_ok_iff.mp h
    rw [get_bind_run] at h
    split at h
    · cases h
    · next hfull =>
      cases h
      simpa using hfull
  · next hfull =>
    cases h
    simpa using hfull

omit [LawfulFeed ρ] in
/-- Whatever the feed hands out, a block is taken as a whole. -/
theorem length_of_takeLoads {n missing : Nat} {s s' : Buffered ρ} {taken : List UInt8}
    (h : takeLoads n missing s = .ok taken s') (hn : missing ≤ n) : taken.length = missing := by
  induction n generalizing missing s taken with
  | zero =>
    obtain rfl := Nat.le_zero.mp hn
    cases h
    rfl
  | succ n ih =>
    cases missing with
    | zero =>
      cases h
      rfl
    | succ left =>
      rw [takeLoads.eq_3 _ _ (Nat.succ_ne_zero left)] at h
      obtain ⟨_, s₁, hrefill, h⟩ := bind_eq_ok_iff.mp h
      have hpos := List.length_pos_of_ne_nil (buffered_ne_nil_of_refill hrefill)
      rw [get_bind_run, List.splitAt_eq] at h
      simp only [set_bind_run] at h
      obtain ⟨rest, s₂, hrest, h⟩ := bind_eq_ok_iff.mp h
      cases h
      have hlength := ih hrest (by rw [List.length_take]; omega)
      rw [List.length_append, hlength, List.length_take]
      omega

instance {ρ : Type} [ByteFeed ρ] : BlockSource (Buffered ρ) where
  length_of_take h := length_of_takeLoads h (Nat.le_refl _)

instance : LawfulSource (Buffered ρ) where
  Holds := Holds
  nextByte_cons h := by
    obtain ⟨s', hs', hh, -⟩ := nextByte_eq h
    exact ⟨s', hs', hh⟩
  take_append h := by
    obtain ⟨s', hs', hh, -⟩ := takeLoads_eq h (Nat.le_refl _)
    exact ⟨s', hs', hh⟩
  prepare_eq h := by
    obtain ⟨s', hs', hh, -⟩ := topUp_eq h
    exact ⟨s', hs', hh⟩
  length_le_unread := by
    rintro s bytes ⟨rest, hfeed, hbytes, -, -⟩
    have := LawfulFeed.length_le_remaining hfeed
    rw [hbytes, List.length_append]
    exact Nat.add_le_add_left this _

/-- A buffer that was filled with nothing yet holds what its feed holds. -/
theorem holds_of_feed {feed : ρ} {bytes : List UInt8} (h : LawfulFeed.Holds feed bytes)
    {capacity : Nat} (hcap : 0 < capacity) :
    LawfulSource.Holds ({ feed, capacity } : Buffered ρ) bytes :=
  ⟨bytes, h, rfl, fun he => Bool.noConfusion he, hcap⟩

end Buffered

end BandedPage
