import Mathlib
import BandedPage.Proofs.Computation
import BandedPage.Proofs.Store.Feed
import BandedPage.Store.Memory

/-!
# Sources that come to an end

A finite source has only so many bytes left, and each one that it hands out is one of them. Nothing
else is known of it: it may fail at any time and for any cause, and what it hands out may be anything.
Bytes in memory are such a source, and so is every finite feed that is read through a buffer. The runs
of a band are a finite feed whatever its store holds, be it an index or not, if only the medium hands
out no more than it has.
-/

namespace BandedPage

/-- A source that comes to an end. -/
class FiniteSource (σ : Type) [ByteSource σ] where
  /-- No more bytes than these will be handed out. -/
  left : σ → Nat
  left_le_unread (s : σ) : left s ≤ ByteSource.unread s
  left_of_nextByte {s s' : σ} {b : UInt8} (h : ByteSource.nextByte s = .ok b s') : left s' < left s

instance : FiniteSource Cursor where
  left c := c.rest.length
  left_le_unread c := Nat.le_refl _
  left_of_nextByte := by
    rintro ⟨rest, offset⟩ c' b h
    cases rest with
    | nil => cases h
    | cons b rest =>
      cases h
      exact Nat.lt_succ_self _

/-- A feed that comes to an end. -/
class FiniteFeed (ρ : Type) [ByteFeed ρ] where
  /-- No more bytes than these will be handed out. -/
  left : ρ → Nat
  left_le_remaining (feed : ρ) : left feed ≤ ByteFeed.remaining feed
  left_of_read {feed feed' : ρ} {n : Nat} {bytes : List UInt8}
    (h : ByteFeed.read feed n = .ok (bytes, feed')) : bytes.length + left feed' ≤ left feed

instance : FiniteFeed Portions where
  left p := p.rest.length
  left_le_remaining p := Nat.le_refl _
  left_of_read := by
    rintro ⟨rest, portion⟩ p' n bytes h
    simp only [ByteFeed.read, List.splitAt_eq] at h
    cases h
    dsimp only
    rw [List.length_take, List.length_drop]
    omega

namespace Buffered

variable {ρ : Type} [ByteFeed ρ] [FiniteFeed ρ]

/-- The bytes in the buffer, and those that its feed has left. -/
def left (s : Buffered ρ) : Nat := s.buffered.length + FiniteFeed.left s.feed

theorem left_of_fill {n : Nat} {s s' : Buffered ρ} (h : fill n s = .ok () s') :
    s'.left ≤ s.left := by
  induction n generalizing s with
  | zero =>
    cases h
    exact Nat.le_refl _
  | succ n ih =>
    simp only [fill, get_bind_run] at h
    split at h
    · cases h
      exact Nat.le_refl _
    cases hread : ByteFeed.read s.feed (s.capacity - s.buffered.length) with
    | error e =>
      simp only [hread] at h
      cases h
    | ok portion =>
      obtain ⟨bytes, feed⟩ := portion
      have hfeed := FiniteFeed.left_of_read hread
      cases bytes with
      | nil =>
        simp only [hread] at h
        cases h
        simp only [left, List.length_nil] at hfeed ⊢
        omega
      | cons b bytes =>
        simp only [hread, set_bind_run] at h
        have hrest := ih h
        simp only [left, List.length_append] at hrest ⊢
        omega

theorem left_of_topUp {s s' : Buffered ρ} (h : topUp s = .ok () s') : s'.left ≤ s.left := by
  simp only [topUp, get_bind_run] at h
  split at h
  · exact left_of_fill h
  · cases h
    exact Nat.le_refl _

theorem left_of_refill {missing : Nat} {s s' : Buffered ρ} (h : refill missing s = .ok () s') :
    s'.left ≤ s.left := by
  rw [refill, get_bind_run] at h
  split at h
  · obtain ⟨_, s'', htopUp, h⟩ := bind_eq_ok_iff.mp h
    rw [get_bind_run] at h
    split at h
    · cases h
    · cases h
      exact left_of_topUp htopUp
  · cases h
    exact Nat.le_refl _

theorem left_of_nextByte {s s' : Buffered ρ} {b : UInt8} (h : nextByte s = .ok b s') :
    s'.left < s.left := by
  obtain ⟨_, s'', hrefill, h⟩ := bind_eq_ok_iff.mp h
  have hle := left_of_refill hrefill
  rw [get_bind_run] at h
  cases hbuffered : s''.buffered with
  | nil =>
    simp only [hbuffered] at h
    cases h
  | cons c buffered =>
    simp only [hbuffered, set_bind_run] at h
    cases h
    simp only [left, hbuffered, List.length_cons] at hle ⊢
    omega

instance : FiniteSource (Buffered ρ) where
  left := left
  left_le_unread s := Nat.add_le_add_left (FiniteFeed.left_le_remaining s.feed) _
  left_of_nextByte := left_of_nextByte

end Buffered

/-! ### The runs of a band -/

/-- A medium that hands out no more than was asked for, and than it has there. -/
class FiniteMedium (μ : Type) [Medium μ] : Prop where
  length_of_readAt {m : μ} {position n : Nat} {bytes : List UInt8}
    (h : Medium.readAt m position n = .ok bytes) :
    bytes.length ≤ n ∧ bytes.length ≤ Medium.size m - position

instance : FiniteMedium MemoryMedium where
  length_of_readAt := by
    intro m position n bytes h
    change MemoryMedium.readAt m position n = .ok bytes at h
    rw [MemoryMedium.readAt] at h
    split at h
    · cases h
    · cases h
      change _ ∧ _ ≤ m.bytes.size - position
      rw [Array.length_toList, Array.size_extract]
      omega

namespace BandFeed

variable {μ : Type} [Medium μ]

/-- What the medium has of the present run, and as much as it has for each record that was not looked
at yet. -/
def left (f : BandFeed μ) : Nat :=
  min f.stop (Medium.size f.store.commands) - f.position +
    (f.store.recordCount - f.next) * Medium.size f.store.commands

theorem lt_of_record? {s : BandStore μ} {i : Nat} {r : BlockRecord}
    (h : s.record? i = .ok (some r)) : i < s.recordCount := by
  by_contra hge
  rw [BandStore.record?, if_pos (not_lt.mp hge)] at h
  cases h

/-- A record that is looked at makes up for the run that it names, wherever that is. -/
theorem left_of_run {f : BandFeed μ} (h : f.next < f.store.recordCount) (position stop : Nat)
    (done : Bool) : left { f with next := f.next + 1, position, stop, done } ≤ f.left := by
  obtain ⟨k, hk⟩ : ∃ k, f.store.recordCount - f.next = k + 1 :=
    ⟨f.store.recordCount - f.next - 1, by omega⟩
  have hk' : f.store.recordCount - (f.next + 1) = k := by omega
  simp only [left, hk, hk', Nat.succ_mul]
  omega

theorem left_of_advance {n : Nat} {f f' : BandFeed μ} (h : advance n f = .ok f') :
    f'.left ≤ f.left := by
  induction n generalizing f with
  | zero =>
    cases h
    exact Nat.le_refl _
  | succ n ih =>
    by_cases hpos : f.position < f.stop
    · rw [advance_of_lt hpos] at h
      cases h
      exact Nat.le_refl _
    cases hdone : f.done with
    | true =>
      rw [advance_of_done hdone] at h
      cases h
      exact Nat.le_refl _
    | false =>
      cases hr : f.store.record? f.next with
      | error e => simp [advance, hdone, hpos, hr, bind, Except.bind] at h
      | ok found =>
        cases found with
        | none =>
          rw [advance_of_none hdone hpos hr] at h
          cases h
          exact Nat.le_refl _
        | some r =>
          have hnext := lt_of_record? hr
          rw [advance_of_some hdone hpos hr] at h
          split at h
          · cases h
            exact left_of_run hnext _ _ _
          split at h
          · cases hstop : f.store.runEnd (f.next + 1) with
            | error e =>
              rw [hstop] at h
              cases h
            | ok stop =>
              rw [hstop] at h
              exact (ih h).trans (left_of_run hnext _ _ _)
          · exact (ih h).trans (left_of_run hnext _ _ _)

variable [FiniteMedium μ]

theorem left_of_read {f f' : BandFeed μ} {n : Nat} {bytes : List UInt8}
    (h : read f n = .ok (bytes, f')) : bytes.length + f'.left ≤ f.left := by
  by_cases hn : n = 0
  · simp only [read, if_pos hn] at h
    cases h
    simp
  cases hadvance : advance (f.store.recordCount - f.next + 2) f with
  | error e => simp [read, hn, hadvance, bind, Except.bind] at h
  | ok f₁ =>
    have hle := left_of_advance hadvance
    by_cases hpos : f₁.position < f₁.stop
    · cases hread : Medium.readAt f₁.store.commands f₁.position (min n (f₁.stop - f₁.position)) with
      | error e =>
        simp [read, hn, hadvance, hpos, hread, BandStore.ofMedium, Except.mapError, bind,
          Except.bind] at h
      | ok portion =>
        obtain ⟨hasked, hthere⟩ := FiniteMedium.length_of_readAt hread
        simp only [read, if_neg hn, hadvance, if_pos hpos, hread, BandStore.ofMedium,
          Except.mapError, bind, Except.bind, pure, Except.pure] at h
        split at h
        · cases h
        · cases h
          simp only [left] at hle ⊢
          omega
    · simp only [read, if_neg hn, hadvance, if_neg hpos, bind, Except.bind, pure,
        Except.pure] at h
      cases h
      simpa using hle

instance : FiniteFeed (BandFeed μ) where
  left := left
  left_le_remaining f := Nat.add_le_add_right (by omega) _
  left_of_read := left_of_read

end BandFeed

end BandedPage
