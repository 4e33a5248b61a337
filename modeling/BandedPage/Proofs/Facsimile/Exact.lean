import Mathlib
import BandedPage.Proofs.Facsimile.OpenRow
import BandedPage.Proofs.Source.Ending

/-!
# Facsimile code is read exactly

Bits are handed out of a byte that was read before, so only every eighth of them asks the source.
Each code word takes at least one bit; with one step for each bit that is held, no loop runs out
of steps.
-/

namespace BandedPage

variable {σ α β : Type} [ByteSource σ] [LawfulSource σ]

/-- The source below a source of bits. -/
def SourceView.bits : SourceView (Facsimile.BitSource σ) σ where
  source s := s.source
  put source s := { s with source }
  Grows _ _ := True
  source_put _ _ := rfl
  put_source _ := rfl
  put_put _ _ _ := rfl
  grows_refl _ := trivial
  grows_trans _ _ := trivial

namespace Facsimile.BitSource

/-- So many bits are held. -/
def HoldsBits (s : BitSource σ) (n : Nat) : Prop :=
  ∃ bytes, LawfulSource.Holds s.source bytes ∧ n = bytes.length * 8 + s.left

theorem HoldsBits.le_unread {s : BitSource σ} {n : Nat} (h : s.HoldsBits n) : n ≤ s.unread := by
  obtain ⟨bytes, hbytes, rfl⟩ := h
  have := LawfulSource.length_le_unread hbytes
  simp only [unread]
  omega

variable [EndingSource σ]

theorem spends_nextBit : Spends HoldsBits 1 (nextBit : EStateM Error (BitSource σ) Bool) := by
  rintro ⟨source, byte, left⟩ n bit s' ⟨bytes, hbytes, rfl⟩ h
  cases left with
  | succ left =>
    cases h
    exact ⟨_, ⟨bytes, hbytes, rfl⟩, Nat.le_refl _⟩
  | zero =>
    cases bytes with
    | nil =>
      obtain ⟨s'', hs''⟩ := EndingSource.nextByte_nil ⟨hbytes, rfl⟩
      simp only [nextBit, hs''] at h
      cases h
    | cons b bytes =>
      obtain ⟨s'', hs'', hstand⟩ := EndingSource.nextByte_cons ⟨hbytes, rfl⟩
      simp only [nextBit, hs''] at h
      cases h
      exact ⟨_, ⟨bytes, hstand.holds, rfl⟩, by simp; omega⟩

theorem exact_nextBit : Exact .bits (nextBit : EStateM Error (BitSource σ) Bool) := by
  rintro ⟨source, byte, left⟩
  cases left with
  | succ left =>
    refine .of_same fun bit s' h => ?_
    cases h
    exact ⟨rfl, trivial, fun _ => rfl⟩
  | zero =>
    refine .of_decoder exact_nextByte (fun b => b.toNat.testBit 7) (fun b => ⟨source, b, 7⟩)
      (fun _ _ _ => trivial) fun s => ?_
    simp only [nextBit, SourceView.bits]
    cases nextByte s <;> rfl

section

variable {γ : Type} (table : List (Codeword × γ))

theorem exact_readWord (n : Nat) (word : Codeword) :
    Exact .bits (readWord table n word : EStateM Error (BitSource σ) γ) := by
  induction n generalizing word with
  | zero => exact fun _ => .of_same fun _ _ h => by cases h
  | succ n ih =>
    refine exact_nextBit.bind fun bit => ?_
    extract_lets word
    split
    · exact .pure _
    · exact ih word

end

theorem exact_readMode : Exact .bits (readMode : EStateM Error (BitSource σ) Mode) :=
  exact_readWord _ _ _

section

variable (table : List (Codeword × Nat)) (length : Nat)

theorem exact_readRunFrom (fuel total : Nat) :
    Exact .bits (readRunFrom table length fuel total : EStateM Error (BitSource σ) Nat) := by
  induction fuel generalizing total with
  | zero => exact fun _ => .of_same fun _ _ h => by cases h
  | succ fuel ih =>
    refine (exact_readWord table length ⟨0, 0⟩).bind fun run => ?_
    split
    · exact .pure _
    · exact ih _

/-- A run needs no more code words than there are bits. -/
theorem readRunFrom_of_fuel {s : BitSource σ} {n fuel fuel' : Nat} (hs : s.HoldsBits n)
    (hfuel : n < fuel) (hfuel' : n < fuel') (total : Nat) :
    readRunFrom table length fuel total s = readRunFrom table length fuel' total s := by
  induction fuel generalizing s n fuel' total with
  | zero => omega
  | succ fuel ih =>
    obtain ⟨fuel', rfl⟩ := Nat.exists_eq_succ_of_ne_zero (show fuel' ≠ 0 by omega)
    rw [readRunFrom, readRunFrom]
    cases hword : readWord table length ⟨0, 0⟩ s with
    | error e s' => rw [bind_of_error hword, bind_of_error hword]
    | ok run s' =>
      rw [bind_of_ok hword, bind_of_ok hword]
      obtain ⟨n', hn', hle⟩ := spends_readWord spends_nextBit table length _ s n run s' hs hword
      split
      · rfl
      · exact ih hn' (by omega) (by omega) _

end

theorem exact_readRun (black : Bool) :
    Exact .bits (readRun black : EStateM Error (BitSource σ) Nat) := by
  refine .of_fuel (fun n => exact_readRunFrom (runsOf black) (longest (runsOf black)) n 0) ?_
  intro s bytes offset hs
  have hbits : s.HoldsBits (bytes.length * 8 + s.left) := ⟨bytes, hs.holds, rfl⟩
  refine ⟨bytes.length * 8 + s.left + 1, fun n hn => ?_⟩
  exact readRunFrom_of_fuel _ _ hbits (Nat.lt_succ_of_le hbits.le_unread) hn 0

section

variable (above : List Nat) (columns : Nat)

theorem exact_readOpenRow (row : OpenRow) :
    Exact .bits (readOpenRow above columns row : EStateM Error (BitSource σ) OpenRow) := by
  refine exact_readMode.bind fun mode => ?_
  cases mode with
  | pass => exact .pure _
  | vertical offset => exact .lift _
  | horizontal =>
    exact (exact_readRun _).bind fun run1 => (exact_readRun _).bind fun run2 => .lift _
  | endOfLine => exact .throw _

theorem exact_readRow (fuel : Nat) (row : OpenRow) :
    Exact .bits (readRow above columns fuel row.line.toArray row.place row.black :
      EStateM Error (BitSource σ) (List Nat)) := by
  induction fuel generalizing row with
  | zero => exact fun _ => .of_same fun _ _ h => by cases h
  | succ fuel ih =>
    rw [readRow_succ]
    exact .ite (fun _ => .pure _) fun _ => (exact_readOpenRow above columns row).bind ih

/-- A row needs no more modes than there are bits. -/
theorem readRow_of_fuel {s : BitSource σ} {n fuel fuel' : Nat} (hs : s.HoldsBits n)
    (hfuel : n < fuel) (hfuel' : n < fuel') (row : OpenRow) :
    readRow above columns fuel row.line.toArray row.place row.black s =
      readRow above columns fuel' row.line.toArray row.place row.black s := by
  induction fuel generalizing s n fuel' row with
  | zero => omega
  | succ fuel ih =>
    obtain ⟨fuel', rfl⟩ := Nat.exists_eq_succ_of_ne_zero (show fuel' ≠ 0 by omega)
    rw [readRow_succ, readRow_succ]
    split
    · rfl
    · cases hmode : readOpenRow above columns row s with
      | error e s' => rw [bind_of_error hmode, bind_of_error hmode]
      | ok row' s' =>
        rw [bind_of_ok hmode, bind_of_ok hmode]
        obtain ⟨n', hn', hle⟩ :=
          spends_readOpenRow spends_nextBit above columns row s n row' s' hs hmode
        exact ih hn' (by omega) (by omega) row'

theorem exact_readRows (rows start : Nat) (above : List Nat) (data : Bytes) :
    Exact .bits (readRows columns rows start above data : EStateM Error (BitSource σ) Bytes) := by
  induction rows generalizing start above data with
  | zero => exact .pure _
  | succ rows ih =>
    have hrow : Exact .bits (do
        let s ← get
        readRow above columns (s.unread + 1) #[] (-1) false :
          EStateM Error (BitSource σ) (List Nat)) := by
      refine .of_fuel (fun n => exact_readRow above columns n {}) ?_
      intro s bytes offset hs
      have hbits : s.HoldsBits (bytes.length * 8 + s.left) := ⟨bytes, hs.holds, rfl⟩
      refine ⟨bytes.length * 8 + s.left + 1, fun n hn => ?_⟩
      exact readRow_of_fuel _ _ hbits (Nat.lt_succ_of_le hbits.le_unread) hn {}
    exact hrow.bind fun line => ih _ _ _

end

theorem exact_readEnd : Exact .bits (readEnd : EStateM Error (BitSource σ) Unit) :=
  exact_readMode.bind fun _ => .ite (fun _ => .throw _) fun _ => .pure _

end Facsimile.BitSource

variable [EndingSource σ]

namespace Facsimile

theorem exact_decode (raster height : Nat) :
    Exact .alone (decode raster height : Decoder σ Bytes) := by
  have hread : Exact .bits (BitSource.readWhole raster height : EStateM Error (BitSource σ) Bytes) :=
    (BitSource.exact_readRows (raster * 8) height 0 [] _).bind fun data =>
      BitSource.exact_readEnd.bind fun _ => BitSource.exact_readEnd.bind fun _ => .pure data
  intro source bytes offset data source' hs hrun
  rw [decode_eq] at hrun
  cases hrun' : (BitSource.readWhole raster height : EStateM Error (BitSource σ) Bytes) { source } with
  | error e s =>
    rw [hrun'] at hrun
    cases hrun
  | ok data' s =>
    rw [hrun'] at hrun
    cases hrun
    obtain ⟨taken, rest, rfl, hrest, hneeds⟩ := hread { source } bytes offset data s hs hrun'
    refine ⟨taken, rest, rfl, hrest, ?_, ?_, trivial⟩
    · intro s rest hs
      obtain ⟨s', hs', hstand⟩ := hneeds.ok s rest hs
      refine ⟨s', ?_, hstand⟩
      exact (decode_eq raster height s).trans (congrArg (mapState BitSource.source) hs')
    · intro s part missing heq hmissing hs
      obtain ⟨needed, q, hq, hneeded, -⟩ := hneeds.short s part missing heq hmissing hs
      refine ⟨needed, q.source, ?_, hneeded, trivial⟩
      exact (decode_eq raster height s).trans (congrArg (mapState BitSource.source) hq)

end Facsimile

end BandedPage
