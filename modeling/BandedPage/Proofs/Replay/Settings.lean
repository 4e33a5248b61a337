import Mathlib
import BandedPage.Command.Basic
import BandedPage.Proofs.Operand.Color
import BandedPage.Proofs.Operand.Rect
import BandedPage.Proofs.Replay.Commands

/-!
# Replaying what bands are told

Commands that change one thing that a band knows, and draw nothing.
-/

namespace BandedPage

open Opcode in
/-- A byte that tells one of four kinds of setting has room for six bits. -/
theorem kind_or_lt (kind : UInt8) (hk : kind ∈ [miscLop, miscDataX, miscTransfer, miscHalftone])
    {x : UInt8} (hx : x < 64) : (kind ||| x) &&& 0xc0 = kind ∧ (kind ||| x) &&& 0x3f = x :=
  Word.forall_byte_lt
    (P := fun x => (kind ||| x) &&& 0xc0 = kind ∧ (kind ||| x) &&& 0x3f = x)
    (by revert kind; decide +kernel) hx

/-- The low six bits of a logical operation, and the others, are all of it. -/
theorem LogicalOp.split (op : LogicalOp) :
    (op &&& 0x3f).toUInt8.toUInt32 ||| (UInt32.ofNat (op >>> 6).toNat <<< 6) = op := by
  have h63 : (0x3f : UInt32).toNat = 2 ^ 6 - 1 := rfl
  have h6 : (6 : UInt32).toNat % 32 = 6 := rfl
  have hlow : (op &&& 0x3f).toUInt8.toUInt32.toNat = op.toNat % 64 := by
    rw [UInt8.toNat_toUInt32, UInt32.toNat_toUInt8, UInt32.toNat_and, h63,
      Nat.and_two_pow_sub_one_eq_mod]
    omega
  have hhigh : ((op >>> 6) <<< 6).toNat = (op.toNat / 64) <<< 6 := by
    have := op.toNat_lt
    rw [UInt32.toNat_shiftLeft, UInt32.toNat_shiftRight, h6, Nat.shiftRight_eq_div_pow,
      Nat.shiftLeft_eq]
    norm_num
    omega
  rw [UInt32.ofNat_toNat, ← UInt32.toNat_inj, UInt32.toNat_or, hlow, hhigh, Nat.or_comm,
    ← Nat.shiftLeft_add_eq_or_of_lt (Nat.mod_lt _ (by norm_num)), Nat.shiftLeft_eq]
  omega

variable {box : Rect} {r : ReplayState}

/-- A command of one byte that changes something the band knows. -/
theorem Replays.ofBand (f : BandState → BandState) {code : UInt8} {o : Op}
    (hop : Op.ofByte? code = some o) (hne : o ≠ .control .endPage)
    (h : ∀ {σ τ : Type} [ByteSource σ] [Target τ],
      (Replay.perform o : ReplayM σ τ Unit) = Replay.modifyBand f) :
    Replays box [code] r [] { r with band := f r.band } := by
  refine ⟨code, [], o, rfl, hop, hne, fun {σ τ} _ _ _ => ?_⟩
  rw [h]
  exact Yields.modifyBand f

theorem replays_clipSwitch (on : Bool) :
    Replays box (Command.clipSwitch on) r []
      { r with band := { r.band with clipEnabled := on } } := by
  cases on with
  | false =>
    exact .ofBand (fun band => { band with clipEnabled := false }) (o := .state .disableClip) rfl (by decide)
      rfl
  | true =>
    exact .ofBand (fun band => { band with clipEnabled := true }) (o := .state .enableClip) rfl (by decide)
      rfl

theorem replays_lopSwitch (on : Bool) :
    Replays box (Command.lopSwitch on) r [] { r with band := { r.band with lopEnabled := on } } := by
  cases on with
  | false =>
    exact .ofBand (fun band => { band with lopEnabled := false }) (o := .control .disableLop) rfl (by decide)
      rfl
  | true =>
    exact .ofBand (fun band => { band with lopEnabled := true }) (o := .control .enableLop) rfl (by decide)
      rfl

theorem replays_copyMode (alpha : Bool) :
    Replays box (Command.copyMode alpha) r []
      { r with band := { r.band with copiesAlpha := alpha } } := by
  cases alpha with
  | false =>
    exact .ofBand (fun band => { band with copiesAlpha := false }) (o := .control .setCopyColor) rfl (by decide)
      rfl
  | true =>
    exact .ofBand (fun band => { band with copiesAlpha := true }) (o := .control .setCopyAlpha) rfl (by decide)
      rfl

theorem replays_lop (op : LogicalOp) :
    Replays box (Command.lop op) r []
      { r with band := { r.band with lop := op }, imager := { r.imager with logOp := op } } := by
  refine ⟨_, _, .control .setMisc, rfl, rfl, by decide, fun {σ τ} _ _ _ => ?_⟩
  have hlow : (op &&& 0x3f).toUInt8 < 64 := by
    have h63 : (0x3f : UInt32).toNat = 2 ^ 6 - 1 := rfl
    refine UInt8.lt_iff_toNat_lt.mpr (show _ < 64 from ?_)
    rw [UInt32.toNat_toUInt8, UInt32.toNat_and, h63, Nat.and_two_pow_sub_one_eq_mod]
    omega
  obtain ⟨hkind, hbits⟩ := kind_or_lt Opcode.miscLop (by decide) hlow
  have hhigh : (op >>> 6).toNat < 4294967296 := (op >>> 6).toNat_lt
  refine Yields.read_bind (l := Varint.encode (op >>> 6).toNat) (Decodes.nextByte _) ?_
  rw [hkind, if_pos rfl, hbits]
  refine (Yields.read_bind (Varint.decodes hhigh) (l := []) ?_).of_eq (by simp)
  rw [LogicalOp.split]
  exact Yields.modifyState _

theorem replays_dataX {shift : Nat} (h : shift < 32) :
    Replays box (Command.dataX shift) r [] { r with dataX := shift } := by
  refine ⟨_, _, .control .setMisc, rfl, rfl, by decide, fun {σ τ} _ _ _ => ?_⟩
  have hlow : UInt8.ofNat shift < 64 := by
    refine UInt8.lt_iff_toNat_lt.mpr (show _ < 64 from ?_)
    rw [UInt8.toNat_ofNat']
    omega
  obtain ⟨hkind, -⟩ := kind_or_lt Opcode.miscDataX (by decide) hlow
  have hbits : ∀ k < 32, (Opcode.miscDataX ||| UInt8.ofNat k) &&& 0x20 = 0 ∧
      ((Opcode.miscDataX ||| UInt8.ofNat k) &&& 0x1f).toNat = k := by decide
  obtain ⟨hshort, hvalue⟩ := hbits shift h
  refine Yields.read_bind (l := []) (Decodes.nextByte _) ?_
  rw [hkind, if_neg (by decide), if_pos rfl, hshort, hvalue]
  have hset : Yields box (Replay.modifyState fun s => { s with dataX := shift } : ReplayM σ τ Unit)
      [] r [] () { r with dataX := shift } := Yields.modifyState _
  simpa using hset

theorem replays_tilePhase {phase : Phase} (hx : Word.fits32 phase.x = true)
    (hy : Word.fits32 phase.y = true) :
    Replays box (Command.tilePhase phase) r []
      { r with band := { r.band with tilePhase := phase } } := by
  refine ⟨_, _, .control .setTilePhase, rfl, rfl, by decide, fun {σ τ} _ _ _ => ?_⟩
  refine Yields.read_bind (Varint.decodes_int_of_fits32 hx) ?_
  refine (Yields.read_bind (Varint.decodes_int_of_fits32 hy) (l := []) ?_).of_eq (by simp)
  exact Yields.modifyBand _

theorem Op.ofByte?_tileIndexDifference {n : UInt8} (h : n < 16) :
    Op.ofByte? (Opcode.tileIndexDifference + n) = some (.tileIndexDifference n) :=
  Word.forall_byte_lt (P := fun n => Op.ofByte? (Opcode.tileIndexDifference + n) = some (.tileIndexDifference n))
    (by decide) h

theorem Op.ofByte?_setTileIndex {n : UInt8} (h : n < 16) :
    Op.ofByte? (Opcode.setTileIndex + n) = some (.setTileIndex n) :=
  Word.forall_byte_lt (P := fun n => Op.ofByte? (Opcode.setTileIndex + n) = some (.setTileIndex n))
    (by decide) h

theorem replays_tileIndex {index last : Nat} (hi : index < 4096) (hl : r.band.tileIndex = last) :
    Replays box (Command.tileIndex index last) r []
      { r with band := { r.band with tileIndex := index } } := by
  rw [Command.tileIndex]
  by_cases hnear : (-8 ≤ (index : Int) - last && (index : Int) - last < 8) = true
  · rw [if_pos hnear]
    simp only [Bool.and_eq_true, decide_eq_true_eq] at hnear
    obtain ⟨n, hn, hlt, hval⟩ := RectCommand.exists_nibble
      (v := (index : Int) - last + 8) (by omega) (by omega)
    refine ⟨_, [], .tileIndexDifference n, by rw [hn], Op.ofByte?_tileIndexDifference hlt,
      fun heq => Op.noConfusion heq, fun {σ τ} _ _ _ => ?_⟩
    have hindex : (last : Int) + n.toNat - 8 = index := by omega
    have hword : Word.pattern 16 (index : Int) = index := by
      simp only [Word.pattern, Nat.one_shiftLeft]
      norm_num
      omega
    refine Yields.getState_bind ?_
    simp only [hl, hindex]
    rw [if_neg (by omega), hword]
    exact Yields.modifyBand _
  · rw [if_neg hnear]
    have hhigh : (UInt8.ofNat (index / 256)).toNat = index / 256 := by
      rw [UInt8.toNat_ofNat']
      omega
    have hlow : (UInt8.ofNat index).toNat = index % 256 := UInt8.toNat_ofNat'
    have hlt : UInt8.ofNat (index / 256) < 16 := by
      refine UInt8.lt_iff_toNat_lt.mpr (show _ < 16 from ?_)
      rw [hhigh]
      omega
    refine ⟨_, _, .setTileIndex _, rfl, Op.ofByte?_setTileIndex hlt,
      fun heq => Op.noConfusion heq, fun {σ τ} _ _ _ => ?_⟩
    refine Yields.read_bind (l := []) (Decodes.nextByte _) ?_
    have hindex : index / 256 * 256 + index % 256 = index := by omega
    rw [hhigh, hlow, hindex]
    exact Yields.modifyBand _

/-- A color is read back whatever the slot holds. It is the same color if the slot holds what it was
taken to hold and the device has the color. -/
theorem replays_color (box : Rect) (slot : ColorSlot) {color last : Color} (hne : color ≠ last)
    (hdepth : r.config.depth ∈ Config.depths) :
    ∃ color', Replays box (Command.color slot color last r.config.depth) r []
        { r with band := { r.band with colors := r.band.colors.set slot color' } } ∧
      (r.band.colors.get slot = last → color.IsOf r.config.depth → color' = color) := by
  obtain ⟨code, operands, op, result, hencode, hop, hgives, heq⟩ :=
    ColorCommand.writes_encode slot hne hdepth
  refine ⟨result (r.band.colors.get slot), ?_, fun hlast hof => hlast ▸ heq (.of_isOf hof)⟩
  rcases hgives (r.band.colors.get slot) with ⟨n, rfl, hd⟩ | ⟨rfl, hd⟩
  · refine ⟨code, operands, _, hencode, hop, fun heq => Op.noConfusion heq,
      fun {σ τ} _ _ _ => ?_⟩
    refine Yields.getState_bind ?_
    exact (Yields.read_bind hd (Yields.modifyBand _)).of_eq (by simp)
  · refine ⟨code, operands, _, hencode, hop, by simp, fun {σ τ} _ _ _ => ?_⟩
    refine Yields.getState_bind ?_
    exact (Yields.read_bind hd (Yields.modifyBand _)).of_eq (by simp)

theorem replays_tileColor (box : Rect) (slot : ColorSlot) {color last : Color} (hne : color ≠ last)
    (hdepth : r.config.depth ∈ Config.depths) :
    ∃ color', Replays box (Command.tileColor slot color last r.config.depth) r []
        { r with band := { r.band with tileColors := r.band.tileColors.set slot color' } } ∧
      (r.band.tileColors.get slot = last → color.IsOf r.config.depth → color' = color) := by
  obtain ⟨code, operands, op, result, hencode, hop, hgives, heq⟩ :=
    ColorCommand.writes_encode slot hne hdepth
  refine ⟨result (r.band.tileColors.get slot), ⟨Opcode.setTileColor, code :: operands,
    .control .setTileColor, ?_, rfl, by decide, fun {σ τ} _ _ _ => ?_⟩, fun hlast hof => hlast ▸ heq (.of_isOf hof)⟩
  · rw [Command.tileColor, hencode]
  · refine Yields.read_bind (l := operands) (Decodes.nextByte code) ?_
    refine Yields.getState_bind ?_
    rw [hop]
    rcases hgives (r.band.tileColors.get slot) with ⟨n, rfl, hd⟩ | ⟨rfl, hd⟩
    · refine (Yields.read_bind (l := []) hd ?_).of_eq (by simp)
      exact Yields.modifyBand _
    · refine (Yields.read_bind (l := []) hd ?_).of_eq (by simp)
      exact Yields.modifyBand _

end BandedPage
