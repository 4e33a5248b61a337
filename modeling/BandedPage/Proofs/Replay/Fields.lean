import Mathlib
import BandedPage.Command.Imager
import BandedPage.Proofs.Imager.Agreement
import BandedPage.Proofs.Replay.Commands

/-!
# Replaying the imager state

A command for a field changes just that field of the imager state, to one that agrees with what was
sent, and marks it as known.
-/

namespace BandedPage

/-- A color space whose largest index a command carries. -/
def ColorSpace.Sendable (cs : ColorSpace) : Prop := ∀ ix ∈ cs.indexing, ix.highest < 4294967296

/-- An imager state whose numbers commands carry. -/
structure ImagerState.Sendable (s : ImagerState) : Prop where
  fillAdjust : Word.fits32 s.fillAdjust.x = true ∧ Word.fits32 s.fillAdjust.y = true
  dash : s.dash.pattern.length ≤ Dash.maxLength

def ReplayState.told (r : ReplayState) (s : ImagerState) (cs : ColorSpace) (f : StateField) :
    ReplayState :=
  { r with
    imager := r.imager.withField s.sent f
    colorSpace := if f = StateField.colorSpace then cs else r.colorSpace }.learn f

namespace ColorSpace

/-- The parts of the byte of an indexed space. -/
theorem indexed_bits (base : ColorModel) (useProcedure : Bool) (b : UInt8)
    (hb : b = (base.code <<< 4) ||| if useProcedure then 12 else 8) :
    (b >>> 4).toNat = base.code.toNat ∧ (b &&& 8 != 0) = true ∧ (b &&& 4 != 0) = useProcedure := by
  subst hb
  cases base <;> cases useProcedure <;> decide

/-- The byte of a color space tells whether a largest index follows. -/
@[simp] theorem code_and_8 (cs : ColorSpace) : (cs.code &&& 8 != 0) = cs.indexing.isSome := by
  obtain ⟨base, indexing⟩ := cs
  cases indexing with
  | none => cases base <;> rfl
  | some ix => exact (indexed_bits base ix.useProcedure _ rfl).2.1

@[simp] theorem ofCode_code (cs : ColorSpace) :
    ofCode cs.code ((cs.indexing.map (·.highest)).getD 0) = .ok cs := by
  obtain ⟨base, indexing⟩ := cs
  cases indexing with
  | none => cases base <;> rfl
  | some ix =>
    obtain ⟨highest, useProcedure⟩ := ix
    obtain ⟨hbase, h8, h4⟩ := indexed_bits base useProcedure
      (⟨base, some ⟨highest, useProcedure⟩⟩ : ColorSpace).code rfl
    rw [ofCode, hbase, h8, h4]
    cases base <;> rfl

end ColorSpace

section

variable {σ τ : Type} [ByteSource σ] [LawfulSource σ] [Target τ] {box : Rect} {r : ReplayState}

theorem yields_setField (field : StateField) (f : ImagerState → ImagerState) :
    Yields box (Replay.setField field f : ReplayM σ τ Unit) [] r []
      () ({ r with imager := f r.imager }.learn field) :=
  Yields.modifyState _

theorem yields_colorSpace {cs : ColorSpace} (h : cs.Sendable) :
    Yields box (Replay.setColorSpace : ReplayM σ τ Unit) (Command.colorSpace cs).tail r [] ()
      ({ r with colorSpace := cs }.learn .colorSpace) := by
  have hset : Yields box (Replay.modifyState fun s =>
      { s with colorSpace := cs }.learn .colorSpace : ReplayM σ τ Unit) [] r [] ()
      ({ r with colorSpace := cs }.learn .colorSpace) := Yields.modifyState _
  rw [Replay.setColorSpace]
  refine Yields.read_bind (Decodes.nextByte cs.code) ?_
  rw [cs.code_and_8]
  have hcode := cs.ofCode_code
  cases hix : cs.indexing with
  | none =>
    rw [hix] at hcode
    refine Yields.pure_bind ?_
    exact Yields.lift_bind hcode hset
  | some ix =>
    rw [hix] at hcode
    refine (Yields.read_bind (Varint.decodes (h ix hix)) (l := []) ?_).of_eq (by simp)
    exact Yields.lift_bind hcode hset

theorem yields_dash {d : Dash} (h : d.pattern.length ≤ Dash.maxLength) :
    Yields box (Replay.setDash : ReplayM σ τ Unit) (Command.dash d).tail r [] ()
      ({ r with imager := { r.imager with dash := d } }.learn .dash) := by
  have hbits : ∀ n ≤ Dash.maxLength, ∀ adapt absolute : Bool,
      let b := UInt8.ofNat n ||| Command.flag 7 adapt ||| Command.flag 6 absolute
      (b &&& 0x3f).toNat = n ∧ (b &&& 0x80 != 0) = adapt ∧ (b &&& 0x40 != 0) = absolute := by
    decide
  obtain ⟨hlength, hadapt, habsolute⟩ := hbits _ h d.adapt d.dotLengthAbsolute
  rw [Replay.setDash]
  refine Yields.read_bind (l := d.dotLength.toBytes ++ d.offset.toBytes ++
    d.pattern.flatMap Single.toBytes) (Decodes.nextByte _) ?_
  rw [hlength, hadapt, habsolute]
  dsimp only
  rw [if_neg (Nat.not_lt.mpr h), List.append_assoc]
  refine Yields.read_bind (Operand.decodes_single _) ?_
  refine Yields.read_bind (Operand.decodes_single _) ?_
  refine (Yields.read_bind (Operand.decodes_many
    (fun a _ => Operand.decodes_single a) rfl) (l := []) ?_).of_eq (by simp)
  exact yields_setField .dash ({ · with dash := d })

open Opcode in
/-- What a byte of the second miscellaneous setting says. -/
theorem yields_capJoin (cap : LineCap) (join : LineJoin) :
    Yields box (Replay.setOptions : ReplayM σ τ Unit)
      [optionCapJoin ||| ((cap.code <<< 3) ||| join.code)] r [] ()
      ({ r with imager := { r.imager with cap, join } }.learn .capJoin) := by
  obtain ⟨b, hb⟩ : ∃ b, b = optionCapJoin ||| ((cap.code <<< 3) ||| join.code) := ⟨_, rfl⟩
  have hbits : b &&& 0xc0 = optionCapJoin ∧ LineCap.ofCode (b >>> 3) = cap ∧
      LineJoin.ofCode b = join := by
    subst hb
    cases cap <;> cases join <;> decide
  obtain ⟨hkind, hcap, hjoin⟩ := hbits
  rw [← hb, Replay.setOptions]
  refine Yields.read_bind (l := []) (Decodes.nextByte b) ?_
  rw [hkind, hcap, hjoin]
  exact yields_setField .capJoin ({ · with cap, join })

open Opcode Command in
theorem yields_curveOptions (accurateCurves overprint strokeAdjust : Bool) :
    Yields box (Replay.setOptions : ReplayM σ τ Unit)
      [optionCurves ||| (flag 2 accurateCurves ||| flag 1 overprint ||| flag 0 strokeAdjust)] r [] ()
      ({ r with
        imager := { r.imager with accurateCurves, overprint, strokeAdjust } }.learn .curveOptions) := by
  obtain ⟨b, hb⟩ : ∃ b, b = optionCurves |||
    (flag 2 accurateCurves ||| flag 1 overprint ||| flag 0 strokeAdjust) := ⟨_, rfl⟩
  have hbits : b &&& 0xc0 = optionCurves ∧ (b &&& 4 != 0) = accurateCurves ∧
      (b &&& 2 != 0) = overprint ∧ (b &&& 1 != 0) = strokeAdjust := by
    subst hb
    cases accurateCurves <;> cases overprint <;> cases strokeAdjust <;> decide
  obtain ⟨hkind, haccurate, hoverprint, hadjust⟩ := hbits
  rw [← hb, Replay.setOptions]
  refine Yields.read_bind (l := []) (Decodes.nextByte b) ?_
  rw [hkind, haccurate, hoverprint, hadjust]
  exact yields_setField .curveOptions ({ · with accurateCurves, overprint, strokeAdjust })

theorem yields_alpha (alpha : UInt16) :
    Yields box (Replay.setOptions : ReplayM σ τ Unit)
      ((Opcode.optionAlpha ||| 0) :: Word.littleEndian 2 alpha.toNat) r [] ()
      ({ r with imager := { r.imager with alpha } }.learn .alpha) := by
  have hlt : alpha.toNat < 256 ^ 2 := alpha.toNat_lt
  rw [Replay.setOptions]
  refine Yields.read_bind (l := Word.littleEndian 2 alpha.toNat) (Decodes.nextByte _) ?_
  refine (Yields.read_bind (Operand.decodes_natural_of_lt hlt) (l := []) ?_).of_eq (by simp)
  rw [UInt16.ofNat_toNat]
  exact yields_setField .alpha ({ · with alpha })

end

/-- A field that is sent is known then, and agrees; nothing else changes. -/
theorem replays_ofField (box : Rect) (r : ReplayState) {s : ImagerState} {cs : ColorSpace}
    (hs : s.Sendable) (hcs : cs.Sendable) {f : StateField} (hf : f ≠ .clip) :
    Replays box (Command.ofField s cs f) r [] (r.told s cs f) := by
  cases f with
  | flatness =>
    refine ⟨_, _, .state .setFlatness, rfl, rfl, by decide, fun {σ τ} _ _ _ => ?_⟩
    exact (Yields.read_bind (Operand.decodes_single s.flatness) (l := [])
      (yields_setField _ _)).of_eq (by simp)
  | fillAdjust =>
    refine ⟨_, _, .state .setFillAdjust, rfl, rfl, by decide, fun {σ τ} _ _ _ => ?_⟩
    refine Yields.read_bind (Operand.decodes_integer hs.fillAdjust.1) ?_
    exact (Yields.read_bind (Operand.decodes_integer hs.fillAdjust.2) (l := [])
      (yields_setField _ _)).of_eq (by simp)
  | ctm =>
    refine ⟨_, _, .state .setCtm, rfl, rfl, by decide, fun {σ τ} _ _ _ => ?_⟩
    exact (Yields.read_bind (Matrix.decodes_encode s.ctm) (l := [])
      (yields_setField _ _)).of_eq (by simp)
  | lineWidth =>
    refine ⟨_, _, .state .setLineWidth, rfl, rfl, by decide, fun {σ τ} _ _ _ => ?_⟩
    exact (Yields.read_bind (Operand.decodes_single s.lineWidth) (l := [])
      (yields_setField _ _)).of_eq (by simp)
  | miterLimit =>
    refine ⟨_, _, .state .setMiterLimit, rfl, rfl, by decide, fun {σ τ} _ _ _ => ?_⟩
    exact (Yields.read_bind (Operand.decodes_single s.miterLimit) (l := [])
      (yields_setField _ _)).of_eq (by simp)
  | capJoin =>
    exact ⟨_, _, .state .setOptions, rfl, rfl, by decide, fun {σ τ} _ _ _ =>
      yields_capJoin s.cap s.join⟩
  | curveOptions =>
    exact ⟨_, _, .state .setOptions, rfl, rfl, by decide, fun {σ τ} _ _ _ =>
      yields_curveOptions s.accurateCurves s.overprint s.strokeAdjust⟩
  | dash =>
    exact ⟨_, _, .state .setDash, rfl, rfl, by decide, fun {σ τ} _ _ _ => yields_dash hs.dash⟩
  | alpha =>
    exact ⟨_, _, .state .setOptions, rfl, rfl, by decide, fun {σ τ} _ _ _ => yields_alpha s.alpha⟩
  | clip => exact absurd rfl hf
  | colorSpace =>
    exact ⟨_, _, .state .setColorSpace, rfl, rfl, by decide, fun {σ τ} _ _ _ =>
      yields_colorSpace hcs⟩

end BandedPage
