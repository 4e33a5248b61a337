import Mathlib
import BandedPage.Command.Halftone
import BandedPage.Proofs.Replay.Settings

/-!
# Replaying what belongs to a page as a whole

Parameters, transfer maps and halftones are handed to the target and change nothing that other
commands depend on. A halftone arrives in portions, and is handed on with the last one.
-/

namespace BandedPage

/-- The call draws nothing but tells the target about the page. -/
def TargetCall.isSetting : TargetCall → Bool
  | .putParams _ | .installHalftone _ | .installTransfer _ _ => true
  | _ => false

variable {box : Rect} {r : ReplayState}

theorem replays_params {params : List UInt8} (h : params.length < 4294967296) :
    Replays box (Command.params params) r [.putParams params] r := by
  refine ⟨_, _, .state .putParams, rfl, rfl, by decide, fun {σ τ} _ _ _ => ?_⟩
  rw [← List.append_nil params, List.append_nil params]
  refine Yields.read_bind (Operand.decodes_natural_of_lt (n := 4) (by omega)) ?_
  rw [← List.append_nil params]
  refine Yields.read_bind (Decodes.take (by simp)) ?_
  rw [List.append_nil]
  exact Yields.draw _

/-- A transfer map that commands carry. -/
def TransferMap.Sendable (map : TransferMap) : Prop :=
  ∀ entries ∈ map, entries.length = transferMapSize ∧ ∀ entry ∈ entries, entry < 65536

open Opcode in
/-- The byte in front of a transfer map tells its index and whether it is the identity. -/
theorem transferFlags_bits {index : Nat} (h : index < transferMapCount) (given : Bool) {b : UInt8}
    (hb : b = (if given then miscTransfer ||| 0x20 ||| UInt8.ofNat index
      else miscTransfer ||| UInt8.ofNat index)) :
    b &&& 0xc0 = miscTransfer ∧ (b &&& 0x20 != 0) = given ∧ (b &&& 0x1f).toNat = index := by
  have hlt : index < 32 := h
  subst hb
  interval_cases index <;> cases given <;> exact ⟨rfl, rfl, rfl⟩

theorem replays_transferMap {index : Nat} (hindex : index < transferMapCount) {map : TransferMap}
    (hmap : map.Sendable) :
    Replays box (Command.transferMap index map) r [.installTransfer index map] r := by
  have hset : ∀ {σ τ : Type} [ByteSource σ] [LawfulSource σ] [Target τ] {b : UInt8}
      {bytes : List UInt8}, b &&& 0xc0 = Opcode.miscTransfer →
      Yields box (Replay.setTransferMap b : ReplayM σ τ Unit) bytes r
        [.installTransfer index map] () r →
      Yields box (Replay.setMisc : ReplayM σ τ Unit) (b :: bytes) r
        [.installTransfer index map] () r := by
    intro σ τ _ _ _ b bytes hkind h
    refine Yields.nextByte_bind ?_
    dsimp only
    rw [hkind, if_neg (by decide), if_neg (by decide), if_pos rfl]
    exact h
  cases map with
  | none =>
    obtain ⟨hkind, hgiven, hlow⟩ := transferFlags_bits hindex false
      (b := Opcode.miscTransfer ||| UInt8.ofNat index) rfl
    refine ⟨_, _, .control .setMisc, rfl, rfl, by decide, fun {σ τ} _ _ _ => hset hkind ?_⟩
    rw [Replay.setTransferMap, hgiven, hlow]
    exact Yields.draw (.installTransfer index none)
  | some entries =>
    obtain ⟨hkind, hgiven, hlow⟩ := transferFlags_bits hindex true
      (b := Opcode.miscTransfer ||| 0x20 ||| UInt8.ofNat index) rfl
    obtain ⟨hlength, hentries⟩ := hmap entries rfl
    refine ⟨_, _, .control .setMisc, rfl, rfl, by decide, fun {σ τ} _ _ _ => hset hkind ?_⟩
    rw [Replay.setTransferMap, hgiven, hlow, ← List.append_nil (entries.flatMap _)]
    refine Yields.read_bind (Operand.decodes_many (fun entry hentry => ?_) hlength) ?_
    · exact Operand.decodes_natural_of_lt (n := 2) (hentries entry hentry)
    · exact Yields.draw (.installTransfer index (some entries))

/-! ### Halftones -/

/-- An order whose numbers commands carry, with all the levels and bits that belong to it. -/
structure HalftoneOrder.Sendable (o : HalftoneOrder) : Prop where
  numbers : ∀ n ∈ [o.width, o.height, o.raster, o.shift, o.levelCount, o.bitCount], n < 4294967296
  levelCount : o.levels.length = o.levelCount
  bitCount : o.bits.length = o.bitCount
  levels : ∀ level ∈ o.levels, level < 4294967296
  bits : ∀ bit ∈ o.bits, bit.offset < 4294967296 ∧ bit.mask < 4294967296

/-- A halftone that commands carry. -/
structure Halftone.Sendable (h : Halftone) : Prop where
  order : h.order.Sendable
  count : h.components.length < 4294967296
  components : ∀ c ∈ h.components, c.order.Sendable ∧ c.name < 4294967296

/-- The replay is in the middle of a halftone of so many components, at an order as far as `o`. -/
def ReplayState.Assembling (r : ReplayState) (count index : Nat) (o : HalftoneOrder) : Prop :=
  ∃ h : Halftone, r.halftone = some ⟨h, index⟩ ∧ h.components.length = count ∧
    h.order? index = some o

namespace Halftone

variable {h : Halftone} {index : Nat} {o o' : HalftoneOrder}

@[simp]
theorem order?_modifyOrder (hi : index ≤ h.components.length) (f : HalftoneOrder → HalftoneOrder) :
    (h.modifyOrder index f).order? index = (h.order? index).map f := by
  cases index with
  | zero => rfl
  | succ i =>
    simp only [modifyOrder, order?, List.getElem?_modify_eq, Option.map_map, Functor.map]
    rfl

@[simp]
theorem length_modifyOrder (h : Halftone) (index : Nat) (f : HalftoneOrder → HalftoneOrder) :
    (h.modifyOrder index f).components.length = h.components.length := by
  cases index <;> simp [modifyOrder]

@[simp] theorem length_setName (h : Halftone) (index name : Nat) :
    (h.setName index name).components.length = h.components.length := by
  cases index <;> simp [setName]

@[simp] theorem order?_setName (h : Halftone) (index name : Nat) :
    (h.setName index name).order? index = h.order? index := by
  cases index with
  | zero => rfl
  | succ i => simp [setName, order?, Function.comp_def]

theorem exists_order? (hi : index ≤ h.components.length) : ∃ o, h.order? index = some o := by
  cases index with
  | zero => exact ⟨h.order, rfl⟩
  | succ i => exact ⟨(h.components[i]).order, by simp [order?, List.getElem?_eq_getElem hi]⟩

end Halftone

/-- The replay goes on with a halftone, or has installed it; nothing else has changed. -/
def AfterHalftone (box : Rect) (commands : List Command) (r : ReplayState)
    (Q : ReplayState → Prop) : Prop :=
  ∃ calls assembly, ReplaysAll box commands r calls { r with halftone := assembly } ∧
    (∀ call ∈ calls, call.isSetting = true) ∧ Q { r with halftone := assembly }

theorem AfterHalftone.append {commands commands' : List Command} {Q Q' : ReplayState → Prop}
    (h : AfterHalftone box commands r Q)
    (h' : ∀ assembly, Q { r with halftone := assembly } →
      AfterHalftone box commands' { r with halftone := assembly } Q') :
    AfterHalftone box (commands ++ commands') r Q' := by
  obtain ⟨calls, assembly, hreplays, hcalls, hq⟩ := h
  obtain ⟨calls', assembly', hreplays', hcalls', hq'⟩ := h' assembly hq
  refine ⟨calls ++ calls', assembly', hreplays.append hreplays', fun call hcall => ?_, hq'⟩
  exact (List.mem_append.mp hcall).elim (hcalls call) (hcalls' call)

theorem AfterHalftone.cons {command : Command} {commands : List Command}
    {Q Q' : ReplayState → Prop} (h : AfterHalftone box [command] r Q)
    (h' : ∀ assembly, Q { r with halftone := assembly } →
      AfterHalftone box commands { r with halftone := assembly } Q') :
    AfterHalftone box (command :: commands) r Q' :=
  h.append h'

/-- A portion of levels or bits is added to its order. Only the completed default order ends the
halftone. -/
theorem replays_halftoneData {count index : Nat} {o o' : HalftoneOrder}
    (h : r.Assembling count index o) {items : List (List UInt8)} (hitems : items.length < 256)
    (hread : ∀ {σ : Type} [ByteSource σ] [LawfulSource σ],
      Decodes (Replay.extendOrder o items.length : Decoder σ HalftoneOrder) items.flatten o')
    (hindex : index ≤ count) :
    AfterHalftone box [Command.halftoneData items] r fun r' =>
      (index = 0 → o'.isComplete = false) → r'.Assembling count index o' := by
  obtain ⟨halftone, hassembly, hcount, horder⟩ := h
  have hnumber : (UInt8.ofNat items.length).toNat = items.length := by
    rw [UInt8.toNat_ofNat', Nat.mod_eq_of_lt (by omega)]
  have hof : Replay.orderOf r.halftone index "data" = .ok (halftone, o) := by
    simp only [Replay.orderOf, hassembly, horder]
  have hstart : ∀ {σ τ : Type} [ByteSource σ] [LawfulSource σ] [Target τ] {calls : List TargetCall}
      {r' : ReplayState},
      Yields box (if (index = 0 && o'.isComplete) = true then do
          Replay.modifyState fun s => { s with halftone := none }
          Replay.draw (Target.installHalftone (halftone.modifyOrder index fun _ => o'))
        else Replay.modifyState fun s =>
          { s with halftone := some { halftone := halftone.modifyOrder index fun _ => o', index } } :
          ReplayM σ τ Unit) [] r calls () r' →
      Yields box (Replay.setHalftoneData : ReplayM σ τ Unit)
        (UInt8.ofNat items.length :: items.flatten) r calls () r' := by
    intro σ τ _ _ _ calls r' hlast
    refine Yields.nextByte_bind ?_
    refine Yields.getState_bind ?_
    have hi : (r.halftone.map (·.index)).getD 0 = index := by rw [hassembly]; rfl
    dsimp only
    rw [hi, hnumber]
    refine Yields.lift_bind hof ?_
    rw [← List.append_nil items.flatten]
    exact Yields.read_bind hread hlast
  by_cases hdone : (index = 0 && o'.isComplete) = true
  · refine ⟨[.installHalftone (halftone.modifyOrder index fun _ => o')], none,
      .single ⟨_, _, .control .setHalftoneData, rfl, rfl, by decide,
        fun {σ τ} _ _ _ => hstart ?_⟩, ?_, ?_⟩
    · rw [if_pos hdone]
      exact Yields.modifyState_bind (Yields.draw (.installHalftone _))
    · intro call hcall
      rw [List.mem_singleton.mp hcall]
      trivial
    · intro hnot
      rw [Bool.and_eq_true, decide_eq_true_eq] at hdone
      rw [hnot hdone.1] at hdone
      cases hdone.2
  · refine ⟨[], some ⟨halftone.modifyOrder index fun _ => o', index⟩,
      .single ⟨_, _, .control .setHalftoneData, rfl, rfl, by decide,
        fun {σ τ} _ _ _ => hstart ?_⟩, by simp, fun _ => ?_⟩
    · rw [if_neg hdone]
      exact Yields.modifyState _
    · refine ⟨_, rfl, by rw [Halftone.length_modifyOrder, hcount], ?_⟩
      rw [Halftone.order?_modifyOrder (hcount ▸ hindex), horder]
      rfl

namespace Command

/-- Portions are not empty, not too long, and together the whole. -/
theorem portions_spec {α : Type} {n : Nat} (hn : 0 < n) (items : List α) :
    (portions n items).flatten = items ∧ ∀ p ∈ portions n items, p ≠ [] ∧ p.length ≤ n := by
  have htake : ∀ k, ((List.range k).map fun i => (items.drop (i * n)).take n).flatten =
      items.take (k * n) := by
    intro k
    induction k with
    | zero => simp
    | succ k ih =>
      rw [List.range_succ, List.map_append, List.flatten_append, ih, Nat.succ_mul, List.take_add]
      simp
  refine ⟨?_, fun p hp => ?_⟩
  · rw [portions, htake]
    refine List.take_of_length_le ?_
    have hround := Nat.div_add_mod (items.length + n - 1) n
    have hrest := Nat.mod_lt (items.length + n - 1) hn
    rw [Nat.mul_comm] at hround
    omega
  · rw [portions, List.mem_map] at hp
    obtain ⟨i, hi, rfl⟩ := hp
    rw [List.mem_range] at hi
    have hbefore : i * n < items.length := by
      have hle : (i + 1) * n ≤ items.length + n - 1 :=
        (Nat.mul_le_mul_right n hi).trans (Nat.div_mul_le_self ..)
      rw [Nat.succ_mul] at hle
      omega
    refine ⟨fun hnil => ?_, by simp⟩
    have hlength := congrArg List.length hnil
    simp only [List.length_take, List.length_drop, List.length_nil] at hlength
    omega

end Command

/-- What a portion of levels or bits makes of its order. -/
structure HalftoneOrder.Grows (o : HalftoneOrder) (items : List (List UInt8)) (o' : HalftoneOrder) :
    Prop where
  read : ∀ {σ : Type} [ByteSource σ] [LawfulSource σ],
    Decodes (Replay.extendOrder o items.length : Decoder σ HalftoneOrder) items.flatten o'

theorem HalftoneOrder.grows_levels {o : HalftoneOrder} {levels : List Nat} (hne : levels ≠ [])
    (hroom : o.levels.length + levels.length ≤ o.levelCount)
    (hlevels : ∀ level ∈ levels, level < 4294967296) :
    o.Grows (levels.map Command.word) { o with levels := o.levels ++ levels } := by
  have hpos : 0 < levels.length := List.length_pos_of_ne_nil hne
  refine ⟨fun {σ} _ _ => ?_⟩
  rw [Replay.extendOrder, List.length_map, if_pos (by omega), if_neg (by omega)]
  have hmany : Decodes (Operand.many (Operand.natural 4) levels.length : Decoder σ (List Nat))
      (levels.flatMap Command.word) levels :=
    Operand.decodes_many (fun level hlevel =>
      Operand.decodes_natural_of_lt (n := 4) (hlevels level hlevel)) rfl
  exact hmany.bind_pure

theorem HalftoneOrder.grows_bits {o : HalftoneOrder} {bits : List ThresholdBit}
    (hlevels : o.levels.length = o.levelCount) (hroom : o.bits.length + bits.length ≤ o.bitCount)
    (hbits : ∀ bit ∈ bits, bit.offset < 4294967296 ∧ bit.mask < 4294967296) :
    o.Grows (bits.map fun b => Command.word b.offset ++ Command.word b.mask)
      { o with bits := o.bits ++ bits } := by
  refine ⟨fun {σ} _ _ => ?_⟩
  rw [Replay.extendOrder, List.length_map, if_neg (by omega), if_neg (by omega)]
  have hmany : Decodes (Operand.many Replay.thresholdBit bits.length : Decoder σ (List ThresholdBit))
      (bits.flatMap fun b => Command.word b.offset ++ Command.word b.mask) bits :=
    Operand.decodes_many (fun bit hbit => .bind
      (Operand.decodes_natural_of_lt (n := 4) (hbits bit hbit).1)
      (Operand.decodes_natural_of_lt (n := 4) (hbits bit hbit).2).bind_pure) rfl
  exact hmany.bind_pure

/-- Portions of one kind arrive one after another. -/
theorem afterHalftone_portions {α : Type} {count index : Nat} (hindex : index ≤ count)
    (bytes : α → List UInt8) (grown : HalftoneOrder → List α → HalftoneOrder)
    (hgrown : ∀ o p q, grown (grown o p) q = grown o (p ++ q)) (hnil : ∀ o, grown o [] = o)
    (Fits : HalftoneOrder → List α → Prop) (portions : List (List α))
    (hfits : ∀ o p q, Fits o (p ++ q) → p ≠ [] → o.Grows (p.map bytes) (grown o p) ∧
      Fits (grown o p) q ∧ (q ≠ [] → (grown o p).isComplete = false))
    (hportions : ∀ p ∈ portions, p ≠ [] ∧ p.length < 256)
    {o : HalftoneOrder} (h : r.Assembling count index o) (hall : Fits o portions.flatten) :
    AfterHalftone box (portions.map fun p => Command.halftoneData (p.map bytes)) r fun r' =>
      (index = 0 → portions = [] ∨ (grown o portions.flatten).isComplete = false) →
        r'.Assembling count index (grown o portions.flatten) := by
  induction portions generalizing r o with
  | nil =>
    refine ⟨[], r.halftone, .nil r, by simp, fun _ => ?_⟩
    rw [List.flatten_nil, hnil]
    exact h
  | cons p rest ih =>
    obtain ⟨hne, hlength⟩ := hportions p List.mem_cons_self
    obtain ⟨hgrows, hrest, hincomplete⟩ := hfits o p rest.flatten hall hne
    have hfirst : AfterHalftone box _ r _ := replays_halftoneData h
      (by rw [List.length_map]; exact hlength) hgrows.read hindex
    refine AfterHalftone.cons hfirst fun assembly hq => ?_
    have hportions' := fun q hq => hportions q (List.mem_cons_of_mem p hq)
    rw [List.flatten_cons, ← hgrown]
    cases rest with
    | nil =>
      refine ⟨[], assembly, .nil _, by simp, fun hopen => ?_⟩
      rw [List.flatten_nil, hnil] at hopen ⊢
      exact hq fun hzero => (hopen hzero).resolve_left (by simp)
    | cons q rest =>
      have hmore : (q :: rest).flatten ≠ [] := by
        rw [List.flatten_cons]
        exact List.append_ne_nil_of_left_ne_nil (hportions' q List.mem_cons_self).1 _
      obtain ⟨calls, assembly', hreplays, hcalls, hdone⟩ :=
        ih hportions' (hq fun _ => hincomplete hmore) hrest
      exact ⟨calls, assembly', hreplays, hcalls, fun hopen => hdone fun hzero =>
        .inr ((hopen hzero).resolve_left (by simp))⟩

/-- The replay is in the middle of a halftone of so many components. -/
def ReplayState.HasHalftone (r : ReplayState) (count : Nat) : Prop :=
  ∃ a, r.halftone = some a ∧ a.halftone.components.length = count

theorem ReplayState.Assembling.hasHalftone {count index : Nat} {o : HalftoneOrder}
    (h : r.Assembling count index o) : r.HasHalftone count := by
  obtain ⟨halftone, hassembly, hcount, -⟩ := h
  exact ⟨_, hassembly, hcount⟩

/-- An order is begun without levels and bits. -/
theorem replays_halftoneHead {count index name : Nat} {o : HalftoneOrder} (ho : o.Sendable)
    (hcount : count < 4294967296) (hindex : index ≤ count) (hname : name < 4294967296)
    (h : r.HasHalftone count) :
    AfterHalftone box [Opcode.setHalftoneOrder :: (Varint.encode index ++
      (if index = 0 then [] else Varint.encode name) ++
      [o.width, o.height, o.raster, o.shift, o.levelCount, o.bitCount].flatMap Varint.encode)] r
      (·.Assembling count index { o with levels := [], bits := [] }) := by
  obtain ⟨⟨halftone, last⟩, hassembly, hlength⟩ := h
  have hat : index ≤ halftone.components.length := hlength ▸ hindex
  obtain ⟨before, hbefore⟩ := Halftone.exists_order? hat
  obtain ⟨next, hnext⟩ : ∃ next : Halftone, next =
    (halftone.modifyOrder index fun _ => { o with levels := [], bits := [] }).setName index
      (if index = 0 then 0 else name) := ⟨_, rfl⟩
  have hof : Replay.orderOf r.halftone index "order" = .ok (halftone, before) := by
    simp only [Replay.orderOf, hassembly, hbefore]
  have hnumbers := ho.numbers
  simp only [List.mem_cons, List.not_mem_nil, or_false, forall_eq_or_imp, forall_eq] at hnumbers
  obtain ⟨hwidth, hheight, hraster, hshift, hlevels, hbits⟩ := hnumbers
  refine ⟨[], some ⟨next, index⟩, .single ⟨_, _, .control .setHalftoneOrder, rfl, rfl, by decide,
    fun {σ τ} _ _ _ => ?_⟩, by simp, ?_⟩
  · have hlast : ∀ n, n = (if index = 0 then 0 else name) →
        Yields box (do
          let width ← Replay.read Varint.decode
          let height ← Replay.read Varint.decode
          let raster ← Replay.read Varint.decode
          let shift ← Replay.read Varint.decode
          let levelCount ← Replay.read Varint.decode
          let bitCount ← Replay.read Varint.decode
          let found ← Replay.orderOf (← Replay.getState).halftone index "order"
          let halftone := found.1.modifyOrder index fun _ =>
            { width, height, raster, shift, levelCount, bitCount }
          let halftone := halftone.setName index n
          Replay.modifyState fun s => { s with halftone := some { halftone, index } } :
          ReplayM σ τ Unit)
        ([o.width, o.height, o.raster, o.shift, o.levelCount, o.bitCount].flatMap Varint.encode) r []
        () { r with halftone := some ⟨next, index⟩ } := by
      intro n hn
      simp only [List.flatMap_cons, List.flatMap_nil]
      refine Yields.read_bind (Varint.decodes hwidth) ?_
      refine Yields.read_bind (Varint.decodes hheight) ?_
      refine Yields.read_bind (Varint.decodes hraster) ?_
      refine Yields.read_bind (Varint.decodes hshift) ?_
      refine Yields.read_bind (Varint.decodes hlevels) ?_
      refine Yields.read_bind (Varint.decodes hbits) ?_
      refine Yields.getState_bind (Yields.lift_bind hof ?_)
      rw [hnext, ← hn]
      exact Yields.modifyState _
    rw [List.append_assoc]
    refine Yields.read_bind (Varint.decodes (lt_of_le_of_lt hindex hcount)) ?_
    by_cases hzero : index = 0
    · rw [if_pos hzero, if_neg (by omega)]
      exact Yields.pure_bind (hlast 0 (by rw [if_pos hzero]))
    · rw [if_neg hzero, if_pos (by omega)]
      exact Yields.read_bind (Varint.decodes hname) (hlast name (by rw [if_neg hzero]))
  · refine ⟨next, rfl, ?_, ?_⟩
    · simp [hnext, hlength]
    · rw [hnext, Halftone.order?_setName, Halftone.order?_modifyOrder (hlength ▸ hindex), hbefore]
      rfl

/-- An order arrives whole. -/
theorem afterHalftone_order {count index name : Nat} {o : HalftoneOrder} (ho : o.Sendable)
    (hcount : count < 4294967296) (hindex : index ≤ count) (hname : name < 4294967296)
    (h : r.HasHalftone count) :
    AfterHalftone box (Command.halftoneOrder index name o) r fun r' =>
      index ≠ 0 → r'.HasHalftone count := by
  obtain ⟨hlevels, hlevelPortions⟩ := Command.portions_spec
    (show 0 < Command.levelsPortion by decide) o.levels
  obtain ⟨hbits, hbitPortions⟩ := Command.portions_spec
    (show 0 < Command.bitsPortion by decide) o.bits
  have hlevelsShort : Command.levelsPortion < 256 := by decide
  have hbitsShort : Command.bitsPortion < 256 := by decide
  refine AfterHalftone.cons (replays_halftoneHead ho hcount hindex hname h) fun a ha => ?_
  refine (afterHalftone_portions hindex Command.word
    (fun o p => { o with levels := o.levels ++ p }) (by simp) (by simp)
    (fun o' p => o'.levels.length + p.length = o'.levelCount ∧ ∀ level ∈ p, level < 4294967296)
    (Command.portions Command.levelsPortion o.levels) (fun o' p q hall hne => ?_) (fun p hp => ⟨(hlevelPortions p hp).1,
      (hlevelPortions p hp).2.trans_lt hlevelsShort⟩) ha ?_).append fun a' ha' => ?_
  · obtain ⟨hlength, hsmall⟩ := hall
    rw [List.length_append] at hlength
    refine ⟨HalftoneOrder.grows_levels hne (by omega) fun level hlevel =>
      hsmall level (List.mem_append_left q hlevel), ⟨?_, fun level hlevel =>
      hsmall level (List.mem_append_right p hlevel)⟩, fun hq => ?_⟩
    · show (o'.levels ++ p).length + q.length = o'.levelCount
      rw [List.length_append]
      omega
    · have hpos : 0 < q.length := List.length_pos_of_ne_nil hq
      have hopen : (o'.levels ++ p).length ≠ o'.levelCount := by
        rw [List.length_append]
        omega
      rw [HalftoneOrder.isComplete, Bool.and_eq_false_iff]
      exact .inl (by simpa using hopen)
  · rw [hlevels]
    exact ⟨by simpa using ho.levelCount, ho.levels⟩
  · rw [hlevels] at ha'
    dsimp only [List.nil_append] at ha'
    by_cases hnone : o.bits = []
    · have hempty : Command.portions Command.bitsPortion o.bits = [] := by
        rw [hnone]
        rfl
      rw [hempty]
      exact ⟨[], a', .nil _, by simp, fun hne =>
        (ha' fun hzero => absurd hzero hne).hasHalftone⟩
    · have hopen : o.bitCount ≠ 0 := by
        rw [← ho.bitCount]
        exact fun h => hnone (List.eq_nil_of_length_eq_zero h)
      have hincomplete : ∀ o' : HalftoneOrder, o'.bits.length ≠ o'.bitCount →
          o'.isComplete = false := by
        intro o' h
        rw [HalftoneOrder.isComplete, Bool.and_eq_false_iff]
        exact .inr (by simpa using h)
      have hstart := ha' fun _ => .inr (hincomplete _ hopen.symm)
      obtain ⟨calls, assembly, hreplays, hcalls, hdone⟩ := afterHalftone_portions hindex
        (fun b : ThresholdBit => Command.word b.offset ++ Command.word b.mask)
        (fun o p => { o with bits := o.bits ++ p }) (by simp) (by simp)
        (fun o' p => o'.levels.length = o'.levelCount ∧
          o'.bits.length + p.length = o'.bitCount ∧
          ∀ bit ∈ p, bit.offset < 4294967296 ∧ bit.mask < 4294967296)
        (Command.portions Command.bitsPortion o.bits)
        (fun o' p q hall _ => by
          obtain ⟨hfull, hlength, hsmall⟩ := hall
          rw [List.length_append] at hlength
          have htotal : (o'.bits ++ p).length + q.length = o'.bitCount := by
            rw [List.length_append]
            omega
          refine ⟨HalftoneOrder.grows_bits hfull (by omega) fun bit hbit =>
            hsmall bit (List.mem_append_left q hbit), ⟨hfull, htotal, fun bit hbit =>
            hsmall bit (List.mem_append_right p hbit)⟩, fun hq => hincomplete _ ?_⟩
          have hpos : 0 < q.length := List.length_pos_of_ne_nil hq
          show (o'.bits ++ p).length ≠ o'.bitCount
          omega)
        (fun p hp => ⟨(hbitPortions p hp).1, (hbitPortions p hp).2.trans_lt hbitsShort⟩) hstart
        (by
          rw [hbits]
          exact ⟨ho.levelCount, by simpa using ho.bitCount, ho.bits⟩)
      exact ⟨calls, assembly, hreplays, hcalls, fun hne =>
        (hdone fun hzero => absurd hzero hne).hasHalftone⟩

/-- A halftone arrives whole. -/
theorem afterHalftone_halftone {h : Halftone} (hh : h.Sendable) :
    AfterHalftone box (Command.halftone h) r fun _ => True := by
  have hcomponents : ∀ (items : List (HalftoneComponent × Nat)) {r : ReplayState},
      (∀ item ∈ items, item.1.order.Sendable ∧ item.1.name < 4294967296 ∧
        item.2 + 1 ≤ h.components.length) → r.HasHalftone h.components.length →
      AfterHalftone box (items.flatMap fun p => Command.halftoneOrder (p.2 + 1) p.1.name p.1.order) r
        (·.HasHalftone h.components.length) := by
    intro items
    induction items with
    | nil => exact fun {r} _ hr => ⟨[], r.halftone, .nil r, by simp, hr⟩
    | cons item items ih =>
      intro r hitems hr
      obtain ⟨horder, hname, hindex⟩ := hitems item List.mem_cons_self
      exact (afterHalftone_order horder hh.count hindex hname hr).append fun a ha =>
        ih (fun item hitem => hitems item (List.mem_cons_of_mem _ hitem)) (ha (by omega))
  have hhead : AfterHalftone box [Opcode.setMisc ::
      (Opcode.miscHalftone ||| UInt8.ofNat (h.kind % 64)) :: Varint.encode h.components.length] r
      (·.HasHalftone h.components.length) := by
    obtain ⟨b, hb⟩ : ∃ b, b = Opcode.miscHalftone ||| UInt8.ofNat (h.kind % 64) := ⟨_, rfl⟩
    have hlow : UInt8.ofNat (h.kind % 64) < 64 := by
      rw [UInt8.lt_iff_toNat_lt, UInt8.toNat_ofNat']
      have := Nat.mod_lt h.kind (show 0 < 64 by norm_num)
      show h.kind % 64 % 256 < 64
      omega
    obtain ⟨hkind, -⟩ := kind_or_lt Opcode.miscHalftone (by decide) hlow
    rw [← hb] at hkind ⊢
    refine ⟨[], some ⟨{ kind := (b &&& 0x3f).toNat
                        components := List.replicate h.components.length {} }, 0⟩,
      .single ⟨_, _, .control .setMisc, rfl, rfl, by decide, fun {σ τ} _ _ _ => ?_⟩, by simp, ?_⟩
    · rw [← List.append_nil (Varint.encode _)]
      refine Yields.nextByte_bind ?_
      dsimp only
      rw [hkind, if_neg (by decide), if_neg (by decide), if_neg (by decide)]
      exact Yields.read_bind (Varint.decodes hh.count) (Yields.modifyState _)
    · exact ⟨_, rfl, by simp⟩
  refine AfterHalftone.cons hhead fun a ha => ?_
  refine (hcomponents _ (fun item hitem => ?_) ha).append fun a' ha' => ?_
  · obtain ⟨hindex, hcomponent⟩ := List.mem_zipIdx' (List.mem_reverse.mp hitem)
    obtain ⟨horder, hname⟩ := hh.components item.1 (hcomponent ▸ List.getElem_mem hindex)
    exact ⟨horder, hname, hindex⟩
  · obtain ⟨calls, assembly, hreplays, hcalls, -⟩ := afterHalftone_order hh.order hh.count
      (Nat.zero_le _) (show 0 < 4294967296 by norm_num) ha'
    exact ⟨calls, assembly, hreplays, hcalls, trivial⟩

end BandedPage
