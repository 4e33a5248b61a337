import Mathlib
import BandedPage.Command.Imager
import BandedPage.Proofs.Imager.Agreement
import BandedPage.Proofs.Single

/-!
# Imager states that share fields

Two imager states share a field if they have the same bits there, so that a band is told the same. A
field that was not taken over, since it did not differ, is shared unless one of two zeros is negative:
comparing numbers does not see the sign of zero.
-/

namespace BandedPage

/-- Numbers that are equal are the same, unless one is the negative zero. -/
theorem Single.eq_of_beq {a b : Single} (h : (a == b) = true) (ha : a ≠ negZero) (hb : b ≠ negZero) :
    a = b := by
  obtain ⟨-, -, heq | ⟨hza, hzb⟩⟩ := beq_iff.mp h
  · exact heq
  · rw [(isZero_iff.mp hza).resolve_right ha, (isZero_iff.mp hzb).resolve_right hb]

/-- No coefficient is a negative zero. -/
structure Matrix.Plain (m : Matrix) : Prop where
  xx : m.xx ≠ .negZero
  xy : m.xy ≠ .negZero
  yx : m.yx ≠ .negZero
  yy : m.yy ≠ .negZero
  tx : m.tx ≠ .negZero
  ty : m.ty ≠ .negZero

/-- No number is a negative zero. -/
structure Dash.Plain (d : Dash) : Prop where
  pattern : .negZero ∉ d.pattern
  offset : d.offset ≠ .negZero
  dotLength : d.dotLength ≠ .negZero

/-- No number is a negative zero. -/
structure ImagerState.Plain (s : ImagerState) : Prop where
  flatness : s.flatness ≠ .negZero
  ctm : s.ctm.Plain
  lineWidth : s.lineWidth ≠ .negZero
  miterLimit : s.miterLimit ≠ .negZero
  dash : s.dash.Plain

theorem Matrix.eq_of_beq {a b : Matrix} (h : (a == b) = true) (ha : a.Plain) (hb : b.Plain) : a = b := by
  obtain ⟨xx, xy, yx, yy, tx, ty⟩ := a
  obtain ⟨xx', xy', yx', yy', tx', ty'⟩ := b
  have hparts : (xx == xx') = true ∧ (xy == xy') = true ∧ (yx == yx') = true ∧ (yy == yy') = true ∧
      (tx == tx') = true ∧ (ty == ty') = true := by
    simpa [BEq.beq, instBEqMatrix.beq] using h
  obtain ⟨hxx, hxy, hyx, hyy, htx, hty⟩ := hparts
  rw [Single.eq_of_beq hxx ha.xx hb.xx, Single.eq_of_beq hxy ha.xy hb.xy,
    Single.eq_of_beq hyx ha.yx hb.yx, Single.eq_of_beq hyy ha.yy hb.yy,
    Single.eq_of_beq htx ha.tx hb.tx, Single.eq_of_beq hty ha.ty hb.ty]

theorem Dash.eq_of_beq {a b : Dash} (h : (a == b) = true) (ha : a.Plain) (hb : b.Plain) : a = b := by
  obtain ⟨pattern, offset, adapt, dotLength, dotLengthAbsolute⟩ := a
  obtain ⟨pattern', offset', adapt', dotLength', dotLengthAbsolute'⟩ := b
  have hparts : (pattern == pattern') = true ∧ (offset == offset') = true ∧ adapt = adapt' ∧
      (dotLength == dotLength') = true ∧ dotLengthAbsolute = dotLengthAbsolute' := by
    simpa [BEq.beq, instBEqDash.beq] using h
  obtain ⟨hpattern, hoffset, rfl, hdotLength, rfl⟩ := hparts
  rw [Single.eq_of_beq hoffset ha.offset hb.offset,
    Single.eq_of_beq hdotLength ha.dotLength hb.dotLength]
  have hpatterns : pattern = pattern' := by
    have hp : .negZero ∉ pattern := ha.pattern
    have hp' : .negZero ∉ pattern' := hb.pattern
    clear h ha hb
    induction pattern generalizing pattern' with
    | nil =>
      cases pattern' with
      | nil => rfl
      | cons b bs => cases hpattern
    | cons a as ih =>
      cases pattern' with
      | nil => cases hpattern
      | cons b bs =>
        obtain ⟨hab, htail⟩ := Bool.and_eq_true_iff.mp hpattern
        rw [List.mem_cons, not_or] at hp hp'
        rw [Single.eq_of_beq hab (Ne.symm hp.1) (Ne.symm hp'.1), ih bs htail hp.2 hp'.2]
  rw [hpatterns]

namespace ImagerState

variable {a b c new : ImagerState} {f g : StateField}

/-- A band that is told the field is told the same. -/
def Shares (a b : ImagerState) (f : StateField) : Prop :=
  ∀ c : ImagerState, c.withField a f = c.withField b f

theorem Shares.refl (a : ImagerState) (f : StateField) : a.Shares a f := fun _ => rfl

/-- What is sent of a shared field is the same. -/
theorem Shares.ofField_eq (h : a.Shares b f) (cs : ColorSpace) :
    Command.ofField a cs f = Command.ofField b cs f := by
  have hself : ∀ s : ImagerState,
      Command.ofField (({} : ImagerState).withField s f) cs f = Command.ofField s cs f := fun s => by
    cases f <;> rfl
  rw [← hself a, h, hself b]

theorem Shares.differs_eq (h : a.Shares b f) (new : ImagerState) :
    a.differs new f = b.differs new f := by
  have hself : ∀ s : ImagerState, (({} : ImagerState).withField s f).differs new f = s.differs new f :=
    fun s => by cases f <;> rfl
  rw [← hself a, h, hself b]

@[simp] theorem withField_withField_self (a b c : ImagerState) (f : StateField) :
    c.withField (a.withField b f) f = c.withField b f := by
  cases f <;> rfl

@[simp] theorem withField_withField_of_ne (a b c : ImagerState) (h : g ≠ f) :
    c.withField (a.withField b f) g = c.withField a g := by
  cases f <;> cases g <;> first | exact absurd rfl h | rfl

/-- Both take the field over. -/
theorem Shares.withField (h : a.Shares b f) (new : ImagerState) (g : StateField) :
    (a.withField new g).Shares (b.withField new g) f := by
  intro c
  by_cases heq : f = g
  · simp [heq]
  · rw [withField_withField_of_ne _ _ _ heq, withField_withField_of_ne _ _ _ heq]
    exact h c

theorem Shares.symm (h : a.Shares b f) : b.Shares a f := fun c => (h c).symm

theorem Shares.trans (h : a.Shares b f) (h' : b.Shares c f) : a.Shares c f :=
  fun d => (h d).trans (h' d)

/-- The logical operation is no field. -/
theorem Shares.withLogOp (h : a.Shares b f) (lop lop' : LogicalOp) :
    ({ a with logOp := lop } : ImagerState).Shares { b with logOp := lop' } f := by
  have hself : ∀ (s c : ImagerState) (lop : LogicalOp),
      c.withField { s with logOp := lop } f = c.withField s f := fun s c lop => by
    cases f <;> rfl
  intro c
  rw [hself, hself]
  exact h c

/-- A field that does not differ is shared. -/
theorem shares_of_differs (ha : a.Plain) (hb : b.Plain) (h : a.differs b f = false) : a.Shares b f := by
  intro c
  cases f with
  | flatness =>
    have heq := Single.eq_of_beq (by simpa [differs, bne] using h) ha.flatness hb.flatness
    simp only [withField, heq]
  | fillAdjust =>
    have heq : a.fillAdjust = b.fillAdjust := by simpa [differs] using h
    simp only [withField, heq]
  | ctm =>
    have heq := Matrix.eq_of_beq (by simpa [differs, bne] using h) ha.ctm hb.ctm
    simp only [withField, heq]
  | lineWidth =>
    have heq := Single.eq_of_beq (by simpa [differs, bne] using h) ha.lineWidth hb.lineWidth
    simp only [withField, heq]
  | miterLimit =>
    have heq := Single.eq_of_beq (by simpa [differs, bne] using h) ha.miterLimit hb.miterLimit
    simp only [withField, heq]
  | capJoin =>
    have heq : a.cap = b.cap ∧ a.join = b.join := by simpa [differs] using h
    simp only [withField, heq]
  | curveOptions =>
    have heq : (a.accurateCurves = b.accurateCurves ∧ a.overprint = b.overprint) ∧
      a.strokeAdjust = b.strokeAdjust := by simpa [differs] using h
    simp only [withField, heq]
  | dash =>
    have heq := Dash.eq_of_beq (by simpa [differs, bne] using h) ha.dash hb.dash
    simp only [withField, heq]
  | alpha =>
    have heq : a.alpha = b.alpha := by simpa [differs] using h
    simp only [withField, heq]
  | clip => rfl
  | colorSpace => rfl

theorem Plain.withField (ha : a.Plain) (hb : b.Plain) (f : StateField) : (a.withField b f).Plain := by
  obtain ⟨hflatness, hctm, hwidth, hmiter, hdash⟩ := ha
  obtain ⟨hflatness', hctm', hwidth', hmiter', hdash'⟩ := hb
  cases f <;> (constructor <;> assumption)

/-- A state that can be current: no negative zero, and no dash pattern that no command carries. -/
structure Current (a : ImagerState) : Prop where
  plain : a.Plain
  short : a.dash.pattern.length ≤ Dash.maxLength

theorem Current.withField (ha : a.Current) (hnew : new.Plain)
    (hshort : ¬ (f = .dash ∧ Dash.maxLength < new.dash.pattern.length)) :
    (a.withField new f).Current := by
  refine ⟨ha.plain.withField hnew f, ?_⟩
  cases f with
  | dash => exact Nat.not_lt.mp fun hlong => hshort ⟨rfl, hlong⟩
  | _ => exact ha.short

/-- The parameters of a new page are current. -/
theorem current_default : ({} : ImagerState).Current := by
  have hne : ∀ a : Single, a.bits ≠ 0x80000000 → a ≠ .negZero := fun a ha h => ha (h ▸ rfl)
  have hone : Single.one ≠ .negZero := hne _ (by decide)
  have hzero : Single.zero ≠ .negZero := hne _ (by decide)
  exact ⟨⟨hone, ⟨hone, hzero, hzero, hone, hzero, hzero⟩, hone, hne _ (by decide),
    ⟨List.not_mem_nil, hzero, hzero⟩⟩, Nat.zero_le _⟩

theorem Current.withLogOp (ha : a.Current) (op : LogicalOp) :
    ({ a with logOp := op } : ImagerState).Current :=
  ⟨{ ha.plain with }, ha.short⟩

@[simp] theorem withField_logOp (a new : ImagerState) (f : StateField) :
    (a.withField new f).logOp = a.logOp := by
  cases f <;> rfl

/-- What became of two current states: fields that they share they share still. -/
structure BothAdopted (a b a' b' : ImagerState) : Prop where
  left : a'.Current
  right : b'.Current
  shares : ∀ f, a.Shares b f → a'.Shares b' f
  leftLogOp : a'.logOp = a.logOp
  rightLogOp : b'.logOp = b.logOp

theorem BothAdopted.refl (ha : a.Current) (hb : b.Current) : BothAdopted a b a b :=
  ⟨ha, hb, fun _ h => h, rfl, rfl⟩

theorem BothAdopted.trans {a' b' a'' b'' : ImagerState} (h : BothAdopted a b a' b')
    (h' : BothAdopted a' b' a'' b'') : BothAdopted a b a'' b'' :=
  ⟨h'.left, h'.right, fun f hf => h'.shares f (h.shares f hf), h'.leftLogOp.trans h.leftLogOp,
    h'.rightLogOp.trans h.rightLogOp⟩

end ImagerState

namespace WriterState

open ImagerState

variable {μ ν : Type} {new : ImagerState}

/-- A field is taken over and counted if it differs; either way it is shared with the new state. -/
theorem adoptFields_cons {f : StateField} (fields : List StateField) {s : WriterState μ ν}
    (hs : s.imager.Current) (hnew : new.Plain)
    (hshort : ¬ (f = .dash ∧ Dash.maxLength < new.dash.pattern.length)) :
    ∃ a : ImagerState, a.Current ∧ a.logOp = s.imager.logOp ∧ a.Shares new f ∧
      (∀ g, g ≠ f → a.Shares s.imager g) ∧
      adoptFields new (f :: fields) s = (adoptFields new fields >>= fun changed =>
        pure (if s.imager.differs new f then changed.insert f else changed))
          { s with imager := a } := by
  by_cases hdiffers : s.imager.differs new f = true
  · refine ⟨s.imager.withField new f, hs.withField hnew hshort, withField_logOp .., ?_, ?_, ?_⟩
    · exact fun c => withField_withField_self s.imager new c f
    · exact fun g hne c => withField_withField_of_ne _ _ _ hne
    · rw [adoptFields_cons_of_differs hdiffers, if_neg hshort]
      simp only [hdiffers, if_true]
  · refine ⟨s.imager, hs, rfl, ?_, fun g _ => .refl _ g, ?_⟩
    · exact shares_of_differs hs.plain hnew (by simpa using hdiffers)
    · rw [adoptFields_cons_of_not_differs hdiffers]
      simp only [hdiffers, Bool.false_eq_true, if_false, bind_pure]

/-- Two states take the same fields over, but for fields that they do not share. -/
theorem adoptFields_both (hnew : new.Plain) (fields : List StateField) {s s' : WriterState μ ν}
    (hs : s.imager.Current) (hs' : s'.imager.Current) :
    (∃ changed changed' a a', adoptFields new fields s = .ok changed { s with imager := a } ∧
      adoptFields new fields s' = .ok changed' { s' with imager := a' } ∧
      BothAdopted s.imager s'.imager a a' ∧ (∀ f ∈ fields, a.Shares a' f) ∧
      ∀ f, s.imager.Shares s'.imager f → changed'.contains f = changed.contains f) ∨
    ∃ e a a', adoptFields new fields s = .error e { s with imager := a } ∧
      adoptFields new fields s' = .error e { s' with imager := a' } ∧
      BothAdopted s.imager s'.imager a a' := by
  induction fields generalizing s s' with
  | nil =>
    exact .inl ⟨∅, ∅, s.imager, s'.imager, rfl, rfl, .refl hs hs', fun f hf => absurd hf List.not_mem_nil,
      fun f _ => rfl⟩
  | cons f fields ih =>
    by_cases hlong : f = .dash ∧ Dash.maxLength < new.dash.pattern.length
    · -- The pattern is longer than a current one, so it differs from both.
      obtain ⟨rfl, hlong⟩ := hlong
      have hdiffers : ∀ a : ImagerState, a.Current → a.differs new .dash = true := by
        intro a ha
        by_contra hsame
        have hshares := shares_of_differs ha.plain hnew (by simpa using hsame)
        have hfield : ({ dash := a.dash } : ImagerState) = { dash := new.dash } := hshares {}
        have hdash := congrArg ImagerState.dash hfield
        dsimp only at hdash
        have hshort := ha.short
        rw [hdash] at hshort
        omega
      refine .inr ⟨new.dash.refusal, s.imager, s'.imager, ?_, ?_, .refl hs hs'⟩
      · rw [adoptFields_cons_of_differs (hdiffers _ hs), if_pos ⟨rfl, hlong⟩]
      · rw [adoptFields_cons_of_differs (hdiffers _ hs'), if_pos ⟨rfl, hlong⟩]
    · obtain ⟨a, ha, hlogOp, hf, hother, hrun⟩ := adoptFields_cons fields hs hnew hlong
      obtain ⟨a', ha', hlogOp', hf', hother', hrun'⟩ := adoptFields_cons fields hs' hnew hlong
      have hboth : BothAdopted s.imager s'.imager a a' := by
        refine ⟨ha, ha', fun g hg => ?_, hlogOp, hlogOp'⟩
        by_cases heq : g = f
        · rw [heq]
          exact hf.trans hf'.symm
        · exact (hother g heq).trans (hg.trans (hother' g heq).symm)
      rcases @ih { s with imager := a } { s' with imager := a' } ha ha' with
        ⟨changed, changed', b, b', hadopt, hadopt', hrest, hfields, hchanged⟩ |
        ⟨e, b, b', hadopt, hadopt', hrest⟩
      · refine .inl ⟨_, _, b, b', hrun.trans (bind_of_ok hadopt _),
          hrun'.trans (bind_of_ok hadopt' _), hboth.trans hrest, ?_, fun g hg => ?_⟩
        · rintro g (_ | ⟨_, hg⟩)
          · exact hrest.shares f (hf.trans hf'.symm)
          · exact hfields g hg
        · have hsame := hchanged g (hboth.shares g hg)
          by_cases heq : f = g
          · subst heq
            rw [hg.differs_eq]
            split
            · simp [hsame]
            · exact hsame
          · have hinsert : ∀ (d : Bool) (c : FieldSet),
                (if d then c.insert f else c).contains g = c.contains g := fun d c => by
              cases d <;> simp [heq]
            rw [hinsert, hinsert, hsame]
      · exact .inr ⟨e, b, b', hrun.trans (bind_of_error hadopt _),
          hrun'.trans (bind_of_error hadopt' _), hboth.trans hrest⟩

end WriterState

end BandedPage
