import Mathlib
import BandedPage.Imager.Change
import BandedPage.Imager.Field
import BandedPage.Proofs.Computation
import BandedPage.Proofs.Operand.Matrix
import BandedPage.Writer.State

/-!
# Agreement of imager states

Two imager states agree in a field if it means the same in both. What travels of a field agrees
with it, and so does what was kept because it did not differ.
-/

namespace BandedPage

/-- The same dash pattern up to the bits of its numbers. -/
structure Dash.Same (a b : Dash) : Prop where
  pattern : List.Forall₂ Single.Same a.pattern b.pattern
  offset : a.offset.Same b.offset
  adapt : a.adapt = b.adapt
  dotLength : a.dotLength.Same b.dotLength
  dotLengthAbsolute : a.dotLengthAbsolute = b.dotLengthAbsolute

theorem Dash.Same.refl (d : Dash) : d.Same d :=
  ⟨List.forall₂_same.mpr fun a _ => .refl a, .refl _, rfl, .refl _, rfl⟩

theorem Dash.Same.trans {a b c : Dash} (h : a.Same b) (h' : b.Same c) : a.Same c := by
  refine ⟨?_, h.offset.trans h'.offset, h.adapt.trans h'.adapt, h.dotLength.trans h'.dotLength,
    h.dotLengthAbsolute.trans h'.dotLengthAbsolute⟩
  have hpattern := h.pattern
  have hpattern' := h'.pattern
  generalize a.pattern = as at hpattern
  generalize b.pattern = bs at hpattern hpattern'
  generalize c.pattern = cs at hpattern'
  induction hpattern generalizing cs with
  | nil => exact hpattern'
  | cons hab _ ih =>
    cases hpattern' with
    | cons hbc htail => exact .cons (hab.trans hbc) (ih _ htail)

theorem Dash.Same.of_beq {a b : Dash} (h : (a == b) = true) : a.Same b := by
  obtain ⟨pattern, offset, adapt, dotLength, dotLengthAbsolute⟩ := a
  obtain ⟨pattern', offset', adapt', dotLength', dotLengthAbsolute'⟩ := b
  have hparts : (pattern == pattern') = true ∧ (offset == offset') = true ∧ adapt = adapt' ∧
      (dotLength == dotLength') = true ∧ dotLengthAbsolute = dotLengthAbsolute' := by
    simpa [BEq.beq, instBEqDash.beq] using h
  obtain ⟨hpattern, hoffset, hadapt, hdotLength, habsolute⟩ := hparts
  refine ⟨?_, .inl hoffset, hadapt, .inl hdotLength, habsolute⟩
  show List.Forall₂ Single.Same pattern pattern'
  clear h
  induction pattern generalizing pattern' with
  | nil =>
    cases pattern' with
    | nil => exact .nil
    | cons b bs => cases hpattern
  | cons a as ih =>
    cases pattern' with
    | nil => cases hpattern
    | cons b bs =>
      obtain ⟨hab, htail⟩ := Bool.and_eq_true_iff.mp hpattern
      exact .cons (.inl hab) (ih bs htail)

namespace ImagerState

/-- The states agree in a field, numbers being compared as numbers. -/
def Agrees (a b : ImagerState) : StateField → Prop
  | .flatness => a.flatness.Same b.flatness
  | .fillAdjust => a.fillAdjust = b.fillAdjust
  | .ctm => a.ctm.Same b.ctm
  | .lineWidth => a.lineWidth.Same b.lineWidth
  | .miterLimit => a.miterLimit.Same b.miterLimit
  | .capJoin => a.cap = b.cap ∧ a.join = b.join
  | .curveOptions => a.accurateCurves = b.accurateCurves ∧ a.overprint = b.overprint ∧
      a.strokeAdjust = b.strokeAdjust
  | .dash => a.dash.Same b.dash
  | .alpha => a.alpha = b.alpha
  | .clip | .colorSpace => True

variable {a b c : ImagerState} {f g : StateField}

theorem Agrees.refl (a : ImagerState) (f : StateField) : a.Agrees a f := by
  cases f with
  | flatness => exact Single.Same.refl _
  | fillAdjust => rfl
  | ctm => exact Matrix.Same.refl _
  | lineWidth => exact Single.Same.refl _
  | miterLimit => exact Single.Same.refl _
  | capJoin => exact ⟨rfl, rfl⟩
  | curveOptions => exact ⟨rfl, rfl, rfl⟩
  | dash => exact Dash.Same.refl _
  | alpha => rfl
  | clip => trivial
  | colorSpace => trivial

theorem Agrees.trans (h : a.Agrees b f) (h' : b.Agrees c f) : a.Agrees c f := by
  cases f with
  | flatness => exact Single.Same.trans h h'
  | fillAdjust => exact Eq.trans h h'
  | ctm => exact Matrix.Same.trans h h'
  | lineWidth => exact Single.Same.trans h h'
  | miterLimit => exact Single.Same.trans h h'
  | capJoin => exact ⟨h.1.trans h'.1, h.2.trans h'.2⟩
  | curveOptions => exact ⟨h.1.trans h'.1, h.2.1.trans h'.2.1, h.2.2.trans h'.2.2⟩
  | dash => exact Dash.Same.trans h h'
  | alpha => exact Eq.trans h h'
  | clip => trivial
  | colorSpace => trivial

/-- A field that was taken over agrees. -/
theorem agrees_withField (a b : ImagerState) (f : StateField) : (a.withField b f).Agrees b f := by
  cases f with
  | flatness => exact Single.Same.refl _
  | fillAdjust => rfl
  | ctm => exact Matrix.Same.refl _
  | lineWidth => exact Single.Same.refl _
  | miterLimit => exact Single.Same.refl _
  | capJoin => exact ⟨rfl, rfl⟩
  | curveOptions => exact ⟨rfl, rfl, rfl⟩
  | dash => exact Dash.Same.refl _
  | alpha => rfl
  | clip => trivial
  | colorSpace => trivial

/-- The other fields stay as they are. -/
theorem agrees_withField_of_ne (hne : g ≠ f) :
    (a.withField b f).Agrees c g ↔ a.Agrees c g := by
  cases f <;> cases g <;> first | exact absurd rfl hne | exact Iff.rfl

/-- A field in which the states do not differ agrees. -/
theorem agrees_of_differs (h : a.differs b f = false) : a.Agrees b f := by
  cases f with
  | flatness => exact .inl (by simpa [differs, bne] using h)
  | fillAdjust =>
    show a.fillAdjust = b.fillAdjust
    simpa [differs] using h
  | ctm => exact Matrix.Same.of_beq (by simpa [differs, bne] using h)
  | lineWidth => exact .inl (by simpa [differs, bne] using h)
  | miterLimit => exact .inl (by simpa [differs, bne] using h)
  | capJoin =>
    show a.cap = b.cap ∧ a.join = b.join
    simpa [differs] using h
  | curveOptions =>
    show a.accurateCurves = b.accurateCurves ∧ a.overprint = b.overprint ∧
      a.strokeAdjust = b.strokeAdjust
    simpa [differs, and_assoc] using h
  | dash => exact Dash.Same.of_beq (by simpa [differs, bne] using h)
  | alpha =>
    show a.alpha = b.alpha
    simpa [differs] using h
  | clip => trivial
  | colorSpace => trivial

/-- The imager state as it is read back. -/
def sent (s : ImagerState) : ImagerState := { s with ctm := s.ctm.sent }

theorem sent_agrees (s : ImagerState) (f : StateField) : s.sent.Agrees s f := by
  by_cases hf : f = .ctm
  · rw [hf]
    exact Matrix.same_sent s.ctm
  · exact (agrees_withField_of_ne hf (a := s) (b := s.sent) (c := s)).mpr (.refl s f)

end ImagerState

end BandedPage

/-!
## Taking an imager state over

A set of fields is known by its members. The fields that differ are taken over. A field that still
differs then holds a NaN; taking it over again changes nothing, and bands that have forgotten it
forget it again.
-/

namespace BandedPage.FieldSet

theorem ext_contains {s t : FieldSet} (h : ∀ f, s.contains f = t.contains f) : s = t := by
  obtain ⟨a⟩ := s
  obtain ⟨b⟩ := t
  refine congrArg FieldSet.mk (BitVec.eq_of_getLsbD_eq fun i hi => ?_)
  obtain ⟨f, rfl⟩ : ∃ f : StateField, f.index = i := by
    interval_cases i
    · exact ⟨.flatness, rfl⟩
    · exact ⟨.fillAdjust, rfl⟩
    · exact ⟨.ctm, rfl⟩
    · exact ⟨.lineWidth, rfl⟩
    · exact ⟨.miterLimit, rfl⟩
    · exact ⟨.capJoin, rfl⟩
    · exact ⟨.curveOptions, rfl⟩
    · exact ⟨.dash, rfl⟩
    · exact ⟨.alpha, rfl⟩
    · exact ⟨.clip, rfl⟩
    · exact ⟨.colorSpace, rfl⟩
  exact h f

@[simp] theorem contains_insert (s : FieldSet) (f g : StateField) :
    (s.insert f).contains g = (s.contains g || decide (f = g)) := by
  simp [insert]

@[simp] theorem contains_foldl_insert (fields : List StateField) (s : FieldSet) (g : StateField) :
    (fields.foldl insert s).contains g = (s.contains g || decide (g ∈ fields)) := by
  induction fields generalizing s with
  | nil => simp
  | cons f fields ih =>
    rw [List.foldl_cons, ih, contains_insert, Bool.or_assoc]
    simp [eq_comm (a := g)]

end BandedPage.FieldSet

theorem BandedPage.StateField.mem_all (f : StateField) : f ∈ all := by
  cases f <;> decide

namespace BandedPage

namespace ImagerState

variable {a b : ImagerState} {f g : StateField}

@[simp] theorem withField_withField (a b : ImagerState) (f : StateField) :
    (a.withField b f).withField b f = a.withField b f := by
  cases f <;> rfl

/-- The other fields differ as before. -/
@[simp]
theorem differs_withField_of_ne (h : g ≠ f) : (a.withField b f).differs b g = a.differs b g := by
  cases f <;> cases g <;> first | exact absurd rfl h | rfl

theorem withField_comm (a b : ImagerState) (f g : StateField) :
    (a.withField b f).withField b g = (a.withField b g).withField b f := by
  cases f <;> cases g <;> rfl

/-- The logical operation is no field. -/
theorem withField_withLogOp (h : a.withField b f = a) (lop : LogicalOp) :
    ({ a with logOp := lop } : ImagerState).withField b f = { a with logOp := lop } := by
  have heq : ({ a with logOp := lop } : ImagerState).withField b f =
      { a.withField b f with logOp := lop } := by
    cases f <;> rfl
  rw [heq, h]

/-- The field was taken over, or it does not differ. -/
def Has (a b : ImagerState) (f : StateField) : Prop :=
  a.differs b f = true → a.withField b f = a

theorem Has.withField (h : a.Has b f) (g : StateField) : (a.withField b g).Has b f := by
  intro hdiffers
  by_cases heq : f = g
  · simp [heq]
  · rw [differs_withField_of_ne heq] at hdiffers
    rw [withField_comm, h hdiffers]

end ImagerState

/-- The refusal of a dash pattern that no command carries. -/
def Dash.refusal (d : Dash) : Error :=
  .malformed s!"dash pattern of {d.pattern.length} elements, at most {Dash.maxLength}"

namespace WriterState

variable {μ ν : Type} {s s' : WriterState μ ν} {new : ImagerState} {fields : List StateField}
variable {changed : FieldSet}

/-- Where the first field differs, it is taken over, unless it is a dash pattern that no command
carries. -/
theorem adoptFields_cons_of_differs {f : StateField} (h : s.imager.differs new f = true) :
    adoptFields new (f :: fields) s =
      if f = .dash ∧ Dash.maxLength < new.dash.pattern.length then
        .error new.dash.refusal s
      else (do return (← adoptFields new fields).insert f)
        { s with imager := s.imager.withField new f } := by
  rw [adoptFields, get_bind_run, if_pos h]
  by_cases hdash : f = .dash
  · by_cases hlong : Dash.maxLength < new.dash.pattern.length
    · rw [if_pos hdash, if_pos ⟨hdash, hlong⟩]
      have hcheck : checkDash new.dash = .error new.dash.refusal := by
        simp only [checkDash, if_pos hlong]
        rfl
      rw [hcheck]
      rfl
    · rw [if_pos hdash, if_neg fun h => hlong h.2]
      have hcheck : checkDash new.dash = .ok () := by
        simp only [checkDash, if_neg hlong]
        rfl
      rw [hcheck]
      rfl
  · rw [if_neg hdash, if_neg fun h => hdash h.1]
    rfl

theorem adoptFields_cons_of_not_differs {f : StateField} (h : ¬ s.imager.differs new f = true) :
    adoptFields new (f :: fields) s = adoptFields new fields s := by
  simp [adoptFields, h]

/-- What was taken over is there; fields that differ still did so before, and those of them that were
looked at were counted as changed. -/
theorem has_of_adoptFields (h : adoptFields new fields s = .ok changed s') :
    ∃ imager, s' = { s with imager } ∧ (∀ g, s.imager.Has new g → imager.Has new g) ∧
      (∀ g, imager.differs new g = true → s.imager.differs new g = true) ∧
      ∀ f ∈ fields, imager.Has new f ∧ (imager.differs new f = true → changed.contains f = true ∧
        (f = .dash → ¬ Dash.maxLength < new.dash.pattern.length)) := by
  induction fields generalizing s changed with
  | nil =>
    cases h
    exact ⟨s'.imager, rfl, fun _ h => h, fun _ h => h, fun f hf => absurd hf List.not_mem_nil⟩
  | cons f fields ih =>
    by_cases hdiffers : s.imager.differs new f = true
    · rw [adoptFields_cons_of_differs hdiffers] at h
      split at h
      · cases h
      · next hshort =>
        obtain ⟨changed', s₁, hrun, hlast⟩ := bind_eq_ok_iff.mp h
        cases hlast
        obtain ⟨imager, rfl, hkeeps, hbefore, hfields⟩ := ih hrun
        have hself : (s.imager.withField new f).Has new f := fun _ =>
          ImagerState.withField_withField s.imager new f
        refine ⟨imager, rfl, fun g hg => hkeeps g (hg.withField f), fun g hg => ?_, ?_⟩
        · by_cases heq : g = f
          · rw [heq]
            exact hdiffers
          · exact (ImagerState.differs_withField_of_ne heq).symm.trans (hbefore g hg)
        · rintro g (_ | ⟨_, hg⟩)
          · exact ⟨hkeeps f hself, fun _ => ⟨by simp, fun heq hlong => hshort ⟨heq, hlong⟩⟩⟩
          · obtain ⟨hhas, hchanged⟩ := hfields g hg
            refine ⟨hhas, fun hd => ⟨?_, (hchanged hd).2⟩⟩
            rw [FieldSet.contains_insert, (hchanged hd).1]
            rfl
    · rw [adoptFields_cons_of_not_differs hdiffers] at h
      obtain ⟨imager, rfl, hkeeps, hbefore, hfields⟩ := ih h
      refine ⟨imager, rfl, hkeeps, hbefore, ?_⟩
      rintro g (_ | ⟨_, hg⟩)
      · exact ⟨hkeeps f fun hd => absurd hd hdiffers, fun hd => absurd (hbefore f hd) hdiffers⟩
      · exact hfields g hg

/-- Fields that are there are taken over without a change. -/
theorem adoptFields_of_has (hhas : ∀ f ∈ fields, s.imager.Has new f)
    (hdash : StateField.dash ∈ fields → s.imager.differs new .dash = true →
      ¬ Dash.maxLength < new.dash.pattern.length) :
    ∃ again, adoptFields new fields s = .ok again s ∧
      ∀ f, again.contains f = true → f ∈ fields ∧ s.imager.differs new f = true := by
  induction fields with
  | nil =>
    refine ⟨∅, rfl, fun f hf => ?_⟩
    rw [FieldSet.contains_empty] at hf
    cases hf
  | cons f fields ih =>
    obtain ⟨again, hrun, hagain⟩ := ih (fun g hg => hhas g (List.mem_cons_of_mem f hg))
      fun hmem => hdash (List.mem_cons_of_mem f hmem)
    by_cases hdiffers : s.imager.differs new f = true
    · have hshort : ¬ (f = .dash ∧ Dash.maxLength < new.dash.pattern.length) := by
        rintro ⟨rfl, hlong⟩
        exact hdash List.mem_cons_self hdiffers hlong
      refine ⟨again.insert f, ?_, fun g hg => ?_⟩
      · rw [adoptFields_cons_of_differs hdiffers, if_neg hshort, hhas f List.mem_cons_self hdiffers]
        exact bind_of_ok hrun _
      · rw [FieldSet.contains_insert, Bool.or_eq_true, decide_eq_true_iff] at hg
        rcases hg with hg | rfl
        · exact (hagain g hg).imp_left (List.mem_cons_of_mem f)
        · exact ⟨List.mem_cons_self, hdiffers⟩
    · refine ⟨again, ?_, fun g hg => (hagain g hg).imp_left (List.mem_cons_of_mem f)⟩
      rw [adoptFields_cons_of_not_differs hdiffers]
      exact hrun

/-- Made current again, an imager state changes nothing. -/
theorem updateImager_again {selected : FieldSet} (h : updateImager new selected s = .ok () s') :
    updateImager new selected s' = .ok () s' := by
  rw [updateImager] at h
  obtain ⟨changed, s₁, hadopt, hlast⟩ := bind_eq_ok_iff.mp h
  cases hlast
  obtain ⟨imager, rfl, -, -, hfields⟩ := has_of_adoptFields hadopt
  -- The logical operation is no field, so the same fields differ with and without it.
  have hlop : ∀ f, ({ imager with logOp := new.logOp } : ImagerState).differs new f =
      imager.differs new f := fun f => by cases f <;> rfl
  have hhas : ∀ f ∈ StateField.all.filter selected.contains,
      ({ imager with logOp := new.logOp } : ImagerState).Has new f := by
    intro f hf hdiffers
    exact ImagerState.withField_withLogOp ((hfields f hf).1 ((hlop f).symm.trans hdiffers)) _
  obtain ⟨again, hrun, hagain⟩ := adoptFields_of_has
    (s := ({ s with imager := { imager with logOp := new.logOp } } :
      WriterState μ ν).forget changed) hhas
    fun hmem hdiffers => ((hfields _ hmem).2 ((hlop _).symm.trans hdiffers)).2 rfl
  rw [updateImager]
  refine (bind_of_ok hrun _).trans ?_
  have hbands : ∀ b : BandState, (b.forget changed).forget again = b.forget changed := by
    intro b
    have hknown : (b.known \ changed) \ again = b.known \ changed := by
      refine FieldSet.ext_contains fun f => ?_
      rw [FieldSet.contains_sdiff]
      cases hmem : again.contains f with
      | false => simp
      | true =>
        obtain ⟨hf, hdiffers⟩ := hagain f hmem
        have := ((hfields f hf).2 ((hlop f).symm.trans hdiffers)).1
        simp [this]
    simp only [BandState.forget, hknown]
  simp only [modify_run, forget, Array.map_map]
  congr 2
  refine Array.map_congr_left fun b _ => hbands b

/-- Which fields are taken over depends on nothing but the imager states. -/
theorem adoptFields_cases (new : ImagerState) (fields : List StateField) (old : ImagerState) :
    (∃ changed imager, ∀ {ν : Type} (s : WriterState μ ν), s.imager = old →
      adoptFields new fields s = .ok changed { s with imager }) ∨
    ∃ e imager, e.isRetryable = false ∧ ∀ {ν : Type} (s : WriterState μ ν), s.imager = old →
      adoptFields new fields s = .error e { s with imager } := by
  induction fields generalizing old with
  | nil => exact .inl ⟨∅, old, fun s hs => by subst hs; rfl⟩
  | cons f fields ih =>
    by_cases hdiffers : old.differs new f = true
    · by_cases hlong : f = .dash ∧ Dash.maxLength < new.dash.pattern.length
      · refine .inr ⟨new.dash.refusal, old, rfl, fun s hs => ?_⟩
        subst hs
        rw [adoptFields_cons_of_differs hdiffers, if_pos hlong]
      · rcases ih (old.withField new f) with ⟨changed, imager, hrun⟩ | ⟨e, imager, he, hrun⟩
        · refine .inl ⟨changed.insert f, imager, fun s hs => ?_⟩
          subst hs
          rw [adoptFields_cons_of_differs hdiffers, if_neg hlong]
          exact bind_of_ok (hrun { s with imager := s.imager.withField new f } rfl) _
        · refine .inr ⟨e, imager, he, fun s hs => ?_⟩
          subst hs
          rw [adoptFields_cons_of_differs hdiffers, if_neg hlong]
          exact bind_of_error (hrun { s with imager := s.imager.withField new f } rfl) _
    · rcases ih old with ⟨changed, imager, hrun⟩ | ⟨e, imager, he, hrun⟩
      · refine .inl ⟨changed, imager, fun s hs => ?_⟩
        subst hs
        rw [adoptFields_cons_of_not_differs hdiffers, hrun s rfl]
      · refine .inr ⟨e, imager, he, fun s hs => ?_⟩
        subst hs
        rw [adoptFields_cons_of_not_differs hdiffers, hrun s rfl]

/-- Making an imager state current does the same to all states with the same old one. -/
theorem updateImager_cases (new : ImagerState) (selected : FieldSet) (old : ImagerState) :
    (∃ changed imager, ∀ {ν : Type} (s : WriterState μ ν), s.imager = old →
      updateImager new selected s = .ok () ({ s with imager }.forget changed)) ∨
    ∃ e imager, e.isRetryable = false ∧ ∀ {ν : Type} (s : WriterState μ ν), s.imager = old →
      updateImager new selected s = .error e { s with imager } := by
  rcases adoptFields_cases (μ := μ) new (StateField.all.filter selected.contains) old with
    ⟨changed, imager, hrun⟩ | ⟨e, imager, he, hrun⟩
  · exact .inl ⟨changed, { imager with logOp := new.logOp }, fun s hs =>
      bind_of_ok (hrun s hs) _⟩
  · exact .inr ⟨e, imager, he, fun s hs => bind_of_error (hrun s hs) _⟩

end WriterState

end BandedPage
