import Mathlib
import BandedPage.Proofs.Config
import BandedPage.Proofs.Replay.Composing
import BandedPage.Proofs.Target.Painting
import BandedPage.Replay.Replayer
import BandedPage.Store.Memory

/-!
# Bands are independent

Whatever the bytes of a band are, replaying it on a raster paints certain dots of the band, and is
answered in a certain way. Neither depends on what the raster shows. Dots of different bands are
different pixels, so bands can be replayed in any order.
-/

namespace BandedPage

/-- On a raster the step paints certain dots of the area, whatever colors the pixels have, and is
answered and goes on in the same way. -/
def Replay.Confined {σ α : Type} (m : ReplayM σ Raster α) : Prop :=
  ∀ (s : σ) (r : Raster) (state : ReplayState), r.Placed → ∃ answer s' state' dots,
    r.Admits dots ∧
      ∀ r', r.SamePage r' → m ⟨s, r', state⟩ = endWith answer ⟨s', r'.putAll dots, state'⟩

namespace Replay

variable {σ α β : Type}

theorem Confined.of_still {m : ReplayM σ Raster α}
    (h : ∀ s (r : Raster) state, ∃ answer s' state', ∀ r', r.SamePage r' →
      m ⟨s, r', state⟩ = endWith answer ⟨s', r', state'⟩) : Confined m := by
  intro s r state _
  obtain ⟨answer, s', state', hm⟩ := h s r state
  exact ⟨answer, s', state', [], r.admits_nil, hm⟩

theorem Confined.bind {m : ReplayM σ Raster α} {f : α → ReplayM σ Raster β} (hm : Confined m)
    (hf : ∀ a, Confined (f a)) : Confined (m >>= f) := by
  intro s r state hr
  obtain ⟨answer, s₁, state₁, dots, hdots, hm⟩ := hm s r state hr
  cases answer with
  | error e => exact ⟨.error e, s₁, state₁, dots, hdots, fun r' h => bind_of_error (hm r' h) f⟩
  | ok a =>
    obtain ⟨answer, s₂, state₂, dots', hdots', hf⟩ := hf a s₁ r state₁ hr
    refine ⟨answer, s₂, state₂, dots ++ dots', hdots.append hdots', fun r' h => ?_⟩
    rw [bind_of_ok (hm r' h), hf _ (h.trans (r'.samePage_putAll dots)), Raster.putAll_append]

variable [ByteSource σ]

theorem confined_composing :
    Composing (σ := σ) (τ := Raster) (fun _ => True) (fun m => Confined m) where
  prepare := trivial
  currentOffset := trivial
  nextByte := trivial
  take _ := trivial
  varint := trivial
  varints _ := trivial
  signedVarint := trivial
  natural _ := trivial
  naturals _ _ := trivial
  integer := trivial
  single := trivial
  singles _ := trivial
  matrix := trivial
  offsets _ := trivial
  payload _ _ _ := trivial
  color _ _ _ := trivial
  colorDifference _ _ := trivial
  rect _ _ _ := trivial
  header _ := trivial
  order _ _ := trivial
  bases := trivial
  pure a := .of_still fun s _ state => ⟨.ok a, s, state, fun _ _ => rfl⟩
  throw e := .of_still fun s _ state => ⟨.error e, s, state, fun _ _ => rfl⟩
  bind := .bind
  read {_ decoder} _ := .of_still fun s _ state => by
    cases hread : decoder s with
    | ok a s' => exact ⟨.ok a, s', state, fun _ _ => by simp only [Replay.read, hread, endWith]⟩
    | error e s' =>
      exact ⟨.error e, s', state, fun _ _ => by simp only [Replay.read, hread, endWith]⟩
  draw call := fun s r state hr => by
    obtain ⟨answer, dots, hdots, hcall⟩ := Raster.draws_perform hr call
    refine ⟨answer, s, state, dots, hdots, fun r' h => ?_⟩
    rw [Replay.draw, hcall r' h]
    cases answer <;> rfl
  getState := .of_still fun s _ state => ⟨.ok state, s, state, fun _ _ => rfl⟩
  modifyState {f} _ := .of_still fun s _ state => ⟨.ok (), s, f state, fun _ _ => rfl⟩
  storeTile index offset size bits := .of_still fun s _ state => by
    cases hstore : state.tiles.store index offset size bits with
    | ok tiles =>
      refine ⟨.ok (), s, { state with tiles, band := { state.band with tileIndex := index } }, ?_⟩
      intro r' _
      simp only [storeTile_run, hstore, endWith]
    | error e =>
      refine ⟨.error e, s, state, ?_⟩
      intro r' _
      simp only [storeTile_run, hstore, endWith]
  clipBox := .of_still fun s r state => ⟨.ok r.clipBox, s, state, fun r' h => by
    rw [← h.clipBox]
    rfl⟩

theorem confined_run : Confined (run : ReplayM σ Raster Unit) := fun s =>
  confined_composing.runCommands (ByteSource.unread s + 1) s

end Replay

namespace Replayer

variable {μ : Type} [Medium μ] {store : BandStore μ} {config : Config} {band : Nat}

/-- All that comes of replaying a band on pages of one size: how it is answered and ends, what the
band was told, and the dots that it paints. -/
structure BandOutcome where
  answer : Except Error Unit
  progress : ReplayProgress
  known : FieldSet
  dots : List Raster.Dot

/-- What comes of replaying the band on a page of the size of `page`. -/
structure BandOutcome.Of (o : BandOutcome) (store : BandStore μ) (config : Config) (band : Nat)
    (page : Raster) : Prop where
  dots : (page.withBox (config.bandRect band)).Admits o.dots
  playStored : ∀ r : Replayer Raster, r.config = config → page.SameSize r.target →
    Replayer.playStored store config.nbands band r = endWith o.answer
      { r with
        target := (r.target.putAll o.dots).withBox (config.bandRect band)
        progress := o.progress, known := o.known }

theorem BandOutcome.Of.playBand {o : BandOutcome} {page : Raster} (h : o.Of store config band page)
    (hsum : Word.fits32 (config.height + config.bandHeight) = true) (r : Replayer Raster)
    (hr : r.config = config) (hsize : page.SameSize r.target) :
    Replayer.playBand store band r = endWith o.answer
      { r with
        target := (r.target.putAll o.dots).withBox (config.bandRect band)
        progress := o.progress, known := o.known } := by
  subst hr
  exact (playBand_of_fits hsum store band).trans (h.playStored r rfl hsize)

/-- What comes of replaying a band does not depend on what the raster shows. -/
theorem exists_bandOutcome (hvalid : config.Valid) (hheight : config.height < 2147483648)
    (store : BandStore μ) (hband : band < config.nbands) (page : Raster) :
    ∃ o : BandOutcome, o.Of store config band page := by
  obtain ⟨boxed, hboxed⟩ : ∃ boxed : Raster,
    boxed = page.withBox (config.bandRect band) := ⟨_, rfl⟩
  have hplaced : boxed.Placed := by
    have hb := hvalid.bandHeight
    rw [hboxed, hvalid.bandRect_eq hheight hband]
    exact ⟨le_rfl, Int.mul_nonneg (Int.natCast_nonneg _) hb.le⟩
  obtain ⟨answer, s', state', dots, hdots, hrun⟩ := Replay.confined_run
    (buffered config (store.bandFeed band)) boxed (.fresh config) hplaced
  refine ⟨⟨answer, match answer with | .ok _ => .endOfPage | .error _ => .stopped,
    state'.band.known, dots⟩, hboxed ▸ hdots, ?_⟩
  rintro r rfl hsize
  have hrun := hrun (r.target.withBox (r.config.bandRect band)) (hboxed ▸ hsize.withBox _)
  rw [Raster.putAll_withBox] at hrun
  have hin : ¬ r.config.nbands ≤ band := by omega
  have hbegin : Target.beginBand band (r.config.bandRect band) r.target =
    .ok () (r.target.withBox (r.config.bandRect band)) := rfl
  simp only [playStored, get_bind_run, if_neg hin, play, hbegin, hrun]
  cases answer <;> rfl

/-- Replay bands one after another, whatever comes of each. -/
def playEach {τ : Type} [Target τ] (store : BandStore μ) :
    List Nat → Replayer τ → List (Except Error Unit) × Replayer τ
  | [], r => ([], r)
  | band :: bands, r =>
    let result := playBand store band r
    let (answers, r') := playEach store bands (stateOf result)
    (answerOf result :: answers, r')

/-- Replaying bands one after another is answered as replaying each for itself is, and paints the
dots of all of them. -/
theorem playEach_eq {outcome : Nat → BandOutcome} {page : Raster} {bands : List Nat}
    (hsum : Word.fits32 (config.height + config.bandHeight) = true)
    (h : ∀ band ∈ bands, (outcome band).Of store config band page) {r : Replayer Raster}
    (hconfig : r.config = config) (hsize : page.SameSize r.target) :
    (playEach store bands r).1 = bands.map (fun band => (outcome band).answer) ∧
      ∃ box, (playEach store bands r).2.target =
        (r.target.putAll (bands.flatMap fun band => (outcome band).dots)).withBox box := by
  induction bands generalizing r with
  | nil => exact ⟨rfl, r.target.clipBox, rfl⟩
  | cons band bands ih =>
    have hplay := (h band List.mem_cons_self).playBand hsum r hconfig hsize
    obtain ⟨r', hr'⟩ : ∃ r', r' = stateOf (playBand store band r) := ⟨_, rfl⟩
    have htarget' : r'.target =
        (r.target.putAll (outcome band).dots).withBox (config.bandRect band) := by
      simp [hr', hplay]
    have hconfig' : r'.config = config := by
      rw [hr', hplay, stateOf_endWith]
      exact hconfig
    have hsize' : page.SameSize r'.target := by
      rw [htarget']
      have := hsize.trans (r.target.sameSize_putAll (outcome band).dots)
      exact ⟨this.width, this.height, this.depth⟩
    obtain ⟨hanswers, box, htarget⟩ :=
      ih (fun b hb => h b (List.mem_cons_of_mem band hb)) hconfig' hsize'
    refine ⟨?_, box, ?_⟩
    · show answerOf (playBand store band r) :: (playEach store bands _).1 = _
      rw [← hr', hanswers, hplay, answerOf_endWith]
      rfl
    · show (playEach store bands (stateOf (playBand store band r))).2.target = _
      rw [← hr', htarget, htarget', Raster.putAll_withBox, Raster.withBox_withBox,
        List.flatMap_cons, Raster.putAll_append]

/-- No two bands have a pixel in common. -/
theorem putAll_comm_of_ne (hvalid : config.Valid) (hheight : config.height < 2147483648)
    {band' : Nat} (hband : band < config.nbands) (hband' : band' < config.nbands)
    {o o' : BandOutcome} {page r : Raster} (ho : o.Of store config band page)
    (ho' : o'.Of store config band' page) (hwidth : r.width = page.width) (hne : band ≠ band') :
    (r.putAll o.dots).putAll o'.dots = (r.putAll o'.dots).putAll o.dots := by
  refine Raster.putAll_comm fun d hd d' hd' => ?_
  obtain ⟨hx, -, hbox⟩ := ho.dots d hd
  obtain ⟨hx', -, hbox'⟩ := ho'.dots d' hd'
  refine ⟨hwidth ▸ hx, hwidth ▸ hx', fun ⟨hxx, hyy⟩ => hne ?_⟩
  have hof := ((hvalid.bandRect_hasPixel hheight hband).mp hbox).2
  have hof' := ((hvalid.bandRect_hasPixel hheight hband').mp hbox').2
  rw [← hof, ← hof', hyy]

/-- Replaying a band on a raster of any size and depth, whatever bytes the store holds for it,
changes no pixel outside the band, and how it ends does not depend on the pixels. So all bands can
be replayed in any order: each is answered as it would be by itself, and the raster is the one that
ascending order gives, up to the area that may be drawn in. The bands can be counted, or else none of
them is replayed; sizes and coordinates of what is drawn are exact. -/
theorem bands_are_independent (store : BandStore μ) (r : Replayer Raster)
    (hconfig : r.config.validate = .ok ()) (hheight : r.config.height < 2147483648)
    (hsum : Word.fits32 (r.config.height + r.config.bandHeight) = true) :
    (∀ band < r.config.nbands,
      r.target.SameSize (stateOf (playBand store band r)).target ∧
      ∀ x < r.target.width, ∀ y < r.target.height, ¬ (r.config.bandRect band).HasPixel x y →
        (stateOf (playBand store band r)).target.pixel x y = r.target.pixel x y) ∧
    (∀ band < r.config.nbands, ∀ r' : Replayer Raster, r'.config = r.config →
      r.target.SameSize r'.target →
      answerOf (playBand store band r') = answerOf (playBand store band r) ∧
      (stateOf (playBand store band r')).progress = (stateOf (playBand store band r)).progress ∧
      (stateOf (playBand store band r')).known = (stateOf (playBand store band r)).known) ∧
    ∀ order : List Nat, order.Perm (List.range r.config.nbands) →
      (playEach store order r).1 = order.map (fun band => answerOf (playBand store band r)) ∧
      ∃ box, (playEach store order r).2.target =
        (playEach store (List.range r.config.nbands) r).2.target.withBox box := by
  have hvalid := Config.valid_of_validate hconfig
  have hexists : ∀ band, ∃ o : BandOutcome, band < r.config.nbands →
      o.Of store r.config band r.target := by
    intro band
    by_cases hband : band < r.config.nbands
    · obtain ⟨o, ho⟩ := exists_bandOutcome hvalid hheight store hband r.target
      exact ⟨o, fun _ => ho⟩
    · exact ⟨⟨.ok (), .fresh, ∅, []⟩, fun h => absurd h hband⟩
  choose outcome houtcome using hexists
  refine ⟨fun band hband => ?_, fun band hband r' hr' hsize => ?_, fun order horder => ?_⟩
  · rw [(houtcome band hband).playBand hsum r rfl (.refl _), stateOf_endWith]
    have hsize := r.target.sameSize_putAll (outcome band).dots
    refine ⟨⟨hsize.width, hsize.height, hsize.depth⟩, fun x hx y _ hout => ?_⟩
    show (r.target.putAll (outcome band).dots).pixel x y = _
    refine Raster.pixel_putAll hx fun d hd => ?_
    obtain ⟨hdx, -, hbox⟩ := (houtcome band hband).dots d hd
    exact ⟨hdx, fun ⟨hxx, hyy⟩ => hout (hxx ▸ hyy ▸ hbox)⟩
  · rw [(houtcome band hband).playBand hsum r rfl (.refl _),
      (houtcome band hband).playBand hsum r' hr' hsize]
    simp
  · have hin : ∀ band ∈ order, band < r.config.nbands := fun band hband =>
      List.mem_range.mp (horder.subset hband)
    obtain ⟨hanswers, box, htarget⟩ := playEach_eq hsum
      (fun band (hband : band ∈ order) => houtcome band (hin band hband)) rfl (.refl r.target)
    obtain ⟨-, box', htarget'⟩ := playEach_eq hsum
      (fun band (hband : band ∈ List.range r.config.nbands) =>
        houtcome band (List.mem_range.mp hband)) rfl (.refl r.target)
    refine ⟨?_, box, ?_⟩
    · rw [hanswers]
      refine List.map_congr_left fun band hband => ?_
      rw [(houtcome band (hin band hband)).playBand hsum r rfl (.refl _), answerOf_endWith]
    · have hsame : r.target.putAll (order.flatMap fun band => (outcome band).dots) =
          r.target.putAll ((List.range r.config.nbands).flatMap fun band => (outcome band).dots) := by
        refine Raster.putAll_flatMap_of_perm horder fun i hi j hj t ht => ?_
        by_cases hij : i = j
        · rw [hij]
        · exact putAll_comm_of_ne hvalid hheight (hin i hi) (hin j hj) (houtcome i (hin i hi))
            (houtcome j (hin j hj)) ht.width hij
      simp [htarget, htarget', hsame]

/-- Descending order on the default page, where all bands have a run of bytes that are no
commands. -/
theorem descending_bands_are_independent :
    let store : BandStore MemoryMedium :=
      { commands := { bytes := #[0xff, 0x40, 0x07] }
        index := { bytes := (BlockRecord.ofRun ⟨0, 12⟩ 0).toBytes.toArray }
        commandLength := 3, recordCount := 1 }
    let r : Replayer Raster := { config := default, target := .ofSize 612 792 8 }
    (default : Config).validate = .ok () ∧
      (playEach store (List.range 13).reverse r).1 =
        (List.range 13).reverse.map (fun band => answerOf (playBand store band r)) ∧
      ∃ box, (playEach store (List.range 13).reverse r).2.target =
        (playEach store (List.range 13) r).2.target.withBox box := by
  intro store r
  have hvalid : (default : Config).validate = .ok () := rfl
  obtain ⟨-, -, horder⟩ := bands_are_independent store r hvalid (by decide) (by decide)
  exact ⟨hvalid, horder (List.range 13).reverse (List.reverse_perm _)⟩

/-- The only band of a page of two rows holds a page end. It is replayed if it has two rows too, but
not if it has as many as 32 bits can tell. -/
theorem uncountable_bands_are_not_replayed :
    let store : BandStore MemoryMedium :=
      { commands := { bytes := #[Opcode.endPage] }
        index := { bytes := (BlockRecord.ofRun ⟨0, 0⟩ 0).toBytes.toArray }
        commandLength := 1, recordCount := 1 }
    let page (bandHeight : Int) : Replayer Raster :=
      { config := { width := 1, height := 2, bandHeight }, target := .ofSize 1 2 8 }
    (page 2).config.validate = .ok () ∧ (page 2147483647).config.validate = .ok () ∧
      (page 2).config.bandRect 0 = (page 2147483647).config.bandRect 0 ∧
      answerOf (playBand store 0 (page 2)) = .ok () ∧
      answerOf (playBand store 0 (page 2147483647)) = .error .uncountable :=
  ⟨rfl, rfl, by decide +kernel, by decide +kernel, rfl⟩

end Replayer

end BandedPage
