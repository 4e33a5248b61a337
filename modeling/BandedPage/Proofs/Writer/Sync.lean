import Mathlib
import BandedPage.Proofs.Computation
import BandedPage.Proofs.Config
import BandedPage.Proofs.Replay.Tiles
import BandedPage.Proofs.Writer.Buffer
import BandedPage.Proofs.Writer.Mirror
import BandedPage.Proofs.Writer.Recovery
import BandedPage.Writer.Tile

/-!
# Writer and replay in step

A writer is in step with replay if, for every band, replaying all that the band was sent since the
page began leaves just what the writer takes the band to know. Holding commands keeps it so,
whether there is memory for them or not.
-/

namespace BandedPage

variable {μ ν : Type} [Medium μ] [LawfulMedium μ]

/-- The cache has the size that the configuration says, and its tiles are such that commands carry
their geometry. -/
structure WriterState.CacheSound (q : Terms) (s : WriterState μ ν) : Prop where
  layout : s.tiles.Layout
  heapSize : s.tiles.heap.size = s.config.tileBytes
  tableSize : s.tiles.table.size = s.config.tileSlots
  sendable : ∀ index entry, s.tiles.entryAt index = some entry → entry.slot.size.Sendable
  named : ∀ index entry, s.tiles.entryAt index = some entry →
    q.named entry.id entry.slot.size (s.tiles.bytesIn entry.slot)

omit [Medium μ] [LawfulMedium μ] in
/-- A cache stays sound when a band gets to know some of its tiles. -/
theorem WriterState.CacheSound.foldl_markBand {q : Terms} {s t : WriterState μ ν}
    (h : s.CacheSound q) (sent : List Nat) (band : Nat) (hconfig : t.config = s.config)
    (htiles : t.tiles = sent.foldl (·.markBand · band) s.tiles) : t.CacheSound q := by
  obtain ⟨hheap, -, htable⟩ := TileCache.heap_foldl_markBand sent band s.tiles
  constructor
  · rw [htiles]
    exact h.layout.foldl_markBand ..
  · rw [htiles, hheap, hconfig]
    exact h.heapSize
  · rw [htiles, htable, hconfig]
    exact h.tableSize
  · intro index entry hentry
    rw [htiles] at hentry
    obtain ⟨before, hbefore, hslot, -⟩ := TileCache.exists_of_entryAt_foldl_markBand hentry
    rw [hslot]
    exact h.sendable index before hbefore
  · intro index entry hentry
    rw [htiles] at hentry ⊢
    obtain ⟨before, hbefore, hslot, hid, -⟩ := TileCache.exists_of_entryAt_foldl_markBand hentry
    rw [TileCache.bytesIn, hheap, hslot, hid]
    exact h.named index before hbefore

/-- Replaying what each band was sent makes these calls on the target and leaves what the writer
takes the band to know. -/
structure Synced (q : Terms) (s : WriterState μ ν) (calls : Nat → List TargetCall) : Prop where
  valid : s.config.Valid
  capacity : s.buffer.capacity = s.config.bufferSize
  size : s.bands.size = s.config.nbands
  cache : s.CacheSound q
  replays : ∃ runs sent, s.buffer.Keeps s.config.nbands runs sent ∧
    ∀ band < s.config.nbands, ∃ r,
      ReplaysAll (s.config.bandRect band) (sent band) (.fresh s.config) (calls band) r ∧
        Mirrors q s band (s.band band) r ∧ s.TilesReach q band r

/-- Wherever replay of its band is, the commands of the draft lead it to what the draft records; the
calls on the target are as `P` says. -/
def Drafts (q : Terms) (s : WriterState μ ν) (d : BandDraft) (P : List TargetCall → Prop) : Prop :=
  ∀ r₀, Mirrors q s d.band (s.band d.band) r₀ → s.TilesReach q d.band r₀ →
    ∃ calls r, P calls ∧ Drafted q s r₀ d calls r

def extendCalls (calls : Nat → List TargetCall) (band : Nat) (more : List TargetCall) :
    Nat → List TargetCall :=
  fun b => calls b ++ if b = band then more else []

namespace WriterState

variable [MemoryPolicy μ ν] {s : WriterState μ ν} {nbands : Nat} {runs : List CommandRun}
variable {sent : Nat → List Command}

omit [Medium μ] [LawfulMedium μ] [MemoryPolicy μ ν] in
theorem onMemory_of_ok {m : EStateM Error ν Unit} {memory : ν} (h : m s.memory = .ok () memory) :
    onMemory m s = .ok () { s with memory } := by
  simp only [onMemory, h]

omit [Medium μ] [LawfulMedium μ] [MemoryPolicy μ ν] in
theorem onMemory_of_error {m : EStateM Error ν Unit} {memory : ν} {e : Error}
    (h : m s.memory = .error e memory) : onMemory m s = .error e { s with memory } := by
  simp only [onMemory, h]

/-- A batch is held as a whole if there is memory for it and none of its commands is too long. -/
theorem putBatch_of_fit (h : s.buffer.Keeps nbands runs sent) {whom : Addressee}
    (hw : whom.Within nbands) {batch : List Command}
    (hfit : ∀ c ∈ batch, c.length ≤ s.buffer.capacity) {memory : ν}
    (hreserve : MemoryPolicy.reserve μ batch.flatten.length s.memory = .ok () memory) :
    ∃ memory buffer runs', putBatch whom batch s = .ok () { s with memory, buffer } ∧
      buffer.Keeps nbands runs' (fun band => sent band ++ if whom.includes band then batch else []) ∧
      buffer.capacity = s.buffer.capacity := by
  by_cases hempty : batch.isEmpty = true
  · have hnil : batch = [] := List.isEmpty_iff.mp hempty
    subst hnil
    exact ⟨s.memory, s.buffer, runs, rfl, by simpa using h, rfl⟩
  · obtain ⟨buffer, runs', hrun, hk, hcap⟩ := h.append hw hfit
    refine ⟨memory, buffer, runs', ?_, hk, hcap⟩
    have hsome : (!batch.isEmpty) = true := by simpa using hempty
    rw [putBatch, if_pos hsome, bind_of_ok (onMemory_of_ok hreserve)]
    exact onBuffer_of_ok (s := { s with memory }) hrun

/-- A batch is held as a whole or not at all. -/
theorem putBatch_cases (h : s.buffer.Keeps nbands runs sent) {whom : Addressee}
    (hw : whom.Within nbands) (batch : List Command) :
    (∃ memory buffer runs', putBatch whom batch s = .ok () { s with memory, buffer } ∧
      buffer.Keeps nbands runs' (fun band => sent band ++ if whom.includes band then batch else []) ∧
      buffer.capacity = s.buffer.capacity) ∨
    ∃ e memory, putBatch whom batch s = .error e { s with memory } := by
  cases hreserve : (MemoryPolicy.reserve μ batch.flatten.length s.memory : EStateM.Result _ _ Unit)
    with
  | ok u memory =>
    by_cases hfit : ∀ c ∈ batch, c.length ≤ s.buffer.capacity
    · exact .inl (putBatch_of_fit h hw hfit hreserve)
    · refine .inr ?_
      have hsome : (!batch.isEmpty) = true := by
        cases batch with
        | nil => exact absurd (fun c hc => absurd hc List.not_mem_nil) hfit
        | cons c batch => rfl
      have hlong : s.buffer.capacity < batch.foldl (fun n c => max n c.length) 0 := by
        rw [← Nat.not_le, CommandBuffer.Keeps.foldl_max_length_le]
        exact fun hall => hfit hall.2
      refine ⟨.commandTooLarge (batch.foldl (fun n c => max n c.length) 0) s.buffer.capacity,
        memory, ?_⟩
      rw [putBatch, if_pos hsome, bind_of_ok (onMemory_of_ok hreserve)]
      simp [onBuffer, CommandBuffer.append, hlong]
  | error e memory =>
    by_cases hempty : batch.isEmpty = true
    · have hnil : batch = [] := List.isEmpty_iff.mp hempty
      subst hnil
      exact .inl ⟨s.memory, s.buffer, runs, rfl, by simpa using h, rfl⟩
    · have hsome : (!batch.isEmpty) = true := by simpa using hempty
      refine .inr ⟨e, memory, ?_⟩
      rw [putBatch, if_pos hsome, bind_of_error (onMemory_of_error hreserve)]

end WriterState

omit [Medium μ] [LawfulMedium μ] in
/-- Nothing lies in a cache that was reset. -/
theorem WriterState.cacheSound_of_no_entries {q : Terms} {s : WriterState μ ν}
    (hheap : s.tiles.heap.size = s.config.tileBytes)
    (htable : s.tiles.table.size = s.config.tileSlots) (htop : s.tiles.top = 0)
    (htiles : ∀ index, s.tiles.entryAt index = none) : s.CacheSound q where
  layout := TileCache.layout_of_no_entries (htop ▸ Nat.zero_le _) htiles
  heapSize := hheap
  tableSize := htable
  sendable index entry hentry := by
    rw [htiles index] at hentry
    cases hentry
  named index entry hentry := by
    rw [htiles index] at hentry
    cases hentry

/-- On an empty page nothing is known. -/
theorem synced_fresh {q : Terms} {s : WriterState μ ν} (hvalid : s.config.Valid)
    (hcapacity : s.buffer.capacity = s.config.bufferSize) (hsize : s.bands.size = s.config.nbands)
    (hbands : ∀ band, s.band band = {})
    (hkeeps : s.buffer.Keeps s.config.nbands [] fun _ => [])
    (hheap : s.tiles.heap.size = s.config.tileBytes)
    (htable : s.tiles.table.size = s.config.tileSlots) (htop : s.tiles.top = 0)
    (htiles : ∀ index, s.tiles.entryAt index = none) (htileSize : s.tileSize = none)
    (himage : ∀ im ∈ s.image, ∀ band, im.started.contains band = false) :
    Synced q s fun _ => [] := by
  refine ⟨hvalid, hcapacity, hsize,
    WriterState.cacheSound_of_no_entries hheap htable htop htiles, [], fun _ => [], hkeeps,
    fun band _ => ?_⟩
  refine ⟨.fresh s.config, .nil _, ?_, .fresh hheap htable htiles htileSize⟩
  rw [hbands band]
  exact .fresh fun im him => himage im him band

namespace Synced

variable {q q' : Terms} {s s' : WriterState μ ν} {calls calls' : Nat → List TargetCall}

theorem congr (h : Synced q s calls) (heq : ∀ band < s.config.nbands, calls band = calls' band) :
    Synced q s calls' := by
  obtain ⟨runs, sent, hk, hreplays⟩ := h.replays
  refine ⟨h.valid, h.capacity, h.size, h.cache, runs, sent, hk, fun band hband => ?_⟩
  rw [← heq band hband]
  exact hreplays band hband

/-- Something else was taken for current, which bands learn of in time. -/
theorem adapt (h : Synced q s calls) (hconfig : s'.config = s.config)
    (hbuffer : s'.buffer = s.buffer) (hsize : s'.bands.size = s.bands.size) (hcache : s'.CacheSound q')
    (hstep : ∀ band < s.config.nbands, ∀ r, Mirrors q s band (s.band band) r →
      s.TilesReach q band r → Mirrors q' s' band (s'.band band) r ∧ s'.TilesReach q' band r) :
    Synced q' s' calls := by
  obtain ⟨runs, sent, hk, hreplays⟩ := h.replays
  refine ⟨hconfig ▸ h.valid, by rw [hbuffer, hconfig]; exact h.capacity,
    by rw [hsize, hconfig]; exact h.size, hcache, runs, sent, by rw [hbuffer, hconfig]; exact hk,
    fun band hband => ?_⟩
  rw [hconfig] at hband ⊢
  obtain ⟨r, hr, hm, ht⟩ := hreplays band hband
  exact ⟨r, hr, hstep band hband r hm ht⟩

/-- Only memory changed. -/
theorem withMemory (h : Synced q s calls) (memory : ν) : Synced q { s with memory } calls :=
  h.adapt rfl rfl rfl { h.cache with } fun _ _ _ hm ht => ⟨{ hm with }, { ht with }⟩

/-- The cache was asked for a bitmap, which no band has if it is new. -/
theorem withTiles (h : Synced q s calls) {id : BitmapId} {size : TileSize} {bits : Bytes}
    {tiles : TileCache} (hasked : TileCache.Asked id size bits s.tiles tiles)
    (hsize : size.Sendable) (hnamed : q.named id size (bits.extract 0 size.dataSize)) :
    Synced q { s with tiles } calls := by
  refine h.adapt rfl rfl rfl ⟨hasked.layout, hasked.heapSize.trans h.cache.heapSize,
    hasked.tableSize.trans h.cache.tableSize, fun i e he => ?_, fun i e he => ?_⟩
    fun _ _ _ hm ht => ⟨{ hm with }, { ht with tiles := ht.tiles.asked hasked }⟩
  · rcases hasked.entries i e he with ⟨before, hbefore, -, hsame, -⟩ | ⟨-, hsame, -⟩
    · exact hsame ▸ h.cache.sendable i before hbefore
    · exact hsame ▸ hsize
  · rcases hasked.entries i e he with ⟨before, hbefore, hid, hsame, hbytes, -⟩ |
      ⟨hid, hsame, hbytes, -⟩
    · rw [← hid, ← hsame]
      exact hbytes.symm ▸ h.cache.named i before hbefore
    · rw [hid, hsame]
      exact hbytes.symm ▸ hnamed

variable {d : BandDraft} {P : List TargetCall → Prop}

variable [MemoryPolicy μ ν]

/-- A batch is held as a whole, and leads a replay of every band that it is for to what the band is
to know then; or it is not held at all. -/
theorem putBatch (h : Synced q s calls) {whom : Addressee} (hw : whom.Within s.config.nbands)
    (batch : List Command) :
    (∃ memory buffer, WriterState.putBatch whom batch s = .ok () { s with memory, buffer } ∧
      ∀ {q' : Terms} {s' : WriterState μ ν} {P : Nat → List TargetCall → Prop},
        s'.config = s.config → s'.buffer = buffer → s'.bands.size = s.bands.size → s'.CacheSound q' →
        (∀ band < s.config.nbands, ∀ r, Mirrors q s band (s.band band) r → s.TilesReach q band r →
          ∃ more r', P band more ∧ ReplaysAll (s.config.bandRect band)
            (if whom.includes band then batch else []) r more r' ∧
            Mirrors q' s' band (s'.band band) r' ∧ s'.TilesReach q' band r') →
        ∃ more : Nat → List TargetCall, (∀ band < s.config.nbands, P band (more band)) ∧
          Synced q' s' fun band => calls band ++ more band) ∨
    ∃ e memory, WriterState.putBatch whom batch s = .error e { s with memory } := by
  obtain ⟨runs, sent, hk, hreplays⟩ := h.replays
  rcases WriterState.putBatch_cases hk hw batch with
    ⟨memory, buffer, runs', hput, hk', hcap⟩ | ⟨e, memory, hput⟩
  · refine .inl ⟨memory, buffer, hput, fun {q' s' P} hconfig hbuffer hsize hcache hstep => ?_⟩
    have hband : ∀ band, ∃ more, band < s.config.nbands → P band more ∧ ∃ r',
        ReplaysAll (s.config.bandRect band)
          (sent band ++ if whom.includes band then batch else []) (.fresh s.config)
          (calls band ++ more) r' ∧
        Mirrors q' s' band (s'.band band) r' ∧ s'.TilesReach q' band r' := by
      intro band
      by_cases hband : band < s.config.nbands
      · obtain ⟨r, hr, hm, ht⟩ := hreplays band hband
        obtain ⟨more, r', hmore, hr', hm', ht'⟩ := hstep band hband r hm ht
        exact ⟨more, fun _ => ⟨hmore, r', hr.append hr', hm', ht'⟩⟩
      · exact ⟨[], fun h => absurd h hband⟩
    choose more hmore using hband
    refine ⟨more, fun band hband => (hmore band hband).1, hconfig ▸ h.valid, ?_, ?_, hcache,
      runs', fun band => sent band ++ if whom.includes band then batch else [], ?_,
      fun band hband => ?_⟩
    · rw [hbuffer, hconfig, hcap]
      exact h.capacity
    · rw [hsize, hconfig]
      exact h.size
    · rw [hbuffer, hconfig]
      exact hk'
    · rw [hconfig] at hband ⊢
      exact (hmore band hband).2
  · exact .inr ⟨e, memory, hput⟩

/-- A batch is held for all bands, or for none. -/
theorem putAllBands (h : Synced q s calls) (batch : List Command) :
    (∃ memory buffer, WriterState.putAllBands batch s = .ok () { s with memory, buffer } ∧
      ∀ {q' : Terms} {s' : WriterState μ ν} {P : Nat → List TargetCall → Prop},
        s'.config = s.config → s'.buffer = buffer → s'.bands.size = s.bands.size → s'.CacheSound q' →
        (∀ band < s.config.nbands, ∀ r, Mirrors q s band (s.band band) r → s.TilesReach q band r →
          ∃ more r', P band more ∧ ReplaysAll (s.config.bandRect band) batch r more r' ∧
            Mirrors q' s' band (s'.band band) r' ∧ s'.TilesReach q' band r') →
        ∃ more : Nat → List TargetCall, (∀ band < s.config.nbands, P band (more band)) ∧
          Synced q' s' fun band => calls band ++ more band) ∨
    ∃ e memory, WriterState.putAllBands batch s = .error e { s with memory } := by
  have hpos := h.valid.nbands_pos
  have hall : ∀ band < s.config.nbands,
      (Addressee.range s.config.allBands).includes band = true := by
    intro band hband
    have hrange : band ≤ s.config.nbands - 1 := by omega
    simp [Addressee.includes, Config.allBands, BandRange.all, BandRange.contains, hrange]
  have hwithin : (Addressee.range s.config.allBands).Within s.config.nbands := by
    simp only [Addressee.Within, Config.allBands, BandRange.all]
    omega
  have hrun : WriterState.putAllBands batch s =
      WriterState.putBatch (.range s.config.allBands) batch s := rfl
  rw [hrun]
  refine (h.putBatch hwithin batch).imp_left ?_
  rintro ⟨memory, buffer, hput, hheld⟩
  refine ⟨memory, buffer, hput, fun hconfig hbuffer hsize hcache hstep => ?_⟩
  refine hheld hconfig hbuffer hsize hcache fun band hband r hm ht => ?_
  rw [if_pos (hall band hband)]
  exact hstep band hband r hm ht

/-- What a draft says is held as a whole, or not at all. Then it is known, and something else may be
taken for current that agrees with what replay of the band has come to. -/
theorem commitThen (h : Synced q s calls) {R : ReplayState → Prop}
    (hd : ∀ r₀, Mirrors q s d.band (s.band d.band) r₀ → s.TilesReach q d.band r₀ →
      ∃ calls r, P calls ∧ Drafted q s r₀ d calls r ∧ R r)
    (hband : d.band < s.config.nbands) (image : Option OpenImage → Option OpenImage)
    (hsame : ∀ r, Mirrors q s d.band d.state r → R r →
      Mirrors q { s with image := image s.image } d.band d.state r)
    (hother : ∀ band r, band ≠ d.band → Mirrors q s band (s.band band) r →
      Mirrors q { s with image := image s.image } band (s.band band) r) :
    (∃ s' more, WriterState.commit d s = .ok () s' ∧ s.Alike s' ∧
      s'.tiles = d.sent.foldl (·.markBand · d.band) s.tiles ∧ P more ∧
      Synced q { s' with image := image s'.image } (extendCalls calls d.band more)) ∨
    ∃ e memory, WriterState.commit d s = .error e { s with memory } := by
  have hwithin : (Addressee.band d.band).Within s.config.nbands := hband
  rcases h.putBatch hwithin d.commands.toList with
    ⟨memory, buffer, hput, hheld⟩ | ⟨e, memory, hput⟩
  · obtain ⟨s', hs'⟩ : ∃ s', s' = { s with
        memory, buffer
        bands := s.bands.setIfInBounds d.band d.state
        tiles := d.sent.foldl (·.markBand · d.band) s.tiles } := ⟨_, rfl⟩
    obtain ⟨t, ht'⟩ : ∃ t, t = { s' with image := image s'.image } := ⟨_, rfl⟩
    have hstate : ∀ band, t.band band = if band = d.band then d.state else s.band band := by
      intro band
      rw [ht', hs', WriterState.band, WriterState.band]
      by_cases heq : band = d.band
      · simp [heq, h.size, hband]
      · simp [heq, Ne.symm heq]
    have hcache : t.CacheSound q :=
      h.cache.foldl_markBand d.sent d.band (by rw [ht', hs']) (by rw [ht', hs'])
    obtain ⟨more, hmore, hsynced⟩ := @hheld q t
      (fun band calls => if band = d.band then P calls else calls = [])
      (by rw [ht', hs']) (by rw [ht', hs'])
      (by rw [ht', hs']; exact Array.size_setIfInBounds ..) hcache
      fun band hlt r hm ht => by
        by_cases heq : band = d.band
        · subst heq
          obtain ⟨more, r', hmore, hdrafted, hr'⟩ := hd r hm ht
          refine ⟨more, r', by rw [if_pos rfl]; exact hmore, ?_, ?_, ?_⟩
          · simpa [Addressee.includes] using hdrafted.replays
          · rw [hstate, if_pos rfl, ht', hs']
            exact { hsame r' hdrafted.mirrors hr' with }
          · subst ht'
            subst hs'
            refine ⟨(hdrafted.tiles ht.tiles).mark, fun size hsize => ?_⟩
            exact hdrafted.tileSize.trans (ht.size size hsize)
        · refine ⟨[], r, by rw [if_neg heq], ?_, ?_, ?_⟩
          · simpa [Addressee.includes, Ne.symm heq] using ReplaysAll.nil r
          · rw [hstate, if_neg heq, ht', hs']
            exact { hother band r heq hm with }
          · subst ht'
            subst hs'
            exact ⟨ht.tiles.mark_other heq d.sent, ht.size⟩
    have hthis := hmore d.band hband
    rw [if_pos rfl] at hthis
    refine .inl ⟨s', more d.band, ?_, ?_, by rw [hs'], hthis, ?_⟩
    · rw [hs']
      exact bind_of_ok hput _
    · rw [hs']
      exact ⟨rfl, rfl, rfl, rfl, rfl, rfl, rfl, rfl⟩
    · rw [ht'] at hsynced
      refine hsynced.congr fun band hlt => ?_
      have hother' := hmore band (by rw [hs'] at hlt; exact hlt)
      rw [extendCalls]
      by_cases heq : band = d.band
      · rw [if_pos heq, heq]
      · rw [if_neg heq] at hother' ⊢
        rw [hother']
  · exact .inr ⟨e, memory, bind_of_error hput _⟩

/-- What a draft says is held as a whole, and then it is known, or not at all. -/
theorem commit (h : Synced q s calls) (hd : Drafts q s d P) (hband : d.band < s.config.nbands) :
    (∃ s' more, WriterState.commit d s = .ok () s' ∧ s.Alike s' ∧
      s'.tiles = d.sent.foldl (·.markBand · d.band) s.tiles ∧ P more ∧
      Synced q s' (extendCalls calls d.band more)) ∨
    ∃ e memory, WriterState.commit d s = .error e { s with memory } :=
  h.commitThen (R := fun _ => True)
    (fun r₀ hm ht =>
      let ⟨drawn, r, hp, hdrafted⟩ := hd r₀ hm ht
      ⟨drawn, r, hp, hdrafted, trivial⟩)
    hband id (fun _ hm _ => hm) fun _ _ _ hm => hm

/-- A draft of short commands is held if there is memory for it. -/
theorem commit_of_fit (h : Synced q s calls) (hband : d.band < s.config.nbands)
    (hfit : ∀ c ∈ d.commands.toList, c.length ≤ s.config.bufferSize) {memory : ν}
    (hreserve : MemoryPolicy.reserve μ d.commands.toList.flatten.length s.memory =
      .ok () memory) :
    ∃ s', WriterState.commit d s = .ok () s' := by
  obtain ⟨runs, sent, hk, -⟩ := h.replays
  obtain ⟨memory', buffer, -, hput, -⟩ := WriterState.putBatch_of_fit hk
    (show (Addressee.band d.band).Within s.config.nbands from hband) (h.capacity ▸ hfit) hreserve
  exact ⟨_, bind_of_ok hput _⟩

end Synced

end BandedPage
