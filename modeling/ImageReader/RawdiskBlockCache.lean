import ImageReader.Asking
import ImageReader.FoyerTransparency
import ImageReader.RawdiskFailures

/-!
# Reading a split raw image through the block cache

`read_at_offset` takes `&self`, so any number of reads share one block cache,
with each other and with the prefetches that they leave behind.  A read asks
the cache for one slice after another, and no slice twice: it is a read over
some cache which answers with the bytes of the segments, and fails only if a
source has failed it.
-/

namespace ImageReader
namespace Rawdisk

open Foyer (CacheError CacheState FoyerCache ReadCall)

/-- `(idx, within, take)` -/
abbrev SegmentSlice := ℕ × ℕ × ℕ

section Read

variable (build : Build) (reader : RawdiskReader)

/-- The slice which the loop asks for next. -/
def nextSlice (offset total : ℕ) (filled : Bytes) :
    Outcome ReadError SegmentSlice := do
  let want ← build.add offset filled.length
  match ← reader.segments.locate build want with
  | none => .error (.offsetBeyondEnd want reader.imageSize)
  | some (idx, within, left) =>
      let remaining ← build.sub total filled.length
      let take := takeBytes remaining left
      if take = 0 then .error (.noBytesRemaining idx want)
      else pure (idx, within, take)

/-- The read loop; what fills a slice is `io::Result<()>` with its bytes. -/
def readSlices (offset total : ℕ) :
    ℕ → Bytes → Asking SegmentSlice (Outcome ℕ Bytes) (Outcome ReadError Bytes)
  | 0, _ => .done .hang
  | fuel + 1, filled =>
      if filled.length < total then
        .goOn (nextSlice build reader offset total filled) fun slice =>
          .ask slice fun answer =>
            .goOn (answer.mapError .ioError) fun data =>
              readSlices offset total fuel (filled ++ data)
      else .done (.ok filled)

/-- `read_at_offset`, up to the cache. -/
def askAtOffset (offset : ℕ) (buf : Bytes) :
    Asking SegmentSlice (Outcome ℕ Bytes) (Outcome ReadError (ℕ × Bytes)) :=
  if reader.imageSize < offset then
    .done (.error (.offsetBeyondEnd offset reader.imageSize))
  else
    .goOn (limitToEnd build reader.imageSize offset buf.length) fun limit =>
      .goOn (Slice.range buf 0 limit) fun window =>
        let total := window.length
        if total = 0 then .done (.ok (0, buf))
        else
          (readSlices build reader offset total (total + 1) []).map fun filled =>
            filled.map fun filled => (total, filled ++ buf.drop total)

/-- A call of `Cache::read`, whose arguments are words.  What its buffer holds
is written over. -/
def sliceCall (slice : SegmentSlice) : ReadCall where
  idx := slice.1
  off := slice.2.1 % wordLimit
  buf := List.replicate (slice.2.2 % wordLimit) 0
  off_lt := Nat.mod_lt _ (by decide)
  length_lt := by
    rw [List.length_replicate]
    exact Nat.mod_lt _ (by decide)

/-- `block_on(self.cache.read(..))`; `errno` is what a caller sees of an
error. -/
def cacheRead (cache : FoyerCache) (errno : CacheError → ℕ)
    (slice : SegmentSlice) : Foyer.Task (Outcome ℕ Bytes) :=
  (cache.read build (sliceCall slice)).bind fun result =>
    .done ((result.map Prod.fst).mapError errno)

/-- `read_at_offset(offset, buf)` of a reader over the block cache. -/
def readTask (cache : FoyerCache) (errno : CacheError → ℕ)
    (call : ℕ × Bytes) : Foyer.Task (Outcome ReadError (ℕ × Bytes)) :=
  (askAtOffset build reader call.1 call.2).serve (cacheRead build cache errno)

end Read

/-! ## Against a function -/

section Answered

variable {build : Build} {reader : RawdiskReader} {cache : Cache}

theorem readBody_eq (offset total : ℕ) (filled : Bytes) :
    readBody build cache reader offset total filled =
      if filled.length < total then do
        let (idx, within, take) ←
          nextSlice build reader offset total filled
        let data ← (Outcome.ofExcept (cache.read idx within take)).mapError
          .ioError
        pure (.next (filled ++ data))
      else .ok (.done filled) := by
  unfold readBody nextSlice
  split_ifs with hmore
  · rw [Outcome.bind_assoc]
    congr 1
    funext want
    rw [Outcome.bind_assoc]
    congr 1
    funext found
    cases found with
    | none => rfl
    | some found =>
        obtain ⟨idx, within, left⟩ := found
        simp only
        rw [Outcome.bind_assoc]
        congr 1
        funext remaining
        split_ifs <;> rfl
  · rfl

/-- The answers of a cache. -/
def Cache.answer (cache : Cache) (slice : SegmentSlice) : Outcome ℕ Bytes :=
  Outcome.ofExcept (cache.read slice.1 slice.2.1 slice.2.2)

theorem answered_readSlices (offset total fuel : ℕ) (filled : Bytes) :
    (readSlices build reader offset total fuel filled).answered cache.answer =
      loop (readBody build cache reader offset total) fuel filled := by
  induction fuel generalizing filled with
  | zero => rfl
  | succ fuel ih =>
      unfold readSlices loop
      rw [readBody_eq]
      split_ifs with hmore
      · cases nextSlice build reader offset total filled with
        | ok slice =>
            obtain ⟨idx, within, take⟩ := slice
            show Asking.answered cache.answer (Asking.goOn
              ((cache.answer (idx, within, take)).mapError ReadError.ioError)
              _) = _
            rw [Asking.answered_goOn, Outcome.ok_bind]
            unfold Cache.answer
            dsimp only
            cases cache.read idx within take with
            | ok data => exact ih (filled ++ data)
            | error code => rfl
        | error e => rfl
        | panic fault => rfl
        | hang => rfl
      · rfl

theorem answered_askAtOffset (offset : ℕ) (buf : Bytes) :
    (askAtOffset build reader offset buf).answered cache.answer =
      readAtOffset build cache reader offset buf := by
  unfold askAtOffset readAtOffset
  split_ifs with hbeyond
  · rfl
  · rw [Asking.answered_goOn]
    congr 1
    funext limit
    rw [Asking.answered_goOn]
    congr 1
    funext window
    simp only
    split_ifs with hzero
    · rfl
    · rw [Asking.answered_map, answered_readSlices]
      cases loop (readBody build cache reader offset window.length)
        (window.length + 1) [] <;> rfl

end Answered

/-! ## Each slice once -/

section Once

variable {build : Build} {segments : List Bytes} {reader : RawdiskReader}

/-- The slice is a part of a segment. -/
def InSegment (segments : List Bytes) (slice : SegmentSlice) : Prop :=
  ∃ seg, segments[slice.1]? = some seg ∧ 0 < slice.2.2 ∧
    slice.2.1 + slice.2.2 ≤ seg.length

/-- Where the slice begins in the concatenation. -/
def sliceStart (segments : List Bytes) (slice : SegmentSlice) : ℕ :=
  startOf (segments.map List.length) slice.1 + slice.2.1

/-- An answer fills its slice. -/
def FillsSlice (slice : SegmentSlice) (answer : Outcome ℕ Bytes) : Prop :=
  ∀ data, answer = .ok data → data.length = slice.2.2

theorem segment_end_le {idx : ℕ} {seg : Bytes}
    (hget : segments[idx]? = some seg) :
    startOf (segments.map List.length) idx + seg.length ≤
      segments.flatten.length := by
  have hlen : (segments.map List.length)[idx]? = some seg.length := by
    rw [List.getElem?_map, hget, Option.map_some]
  rw [← startOf_succ hlen, List.length_flatten, startOf,
    ← List.sum_take_add_sum_drop (segments.map List.length) (idx + 1)]
  exact Nat.le_add_right _ _

/-- The next slice begins where the filled part ends, and is the end of the
loop if that is the end of the image. -/
theorem nextSlice_ok (hmounted : Mounted segments reader) {offset total : ℕ}
    {filled : Bytes} {slice : SegmentSlice}
    (hend : offset + filled.length ≤ segments.flatten.length)
    (hmore : filled.length < total)
    (h : nextSlice build reader offset total filled = .ok slice) :
    InSegment segments slice ∧
      sliceStart segments slice = offset + filled.length ∧
      offset + filled.length + slice.2.2 ≤ segments.flatten.length := by
  have hlt := hmounted.segmented.lt
  rw [← List.length_flatten] at hlt
  unfold nextSlice at h
  rw [Build.add_of_lt (by omega), Outcome.ok_bind] at h
  rcases Nat.lt_or_ge (offset + filled.length) segments.flatten.length with
    hin | hpast
  · obtain ⟨idx, within, left, seg, hlocate, hget, hsum, hpos, hwant⟩ :=
      hmounted.locate build (offset + filled.length) hin
    rw [hlocate, Outcome.ok_bind] at h
    simp only at h
    rw [Build.sub_of_le (Nat.le_of_lt hmore), Outcome.ok_bind] at h
    split_ifs at h with hzero
    obtain rfl := Outcome.ok.inj h
    have hle : takeBytes (total - filled.length) left ≤ left := by
      unfold takeBytes
      omega
    have hseg := segment_end_le hget
    unfold InSegment sliceStart
    exact ⟨⟨seg, hget, Nat.pos_of_ne_zero hzero, by simp only; omega⟩,
      hwant.symm, by simp only; omega⟩
  · unfold SegmentMap.locate at h
    rw [hmounted.mapSize, ← List.length_flatten, if_pos hpast,
      Outcome.ok_bind] at h
    simp at h

theorem readSlices_asksOnce (hmounted : Mounted segments reader)
    {offset total : ℕ} (fuel : ℕ) {filled : Bytes} {asked : Set SegmentSlice}
    (hend : offset + filled.length ≤ segments.flatten.length)
    (hasked : ∀ slice ∈ asked,
      sliceStart segments slice < offset + filled.length) :
    (readSlices build reader offset total fuel filled).AsksOnce
      (InSegment segments) FillsSlice asked := by
  induction fuel generalizing filled asked with
  | zero => trivial
  | succ fuel ih =>
      unfold readSlices
      split_ifs with hmore
      · refine Asking.asksOnce_goOn ?_
        intro slice hslice
        obtain ⟨hin, hstart, hle⟩ := nextSlice_ok hmounted hend hmore hslice
        refine ⟨hin, ?_, ?_⟩
        · intro hmem
          have := hasked slice hmem
          omega
        · intro answer hfills
          refine Asking.asksOnce_goOn ?_
          intro data hdata
          have hlength := hfills data (Outcome.mapError_eq_ok.mp hdata)
          obtain ⟨_, _, hpos, _⟩ := hin
          refine ih (by rw [List.length_append]; omega) ?_
          intro other hother
          rw [List.length_append]
          rcases Set.mem_insert_iff.mp hother with rfl | hold
          · omega
          · have := hasked other hold
            omega
      · trivial

theorem askAtOffset_asksOnce (hmounted : Mounted segments reader) (offset : ℕ)
    (buf : Bytes) :
    (askAtOffset build reader offset buf).AsksOnce (InSegment segments)
      FillsSlice ∅ := by
  unfold askAtOffset
  split_ifs with hbeyond
  · trivial
  · rw [hmounted.imageSize] at hbeyond
    refine Asking.asksOnce_goOn fun limit _ => Asking.asksOnce_goOn ?_
    intro window _
    simp only
    split_ifs with hzero
    · trivial
    · refine Asking.AsksOnce.map (readSlices_asksOnce hmounted _ ?_ ?_)
      · rw [List.length_nil]
        omega
      · intro slice hslice
        exact hslice.elim

end Once

/-! ## The block cache as the service -/

section Service

variable {build : Build} {cache : FoyerCache} {errno : CacheError → ℕ}
  {segments : List Bytes} {reader : RawdiskReader} {K : ReadCall → Prop}
  {s s' : CacheState}

/-- The segments are the sources of the cache, and end so long before the last
word that the blocks of their reads, and the blocks read ahead, do too. -/
structure Backs (build : Build) (cache : FoyerCache) (segments : List Bytes) :
    Prop where
  sources : ∀ idx seg, segments[idx]? = some seg →
    ∃ source : Foyer.Source, cache.sources idx = some source ∧ source.bytes = seg
  group_lt : ∀ seg ∈ segments, seg.length + cache.fetchSize < wordLimit
  window_lt : build = .dev → ∀ seg ∈ segments,
    seg.length + (cache.readahead + 1) * cache.chlen < wordLimit

theorem Backs.fits (h : Backs build cache segments) {off len : ℕ}
    {seg : Bytes} (hmem : seg ∈ segments) (hle : off + len ≤ seg.length) :
    cache.Fits build off len := by
  have hgroup := h.group_lt seg hmem
  refine ⟨⟨by omega, ?_⟩, ?_⟩
  · intro b hb
    obtain ⟨i, -, hlt⟩ := (Foyer.mem_blockOffs cache.chlen_pos).mp hb
    have hbeg := cache.groupBeg_le b
    unfold FoyerCache.GroupFits
    omega
  · intro hbuild
    have hwindow := h.window_lt hbuild seg hmem
    have hnext : cache.nextBlock (off + len) ≤
        off + len + (cache.chlen - 1) := Nat.div_mul_le_self _ _
    rw [Nat.add_mul, Nat.one_mul] at hwindow
    unfold FoyerCache.WindowFits
    omega

/-- What the block cache answers for a slice. -/
def SliceAnswered (segments : List Bytes) (slice : SegmentSlice)
    (answer : Outcome ℕ Bytes) (s : CacheState) : Prop :=
  ∀ seg, segments[slice.1]? = some seg → 0 < slice.2.2 →
    slice.2.1 + slice.2.2 ≤ seg.length →
    answer = .ok (Slice.window seg slice.2.1 slice.2.2) ∨
      ∃ code, answer = .error code ∧ s.SomeShort

theorem SliceAnswered.grows {slice : SegmentSlice} {answer : Outcome ℕ Bytes}
    (h : SliceAnswered segments slice answer s) (hgrows : s.Grows s') :
    SliceAnswered segments slice answer s' := by
  intro seg hget hpos hle
  rcases h seg hget hpos hle with hok | ⟨code, herror, hshort⟩
  · exact Or.inl hok
  · exact Or.inr ⟨code, herror, hshort.grows hgrows⟩

theorem SliceAnswered.fills {slice : SegmentSlice} {answer : Outcome ℕ Bytes}
    (h : SliceAnswered segments slice answer s)
    (hin : InSegment segments slice) : FillsSlice slice answer := by
  obtain ⟨seg, hget, hpos, hle⟩ := hin
  intro data hdata
  rcases h seg hget hpos hle with hok | ⟨code, herror, -⟩
  · rw [hok] at hdata
    obtain rfl := Outcome.ok.inj hdata
    exact Slice.length_window_of_le hle
  · rw [herror] at hdata
    simp at hdata

theorem cacheRead_upholds (hbacks : Backs build cache segments)
    (hs : cache.Good build (fun _ => True) s) (slice : SegmentSlice) :
    (cacheRead build cache errno slice).Upholds
      (cache.contract build fun _ => True) s
      (SliceAnswered segments slice) := by
  unfold cacheRead
  refine (FoyerCache.read_upholds hs trivial).bind hs ?_
  intro result s₁ _ hserved s₂ hs₂ seg hget hpos hle
  have hmem := List.mem_of_getElem? hget
  have hgroup := hbacks.group_lt seg hmem
  have hoff : (sliceCall slice).off = slice.2.1 :=
    Nat.mod_eq_of_lt (by omega)
  have hlen : (sliceCall slice).buf.length = slice.2.2 := by
    unfold sliceCall
    rw [List.length_replicate]
    exact Nat.mod_eq_of_lt (by omega)
  obtain ⟨source, hsource, hbytes⟩ := hbacks.sources slice.1 seg hget
  unfold FoyerCache.ReadServed at hserved
  rw [show cache.sources (sliceCall slice).idx = some source from hsource,
    hoff, hlen] at hserved
  have hneeds : slice.2.1 + slice.2.2 ≤ source.end_ ∧
      cache.Fits build slice.2.1 slice.2.2 := by
    refine ⟨?_, hbacks.fits hmem hle⟩
    unfold Foyer.Source.end_
    rw [hbytes]
    exact hle
  cases result with
  | ok read =>
      obtain ⟨⟨hread, -⟩, -⟩ := hserved.ok read rfl
      rw [hbytes] at hread
      exact Or.inl (by rw [← hread]; rfl)
  | error e =>
      exact Or.inr ⟨errno e, rfl,
        (hserved.failed (by simp) hneeds).grows hs₂.grows⟩
  | panic fault =>
      exact absurd (hserved.returns hneeds) (Outcome.not_returns_panic fault)
  | hang => exact absurd (hserved.returns hneeds) Outcome.not_returns_hang

/-- The cache which has given these answers. -/
def cacheOf (answer : SegmentSlice → Outcome ℕ Bytes) : Cache where
  read := fun idx off len =>
    match answer (idx, off, len) with
    | .ok data => if data.length = len then .ok data else .error 0
    | .error code => .error code
    | _ => .error 0
  length_eq := by
    intro idx off len data h
    split at h
    · split_ifs at h with hlength
      obtain rfl := Except.ok.inj h
      exact hlength
    · simp at h
    · simp at h

theorem answer_cacheOf {answer : SegmentSlice → Outcome ℕ Bytes}
    (hanswer : ∀ slice, SliceAnswered segments slice (answer slice) s)
    {slice : SegmentSlice} (hin : InSegment segments slice) :
    answer slice = (cacheOf answer).answer slice := by
  have hfills := (hanswer slice).fills hin
  obtain ⟨idx, within, take⟩ := slice
  obtain ⟨seg, hget, hpos, hle⟩ := hin
  unfold Cache.answer cacheOf
  rcases hanswer _ seg hget hpos hle with hok | ⟨code, herror, -⟩
  · simp only [hok, if_pos (hfills _ hok), Outcome.ofExcept_ok]
  · simp only [herror, Outcome.ofExcept_error]

theorem honest_cacheOf {answer : SegmentSlice → Outcome ℕ Bytes}
    (hanswer : ∀ slice, SliceAnswered segments slice (answer slice) s) :
    HonestCache (cacheOf answer) segments fun _ _ _ => s.SomeShort := by
  intro idx seg hget off len hpos hle
  have hread := answer_cacheOf hanswer
    (show InSegment segments (idx, off, len) from ⟨seg, hget, hpos, hle⟩)
  rcases hanswer (idx, off, len) seg hget hpos hle with
    hok | ⟨code, herror, hshort⟩
  · rw [hok] at hread
    exact Or.inl (Outcome.ofExcept_eq_ok.mp hread.symm)
  · rw [herror] at hread
    refine Or.inr ⟨code, ?_, hshort⟩
    unfold Cache.answer at hread
    cases hcase : (cacheOf answer).read idx off len with
    | ok data =>
        rw [hcase] at hread
        simp at hread
    | error e =>
        rw [hcase, Outcome.ofExcept_error] at hread
        rw [Outcome.error.inj hread]

/-- A read through the block cache is one over a cache which fails only if a
source was short. -/
theorem readTask_upholds (hmounted : Mounted segments reader)
    (hbacks : Backs build cache segments)
    (hs : cache.Good build (fun _ => True) s) (call : ℕ × Bytes) :
    (readTask build reader cache errno call).Upholds
      (cache.contract build fun _ => True) s fun result s' =>
        ∃ pure : Cache,
          HonestCache pure segments (fun _ _ _ => s'.SomeShort) ∧
          result = readAtOffset build pure reader call.1 call.2 := by
  have honce : (askAtOffset build reader call.1 call.2).AsksOnce
      (InSegment segments) FillsSlice ∅ :=
    askAtOffset_asksOnce hmounted call.1 call.2
  unfold readTask
  refine (Asking.serve_upholds _ hs
    (fun slice s _ hs => cacheRead_upholds hbacks hs slice)
    (fun _ _ _ _ hlater h => h.grows hlater.grows)
    (fun _ _ _ hin h => h.fills hin) ?_ honce).mono ?_
  · intro slice
    by_cases hin : InSegment segments slice
    · obtain ⟨seg, hget, -⟩ := hin
      refine ⟨.ok (Slice.window seg slice.2.1 slice.2.2), ?_⟩
      intro other hother _ _
      rw [hget] at hother
      obtain rfl := Option.some.inj hother
      exact Or.inl rfl
    · refine ⟨.hang, ?_⟩
      intro seg hget hpos hle
      exact absurd ⟨seg, hget, hpos, hle⟩ hin
  · rintro result s' _ ⟨answer, hanswer, rfl⟩
    refine ⟨cacheOf answer, honest_cacheOf hanswer, ?_⟩
    rw [← answered_askAtOffset]
    exact honce.answered_congr (fun slice hin => (hanswer slice).fills hin)
      fun slice hin => answer_cacheOf hanswer hin

theorem readTask_live (call : ℕ × Bytes) :
    (readTask build reader cache errno call).Live := by
  refine Asking.serve_live ?_ _
  intro slice
  unfold cacheRead
  exact (FoyerCache.read_live _).bind fun _ => trivial

end Service

/-! ## Reads side by side -/

/-- Reads of one reader, with what is left of their threads. -/
abbrev Reads := Pool (ℕ × Bytes) CacheState (Outcome ReadError (ℕ × Bytes))

section Pools

variable {build : Build} {cache : FoyerCache} {errno : CacheError → ℕ}
  {segments : List Bytes} {reader : RawdiskReader} {regularPhase : Bool}
  {pool : Reads}

/-- What the reads of a split image come to which share a block cache. -/
structure ReadsThrough (build : Build) (cache : FoyerCache)
    (errno : CacheError → ℕ) (reader : RawdiskReader) (segments : List Bytes)
    (pool : Reads) : Prop where
  /-- only blocks of the segments are cached -/
  stored : ∀ (tier : Foyer.Tier) (idx b : ℕ) (entry seg : Bytes),
    segments[idx]? = some seg →
    pool.state.stored tier (idx, b) = some entry →
    entry = Slice.window seg b cache.chlen
  /-- each of them is a read over some cache of its own -/
  refines : ∃ caches : ℕ → Cache,
    (∀ i, HonestCache (caches i) segments
      fun _ _ _ => pool.state.SomeShort) ∧
    ∀ (i offset : ℕ) (buf : Bytes) (result : Outcome ReadError (ℕ × Bytes)),
      pool.calls[i]? = some ((offset, buf), .done result) →
      result = readAtOffset build (caches i) reader offset buf
  bytes : ∀ (offset : ℕ) (buf : Bytes)
    (result : Outcome ReadError (ℕ × Bytes)),
    ((offset, buf), Thread.done result) ∈ pool.calls →
    offset ≤ segments.flatten.length →
    offset + buf.length < wordLimit →
    ReadsBytes segments.flatten
      (ReadMayFail segments fun _ _ _ => pool.state.SomeShort) offset buf
      result
  ends : ∀ (i : ℕ) (call : ℕ × Bytes)
    (thread : Foyer.Task (Outcome ReadError (ℕ × Bytes))),
    pool.calls[i]? = some (call, thread) →
    ∃ pool' result,
      Pool.Steps (readTask build reader cache errno) Foyer.Env pool pool' ∧
        pool'.calls[i]? = some (call, .done result)

/-- Reads of a split image share the block cache with each other, with
prefetches and evictions, and each of them is a read over a cache which fails
only if a source has failed. -/
theorem reads_share_cache (hmounted : Mounted segments reader)
    (hbacks : Backs build cache segments)
    (hruns : Pool.Steps (readTask build reader cache errno) Foyer.Env
      (.start (.empty regularPhase)) pool) :
    ReadsThrough build cache errno reader segments pool := by
  have hsound : pool.Sound (cache.contract build fun _ => True)
      fun call result s => ∃ pure : Cache,
        HonestCache pure segments (fun _ _ _ => s.SomeShort) ∧
        result = readAtOffset build pure reader call.1 call.2 :=
    Pool.Steps.sound (K := fun _ => True)
      (fun _ _ henv hs => FoyerCache.Good.later_env hs henv)
      (fun call _ _ hs => readTask_upholds hmounted hbacks hs call) hruns
      (fun _ _ => trivial) (Pool.sound_start FoyerCache.good_empty)
  refine ⟨?_, ?_, ?_, ?_⟩
  · intro tier idx b entry seg hget hstored
    obtain ⟨source, hsource, rfl, -⟩ :=
      hsound.inv.entries tier idx b entry hstored
    obtain ⟨source', hsource', rfl⟩ := hbacks.sources idx seg hget
    obtain rfl : source = source' :=
      Option.some.inj (hsource.symm.trans hsource')
    rfl
  · have hsome : ∀ i : ℕ, ∃ pure : Cache,
        HonestCache pure segments (fun _ _ _ => pool.state.SomeShort) ∧
        ∀ (offset : ℕ) (buf : Bytes)
          (result : Outcome ReadError (ℕ × Bytes)),
          pool.calls[i]? = some ((offset, buf), .done result) →
          result = readAtOffset build pure reader offset buf := by
      intro i
      by_cases hdone : ∃ (call : ℕ × Bytes)
          (result : Outcome ReadError (ℕ × Bytes)),
          pool.calls[i]? = some (call, .done result)
      · obtain ⟨call, result, hcall⟩ := hdone
        obtain ⟨pure, hhonest, hresult⟩ :=
          hsound.result (List.mem_of_getElem? hcall)
        refine ⟨pure, hhonest, ?_⟩
        intro offset buf result' hcall'
        rw [hcall] at hcall'
        obtain ⟨rfl, hdone⟩ := Prod.mk.inj (Option.some.inj hcall')
        obtain rfl := Thread.done.inj hdone
        exact hresult
      · refine ⟨segmentCache segments,
          (correctCache_segmentCache segments).honest _, ?_⟩
        intro offset buf result hcall
        exact absurd ⟨_, result, hcall⟩ hdone
    choose caches hhonest hresults using hsome
    exact ⟨caches, hhonest, hresults⟩
  · intro offset buf result hmem hoffset hlt
    obtain ⟨pure, hhonest, rfl⟩ := hsound.result hmem
    exact hmounted.readsBytes hhonest hoffset hlt
  · intro i call thread hcall
    exact hruns.ends readTask_live hcall

end Pools

/-- A block cache with two segments, in blocks of two bytes and groups of
four. -/
def twoSegmentsCache : FoyerCache :=
  .new 2 4 1 false
    (fun idx =>
      if idx = 0 then some (Foyer.FoyerCache.steadySource [1]
        Foyer.FoyerCache.one_lt_wordLimit)
      else if idx = 1 then some (Foyer.FoyerCache.steadySource [2, 3]
        Foyer.FoyerCache.two_lt_wordLimit)
      else none)
    (by decide) (by decide)

theorem backs_twoSegments :
    Backs .dev twoSegmentsCache [[1], [2, 3]] where
  sources := by
    intro idx seg hget
    match idx, hget with
    | 0, hget =>
        obtain rfl := Option.some.inj hget
        exact ⟨_, rfl, rfl⟩
    | 1, hget =>
        obtain rfl := Option.some.inj hget
        exact ⟨_, rfl, rfl⟩
  group_lt := by
    intro seg hmem
    fin_cases hmem <;> decide
  window_lt := by
    intro _ seg hmem
    fin_cases hmem <;> decide

/-- A read across the segments, run to its end. -/
theorem reads_share_cache_two :
    ∃ (pool : Reads) (result : Outcome ReadError (ℕ × Bytes)),
      ((0, [0, 0, 0]), Thread.done result) ∈ pool.calls ∧
      ReadsBytes [1, 2, 3] (ReadMayFail [[1], [2, 3]]
        fun _ _ _ => pool.state.SomeShort) 0 [0, 0, 0] result := by
  obtain ⟨reader, -, hmounted⟩ := @openSegments_mounted [[1], [2, 3]] .dev
    "d.001" ["d.001", "d.002"] rfl (by simp) (Or.inr (by simp)) (by decide)
  have hcalled : Pool.Steps
      (readTask .dev reader twoSegmentsCache fun _ => 5) Foyer.Env
      (.start (.empty false)) ⟨.empty false, [((0, [0, 0, 0]),
        readTask .dev reader twoSegmentsCache (fun _ => 5) (0, [0, 0, 0]))],
        []⟩ := .single (.call (0, [0, 0, 0]))
  obtain ⟨pool, result, hsteps, hcall⟩ :=
    (reads_share_cache hmounted backs_twoSegments hcalled).ends 0 _ _ rfl
  have hmem := List.mem_of_getElem? hcall
  exact ⟨pool, result, hmem, (reads_share_cache hmounted backs_twoSegments
    (hcalled.trans hsteps)).bytes 0 _ result hmem (by decide) (by decide)⟩

end Rawdisk
end ImageReader
